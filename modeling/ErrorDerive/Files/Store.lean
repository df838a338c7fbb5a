import ErrorDerive.Files.Path
import ErrorDerive.Text.Quoted

/-!
# Files

A store holds the files and directories below the working directory.  Beyond it only the
directories above the working directory and the root are known; they hold nothing, but a file can
be written to them.
-/

namespace ErrorDerive

/-- Why a file cannot be read or written. -/
inductive FileProblem
  | missing
  | denied
  | notDirectory
  | isDirectory
  | nameTooLong
  | nullInPath
deriving DecidableEq, Repr

/-- A problem with the file at a path. -/
structure FileFault where
  problem : FileProblem
  path : Path
deriving DecidableEq, Repr

def FileFault.message (f : FileFault) : String :=
  let name := Text.Quoted.render f.path.render
  match f.problem with
  | .missing => "[Errno 2] No such file or directory: " ++ name
  | .denied => "[Errno 13] Permission denied: " ++ name
  | .notDirectory => "[Errno 20] Not a directory: " ++ name
  | .isDirectory => "[Errno 21] Is a directory: " ++ name
  | .nameTooLong => "[Errno 36] File name too long: " ++ name
  | .nullInPath => "embedded null byte"

/-- Where names start from: a number of levels above the working directory, or the root. -/
inductive Base
  | above (levels : Nat)
  | root
deriving DecidableEq, Repr

/-- Where a path leads: a base and the names that lead on from it. -/
structure Spot where
  base : Base := .above 0
  names : List String := []
deriving DecidableEq, Repr

namespace Spot

/-- The directory that holds a spot; the root holds itself. -/
def parent : Spot → Spot
  | ⟨.above n, []⟩ => ⟨.above (n + 1), []⟩
  | ⟨.root, []⟩ => ⟨.root, []⟩
  | ⟨base, names⟩ => ⟨base, names.dropLast⟩

def child (s : Spot) (name : String) : Spot := { s with names := s.names ++ [name] }

/-- Whether a spot lies in another or is the same. -/
def within (inner outer : Spot) : Bool :=
  inner.base == outer.base && outer.names.isPrefixOf inner.names

end Spot

structure Store where
  files : List (Spot × List UInt8) := []
  directories : List Spot := []
deriving DecidableEq, Repr

namespace Store

def content? (s : Store) (spot : Spot) : Option (List UInt8) := s.files.lookup spot

/-- Every directory that leads to a file or directory exists too. -/
def isDirectory (s : Store) (spot : Spot) : Bool :=
  spot.names.isEmpty || (s.directories ++ s.files.map (·.1.parent)).any (·.within spot)

/-- Names have at most this many bytes. -/
def maxName : Nat := 255

/-- Paths have at most this many bytes. -/
def maxPath : Nat := 4095

/-- Walks on from a directory.  Every name but the last must be that of a directory. -/
def walk (s : Store) (spot : Spot) : List String → Except FileProblem Spot
  | [] => .ok spot
  | name :: rest =>
    if name == ".." then walk s spot.parent rest
    else if maxName < name.utf8ByteSize then .error .nameTooLong
    else if rest.isEmpty then .ok (spot.child name)
    else if s.isDirectory (spot.child name) then walk s (spot.child name) rest
    else if (s.content? (spot.child name)).isSome then .error .notDirectory
    else .error .missing

/-- Where a path leads.  No path with a null character leads anywhere. -/
def locate (s : Store) (p : Path) : Except FileProblem Spot :=
  if p.names.any (·.toList.contains '\x00') then .error .nullInPath
  else if maxPath < p.render.utf8ByteSize then .error .nameTooLong
  else s.walk { base := if p.root = "" then .above 0 else .root } p.names

/-- Reads the file at a path. -/
def read (s : Store) (p : Path) : Except FileFault (List UInt8) :=
  match s.locate p with
  | .error e => .error ⟨e, p⟩
  | .ok spot =>
    match s.content? spot with
    | some bytes => .ok bytes
    | none => .error ⟨if s.isDirectory spot then .isDirectory else .missing, p⟩

/-- Sets the content of a file. -/
def put (spot : Spot) (bytes : List UInt8) (s : Store) : Store :=
  { s with files := (spot, bytes) :: s.files.filter (·.1 != spot) }

/-- Writes the file at a path. -/
def write (s : Store) (p : Path) (bytes : List UInt8) : Except FileFault Store :=
  match s.locate p with
  | .error e => .error ⟨e, p⟩
  | .ok spot =>
    if s.isDirectory spot then .error ⟨.isDirectory, p⟩ else .ok (s.put spot bytes)

/-- A store with given directories and files, named by paths below the working directory. -/
def ofEntries (files : List (String × List UInt8)) (directories : List String) : Store where
  files := files.map fun f ↦ ({ names := (Path.ofString f.1).names }, f.2)
  directories := directories.map fun d ↦ { names := (Path.ofString d).names }

/-- The files below the working directory that another store lacks or holds with other contents. -/
def changes (before after : Store) : List (String × List UInt8) :=
  let changed := after.files.filter fun f ↦
    f.1.base == .above 0 && before.content? f.1 != some f.2
  changed.map fun f ↦ ("/".intercalate f.1.names, f.2)

end Store

end ErrorDerive
