import ErrorDerive.Command.Run

/-!
# The executable

Reads and writes the files of the system as a run of the command asks for, and prints its report.
-/

namespace ErrorDerive.Command

/-- The problem that an error of the file system stands for, if the command reports it. -/
def problemOf? : IO.Error → Option FileProblem
  | .noFileOrDirectory _ _ _ => some .missing
  | .inappropriateType _ code _ => some (if code = 20 then .notDirectory else .isDirectory)
  | .permissionDenied _ _ _ => some .denied
  | .invalidArgument _ code _ => if code = 36 then some .nameTooLong else none
  | _ => none

/-- Runs an action on a file; an error that the command reports becomes part of the result. -/
def attempt {α : Type} (path : Path) (act : IO α) : IO (Except FileFault α) := do
  try
    return .ok (← act)
  catch e =>
    match problemOf? e with
    | some problem => return .error ⟨problem, path⟩
    | none => throw e

def readPath (path : Path) : IO Content :=
  attempt path do return (← IO.FS.readBinFile path.render).toList

def writePath (path : Path) (text : String) : IO (Except FileFault Unit) :=
  attempt path (IO.FS.writeFile path.render text)

/-- All that is left on a stream. -/
partial def readRest (stream : IO.FS.Stream) (done : ByteArray) : IO ByteArray := do
  let bytes ← stream.read 65536
  if bytes.isEmpty then return done
  readRest stream (done ++ bytes)

/-- What is printed about a run that ends without a report. -/
def interrupted (i : Interruption) : Report := ⟨1, "", i.message ++ "\n"⟩

/-- Carries a run out on the files of the system. -/
def Plan.carryOut : Plan → IO Report
  | .done report => return report
  | .interrupt i => return interrupted i
  | .readInput next => do
    let bytes ← readRest (← IO.getStdin) .empty
    (next bytes.toList).carryOut
  | .read p next => do
    let content ← readPath p
    (next content).carryOut
  | .write p text next => do
    let result ← writePath p text
    (next result).carryOut

end ErrorDerive.Command

open ErrorDerive.Command in
def main (words : List String) : IO UInt32 := do
  let report ← (plan words).carryOut
  (← IO.getStdout).putStr report.stdout
  (← IO.getStderr).putStr report.stderr
  return report.exitCode.toUInt32
