/-!
# File paths

A path is a root and the names below it.  Repeated slashes and single dots have no meaning, double
dots are kept; two slashes in front are a root of their own, three or more are one.
-/

namespace ErrorDerive

structure Path where
  root : String
  names : List String
deriving DecidableEq, Repr

namespace Path

/-- The names between slashes, empty ones included. -/
def segments : List Char → List (List Char)
  | [] => [[]]
  | c :: cs =>
    if c = '/' then [] :: segments cs
    else
      match segments cs with
      | [] => [[c]]
      | s :: ss => (c :: s) :: ss

/-- The root that a number of slashes in front stands for. -/
def rootOf : Nat → String
  | 0 => ""
  | 2 => "//"
  | _ => "/"

def ofString (s : String) : Path where
  root := rootOf (s.toList.takeWhile (· = '/')).length
  names := ((segments s.toList).map String.ofList).filter fun n ↦ n ≠ "" ∧ n ≠ "."

/-- The text of a path; the empty path is a dot. -/
def render (p : Path) : String :=
  if p.root = "" ∧ p.names = [] then "." else p.root ++ "/".intercalate p.names

end Path

end ErrorDerive
