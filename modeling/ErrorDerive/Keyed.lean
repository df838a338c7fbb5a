/-!
# Keyed lists

Values under keys, in the order in which the keys came first.
-/

namespace ErrorDerive

/-- Pairs of a key and a value, in order. -/
abbrev Keyed (κ α : Type) := List (κ × α)

namespace Keyed

variable {κ α : Type} [DecidableEq κ]

def keys (xs : Keyed κ α) : List κ := xs.map Prod.fst

/-- Sets the value of a key.  A key that is new comes last; one that is not keeps its place. -/
def put (key : κ) (value : α) : Keyed κ α → Keyed κ α
  | [] => [(key, value)]
  | x :: xs => if x.1 = key then (key, value) :: xs else x :: put key value xs

/-- A keyed list from pairs; of two pairs with one key the later value wins. -/
def ofPairs (ps : List (κ × α)) : Keyed κ α := ps.foldl (fun xs p ↦ put p.1 p.2 xs) []

/-- The value of a key. -/
def get? (xs : Keyed κ α) (key : κ) : Option α := xs.lookup key

end Keyed

end ErrorDerive
