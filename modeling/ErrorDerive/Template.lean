import ErrorDerive.Text.Digit

/-!
# Message templates

A template is a text with placeholders `{name}` and `{name:spec}`; a doubled brace stands for the
brace itself.  `Template.pieces` reads a template, `Piece.text` writes it back, and positional
placeholders are bound to the names of tuple fields piece by piece.
-/

namespace ErrorDerive

/-- What stands between the braces of a placeholder. -/
structure Hole where
  name : String
  spec : Option String
deriving DecidableEq, Repr

namespace Hole

/-- Splits at the first colon. -/
def ofBody (body : List Char) : Hole :=
  match body.dropWhile (· ≠ ':') with
  | [] => ⟨String.ofList body, none⟩
  | _ :: spec => ⟨String.ofList (body.takeWhile (· ≠ ':')), some (String.ofList spec)⟩

def body (h : Hole) : String :=
  match h.spec with
  | none => h.name
  | some spec => h.name ++ ":" ++ spec

def render (h : Hole) : String := "\x7b" ++ h.body ++ "\x7d"

/-- The same placeholder for another name. -/
def rename (name : String) (h : Hole) : Hole := { h with name }

/-- Nothing is lost in the split. -/
theorem body_ofBody (body : List Char) : (ofBody body).body = String.ofList body := by
  unfold ofBody
  split
  · rfl
  · next c spec h =>
    have hc := List.head?_dropWhile_not (fun x ↦ decide (x ≠ ':')) body
    rw [h] at hc
    have hc : c = ':' := by simpa using hc
    have ht := List.takeWhile_append_dropWhile (p := fun x ↦ decide (x ≠ ':')) (l := body)
    rw [h, hc] at ht
    conv => rhs; rw [← ht]
    rw [List.append_cons, String.ofList_append, String.ofList_append]
    rfl

end Hole

/-- A piece of a template. -/
inductive Piece
  | plain (c : Char)
  | openBrace
  | closeBrace
  | hole (h : Hole)
deriving DecidableEq, Repr

namespace Piece

def text : Piece → String
  | .plain c => c.toString
  | .openBrace => "\x7b\x7b"
  | .closeBrace => "\x7d\x7d"
  | .hole h => h.render

def size (p : Piece) : Nat := p.text.length

def hole? : Piece → Option Hole
  | .hole h => some h
  | _ => none

end Piece

/-- A placeholder and its place in the template. -/
structure Placeholder where
  hole : Hole
  start : Nat
  stop : Nat
deriving DecidableEq, Repr

/-- The name by which templates and patterns call a field of a tuple. -/
def tupleAlias (key : String) : String := "field_" ++ key

namespace Template

/-- A brace without its partner. -/
structure Unmatched where
  brace : Char
  offset : Nat
deriving DecidableEq, Repr

def isBrace (c : Char) : Bool := c == '{' || c == '}'

/-- The pieces of a text that stands at an offset. -/
def piecesFrom (offset : Nat) : List Char → Except Unmatched (List Piece)
  | [] => .ok []
  | c :: cs =>
    if c = '{' then
      if cs.head? = some '{' then (piecesFrom (offset + 2) (cs.drop 1)).map (.openBrace :: ·)
      else
        match _h : cs.dropWhile (!isBrace ·) with
        | '}' :: rest =>
          let body := cs.takeWhile (!isBrace ·)
          (piecesFrom (offset + body.length + 2) rest).map (.hole (.ofBody body) :: ·)
        | _ => .error ⟨'{', offset⟩
    else if c = '}' then
      if cs.head? = some '}' then (piecesFrom (offset + 2) (cs.drop 1)).map (.closeBrace :: ·)
      else .error ⟨'}', offset⟩
    else (piecesFrom (offset + 1) cs).map (.plain c :: ·)
termination_by cs => cs.length
decreasing_by
  · simp only [List.length_drop, List.length_cons]; omega
  · have := (List.dropWhile_suffix (!isBrace ·) (l := cs)).length_le
    rw [_h] at this
    simp only [List.length_cons] at this ⊢
    omega
  · simp only [List.length_drop, List.length_cons]; omega
  · simp

/-- The pieces of a template. -/
def pieces (template : String) : Except Unmatched (List Piece) := piecesFrom 0 template.toList

/-- The text of pieces. -/
def write (ps : List Piece) : String := String.join (ps.map Piece.text)

/-- The placeholders among pieces that start at an offset. -/
def holesFrom (offset : Nat) : List Piece → List Placeholder
  | [] => []
  | .hole h :: ps =>
    let stop := offset + (Piece.hole h).size
    ⟨h, offset, stop⟩ :: holesFrom stop ps
  | p :: ps => holesFrom (offset + p.size) ps

/-- The placeholders of a template, in order. -/
def placeholders (template : String) : Except Unmatched (List Placeholder) :=
  (pieces template).map (holesFrom 0)

/-- The names that pieces refer to, each once, in the order of their first appearance. -/
def namesOf (ps : List Piece) : List String := ((ps.filterMap Piece.hole?).map Hole.name).eraseDups

/-- The names that a template refers to. -/
def names (template : String) : Except Unmatched (List String) := (pieces template).map namesOf

/-- Turns a placeholder with an index below `count` into one for that tuple field. -/
def bindIndex (count : Nat) (h : Hole) : Except Text.DigitLimit Hole :=
  if Text.isNumeral h.name.toList then
    (Text.readNumeral h.name.toList).map fun i ↦
      if i < count then h.rename (tupleAlias (toString i)) else h
  else .ok h

/-- Turns the positional placeholders among pieces into named ones. -/
def bindPiece (count : Nat) : Piece → Except Text.DigitLimit Piece
  | .hole h => (bindIndex count h).map .hole
  | p => .ok p

/-- Why the indices of a template cannot be bound. -/
inductive Fault
  | unmatched (u : Unmatched)
  | limit (l : Text.DigitLimit)
deriving DecidableEq, Repr

/-- Gives every placeholder for an index below `count` the name of that tuple field. -/
def bindIndices (template : String) (count : Nat) : Except Fault String :=
  match pieces template with
  | .error u => .error (.unmatched u)
  | .ok ps =>
    match ps.mapM (bindPiece count) with
    | .error l => .error (.limit l)
    | .ok qs => .ok (write qs)

end Template

end ErrorDerive
