/-!
# Places in a source text

A place is an offset with the line and column it lies at.  Lines end at the newline only, and
columns count characters from one.
-/

namespace ErrorDerive

structure Place where
  offset : Nat
  line : Nat
  column : Nat
deriving DecidableEq, Repr, Inhabited

namespace Place

/-- The place before the first character. -/
def origin : Place := ⟨0, 1, 1⟩

/-- The place just past a character. -/
def advance (p : Place) (c : Char) : Place :=
  if c = '\n' then ⟨p.offset + 1, p.line + 1, 1⟩ else ⟨p.offset + 1, p.line, p.column + 1⟩

/-- The place just past a text. -/
def after (p : Place) (cs : List Char) : Place := cs.foldl advance p

@[simp] theorem after_nil (p : Place) : p.after [] = p := rfl

@[simp] theorem after_cons (p : Place) (c : Char) (cs : List Char) :
    p.after (c :: cs) = (p.advance c).after cs := rfl

theorem after_append (p : Place) (cs ds : List Char) :
    p.after (cs ++ ds) = (p.after cs).after ds := by simp [after]

@[simp] theorem offset_advance (p : Place) (c : Char) : (p.advance c).offset = p.offset + 1 := by
  unfold advance; split <;> rfl

@[simp] theorem offset_after (p : Place) (cs : List Char) :
    (p.after cs).offset = p.offset + cs.length := by
  induction cs generalizing p with
  | nil => rfl
  | cons c cs ih => simp [ih]; omega

/-- The place just past the last character of a source text. -/
def endOf (source : List Char) : Place := origin.after source

end Place

end ErrorDerive
