import ErrorDerive.Text.Hex

/-!
# Loose text

Text in which half of a surrogate pair may stand alone.  Escapes in a settings file can spell such
text.  It is never a name, but messages show it, and a report spells it with the same escapes again.
-/

namespace ErrorDerive.Text

/-- A code point: a character, or half of a surrogate pair, counted from the first of them. -/
inductive Point
  | char (c : Char)
  | half (n : Fin 0x800)
deriving DecidableEq, Repr

namespace Point

def code : Point → Nat
  | .char c => c.toNat
  | .half n => 0xD800 + n.val

/-- The escape of a UTF-16 unit. -/
def unitEscape (n : Nat) : List Char := '\\' :: 'u' :: hex 4 n

/-- A code point on a stream of characters: half of a pair is written as an escape. -/
def print : Point → List Char
  | .char c => [c]
  | .half n => unitEscape (0xD800 + n.val)

end Point

/-- The characters of code points, unless one of them is half of a pair. -/
def chars? : List Point → Option (List Char)
  | [] => some []
  | .char c :: ps => (chars? ps).map (c :: ·)
  | .half _ :: _ => none

theorem chars?_eq_some_iff {ps : List Point} {cs : List Char} :
    chars? ps = some cs ↔ ps = cs.map Point.char := by
  induction ps generalizing cs with
  | nil => cases cs <;> simp [chars?]
  | cons p ps ih =>
    cases p with
    | half n => cases cs <;> simp [chars?]
    | char c =>
      cases cs with
      | nil => simp [chars?]
      | cons d cs =>
        simp only [chars?, Option.map_eq_some_iff, ih, List.map_cons, List.cons.injEq,
          Point.char.injEq]
        constructor
        · rintro ⟨a, h, hc, rfl⟩
          exact ⟨hc, h⟩
        · rintro ⟨hc, h⟩
          exact ⟨cs, h, hc, rfl⟩

/-- Text made of code points. -/
structure Loose where
  points : List Point := []
deriving DecidableEq, Repr, Inhabited

namespace Loose

def ofString (s : String) : Loose := ⟨s.toList.map .char⟩

instance : Coe String Loose := ⟨ofString⟩

instance : Append Loose := ⟨fun a b ↦ ⟨a.points ++ b.points⟩⟩

/-- The text as a string, unless half of a pair stands alone in it. -/
def toString? (t : Loose) : Option String := (chars? t.points).map String.ofList

/-- The text as a stream of characters shows it. -/
def print (t : Loose) : String := String.ofList (t.points.flatMap Point.print)

/-- The code points as numbers, by which texts are ordered. -/
def codes (t : Loose) : List Nat := t.points.map Point.code

/-- Texts with a separator between them. -/
def intercalate (separator : Loose) (ts : List Loose) : Loose :=
  ⟨separator.points.intercalate (ts.map points)⟩

/-- The texts that are strings are the texts of strings. -/
theorem toString?_eq_some_iff {t : Loose} {s : String} : t.toString? = some s ↔ t = ofString s := by
  obtain ⟨ps⟩ := t
  simp only [toString?, Option.map_eq_some_iff, chars?_eq_some_iff, ofString, mk.injEq]
  constructor
  · rintro ⟨cs, rfl, rfl⟩
    simp
  · rintro rfl
    exact ⟨s.toList, rfl, by simp⟩

@[simp] theorem toString?_ofString (s : String) : (ofString s).toString? = some s :=
  toString?_eq_some_iff.2 rfl

end Loose

end ErrorDerive.Text
