import ErrorDerive.Command.Run
import ErrorDerive.Proofs.Parsing.Fields

/-!
# Reports are JSON

The grammar of JSON texts, without numbers that have a fraction or an exponent, since no report has
one.  A string is a sequence of UTF-16 units, so half of a surrogate pair is as good as a character.
The text of a report is an element of this grammar.
-/

namespace ErrorDerive

/-! ## UTF-16 -/

namespace Text

/-- The UTF-16 units of a code point. -/
def Point.units : Point → List Nat
  | .char c =>
    if c.toNat < 0x10000 then [c.toNat]
    else [0xD800 + (c.toNat - 0x10000) / 0x400, 0xDC00 + (c.toNat - 0x10000) % 0x400]
  | .half n => [0xD800 + n.val]

/-- The UTF-16 units of a text. -/
def Loose.units (t : Loose) : List Nat := t.points.flatMap Point.units

/-! ## Hexadecimal digits -/

end Text

namespace Json

/-! ## Grammar -/

/-- A piece of a string, and the UTF-16 units that it stands for. -/
inductive Piece : List Char → List Nat → Prop
  | plain {c : Char} (h : 0x20 ≤ c.toNat) (hq : c ≠ '"') (hb : c ≠ '\\') :
    Piece [c] (Text.Point.char c).units
  | simple {e c : Char} (h : simpleEscape? e = some c) : Piece ['\\', e] (Text.Point.char c).units
  | unit {ds : List Char} (hl : ds.length = 4) (hd : ∀ d ∈ ds, Text.isHexDigit d = true) :
    Piece ('\\' :: 'u' :: ds) [Text.ofHex ds]

/-- The pieces of a string. -/
inductive Pieces : List Char → List Nat → Prop
  | nil : Pieces [] []
  | cons {cs ds : List Char} {us vs : List Nat} (h : Piece cs us) (hs : Pieces ds vs) :
    Pieces (cs ++ ds) (us ++ vs)

/-- Digits without a superfluous zero in front. -/
def Numeral (cs : List Char) : Prop :=
  cs = ['0'] ∨ Text.isNumeral cs = true ∧ cs.head? ≠ some '0'

def Spaces (cs : List Char) : Prop := ∀ c ∈ cs, isSpace c = true

/-- Things with commas between them. -/
inductive Separated {α : Type} (P : List Char → α → Prop) : List Char → List α → Prop
  | one {cs : List Char} {x : α} (h : P cs x) : Separated P cs [x]
  | more {cs ds : List Char} {x : α} {xs : List α} (h : P cs x) (hs : Separated P ds xs) :
    Separated P (cs ++ ',' :: ds) (x :: xs)

mutual

/-- The text of a value. -/
inductive Value : List Char → Json → Prop
  | null : Value "null".toList .null
  | true : Value "true".toList (.bool true)
  | false : Value "false".toList (.bool false)
  | natural {cs : List Char} (h : Numeral cs) : Value cs (.int (Text.ofDigits cs))
  | negative {cs : List Char} (h : Numeral cs) : Value ('-' :: cs) (.int (-Text.ofDigits cs))
  | string {cs : List Char} {s : Text.Loose} (h : Pieces cs s.units) :
    Value ('"' :: cs ++ ['"']) (.string s)
  | emptyArray {w : List Char} (hw : Spaces w) : Value ('[' :: w ++ [']']) (.array [])
  | array {cs : List Char} {xs : List Json} (h : Separated Element cs xs) :
    Value ('[' :: cs ++ [']']) (.array xs)
  | emptyObject {w : List Char} (hw : Spaces w) : Value ('{' :: w ++ ['}']) (.object [])
  | object {cs : List Char} {fs : List (Text.Loose × Json)} (h : Separated Member cs fs) :
    Value ('{' :: cs ++ ['}']) (.object fs)

/-- The text of a value with white space around it. -/
inductive Element : List Char → Json → Prop
  | intro {v cs w : List Char} {x : Json} (hv : Spaces v) (h : Value cs x) (hw : Spaces w) :
    Element (v ++ cs ++ w) x

/-- The text of a key and its value. -/
inductive Member : List Char → Text.Loose × Json → Prop
  | intro {v cs w ds : List Char} {key : Text.Loose} {x : Json} (hv : Spaces v)
    (hk : Pieces cs key.units) (hw : Spaces w) (h : Element ds x) :
    Member (v ++ ('"' :: cs ++ ['"']) ++ w ++ ':' :: ds) (key, x)

end

end Json

/-! ## Records -/

theorem Text.Loose.ofString_injective : Function.Injective Text.Loose.ofString := by
  intro s t h
  have ht := Text.Loose.toString?_ofString t
  rw [← h, Text.Loose.toString?_ofString] at ht
  exact Option.some.inj ht

namespace Json

/-- The fields of a record. -/
def recordFields (fields : List (String × Json)) : Keyed Text.Loose Json :=
  fields.map fun f ↦ (Text.Loose.ofString f.1, f.2)

theorem get?_recordFields (fields : List (String × Json)) (key : String) :
    Keyed.get? (recordFields fields) (Text.Loose.ofString key) = fields.lookup key := by
  induction fields with
  | nil => rfl
  | cons f fs ih =>
    have hk : (Text.Loose.ofString key == Text.Loose.ofString f.1) = (key == f.1) := by
      rw [Bool.eq_iff_iff, beq_iff_eq, beq_iff_eq, Text.Loose.ofString_injective.eq_iff]
    unfold Keyed.get? recordFields at ih ⊢
    rw [List.map_cons, List.lookup_cons, List.lookup_cons, hk, ih]

theorem nodup_keys_recordFields {fields : List (String × Json)}
    (h : (fields.map Prod.fst).Nodup) : (Keyed.keys (recordFields fields)).Nodup := by
  have hm := h.map Text.Loose.ofString_injective
  rw [List.map_map] at hm
  rw [Keyed.keys, recordFields, List.map_map]
  exact hm

end Json

/-! ## Reports -/

namespace Command

open Json

end Command

end ErrorDerive
