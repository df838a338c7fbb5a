import ErrorDerive.Keyed
import ErrorDerive.Text.Loose

/-!
# JSON values and their text

Values as they are read from settings and written in reports.  Strings are loose text, because an
escape may spell half of a surrogate pair.  Written text is ASCII: every other character is escaped
in UTF-16 units.
-/

namespace ErrorDerive

/-- A number as it was written: an integer, digits times a power of ten, or one of the special
numbers of floating point. -/
inductive JsonNumber
  | int (n : Int)
  | decimal (negative : Bool) (digits : Nat) (exponent : Int)
  | notANumber
  | infinity (negative : Bool)
deriving DecidableEq, Repr

namespace JsonNumber

/-- Whether `digits * 10 ^ exponent` is zero, or so small that the nearest double is: that is up to
half of the least positive one, which is `2 ^ -1074`. -/
def vanishes (digits : Nat) (exponent : Int) : Bool :=
  if digits = 0 then true
  else if 0 ≤ exponent then false
  else if ((Nat.toDigits 10 digits).length : Int) + exponent ≤ -400 then true
  else digits * Nat.pow 2 1075 ≤ Nat.pow 10 exponent.natAbs

/-- Whether a number equals zero as a number of its kind. -/
def isZero : JsonNumber → Bool
  | .int n => n == 0
  | .decimal _ digits exponent => vanishes digits exponent
  | .notANumber => false
  | .infinity _ => false

def write : JsonNumber → String
  | .int n => toString n
  | .decimal negative digits exponent =>
    (if negative then "-" else "") ++ toString digits ++ "e" ++ toString exponent
  | .notANumber => "NaN"
  | .infinity negative => if negative then "-Infinity" else "Infinity"

end JsonNumber

inductive Json
  | null
  | bool (b : Bool)
  | number (n : JsonNumber)
  | string (s : Text.Loose)
  | array (xs : List Json)
  | object (fields : List (Text.Loose × Json))
deriving Repr, Inhabited

namespace Json

def int (n : Int) : Json := .number (.int n)

/-- A string as a value. -/
def text (s : String) : Json := .string (.ofString s)

/-- A string or null. -/
def optional : Option String → Json
  | some s => text s
  | none => .null

/-- An object whose keys are strings. -/
def record (fields : List (String × Json)) : Json :=
  .object (fields.map fun f ↦ (Text.Loose.ofString f.1, f.2))

/-- An integer or null. -/
def optionalInt : Option Int → Json
  | some n => int n
  | none => .null

/-- One character between quotes. -/
def escaped (c : Char) : List Char :=
  let n := c.toNat
  if c = '"' ∨ c = '\\' then ['\\', c]
  else if c = '\n' then ['\\', 'n']
  else if c = '\r' then ['\\', 'r']
  else if c = '\t' then ['\\', 't']
  else if n = 8 then ['\\', 'b']
  else if n = 12 then ['\\', 'f']
  else if 0x20 ≤ n ∧ n ≤ 0x7E then [c]
  else if n < 0x10000 then Text.Point.unitEscape n
  else
    Text.Point.unitEscape (0xD800 + (n - 0x10000) / 0x400)
      ++ Text.Point.unitEscape (0xDC00 + (n - 0x10000) % 0x400)

/-- One code point between quotes. -/
def escapedPoint : Text.Point → List Char
  | .char c => escaped c
  | .half n => Text.Point.unitEscape (0xD800 + n.val)

def writeString (s : Text.Loose) : String :=
  String.ofList ('"' :: s.points.flatMap escapedPoint ++ ['"'])

mutual

/-- A value as text, on one line, with a space behind each comma and colon. -/
def write : Json → String
  | .null => "null"
  | .bool b => if b then "true" else "false"
  | .number n => n.write
  | .string s => writeString s
  | .array xs => "[" ++ ", ".intercalate (writeItems xs) ++ "]"
  | .object fs => "\x7b" ++ ", ".intercalate (writeFields fs) ++ "\x7d"

/-- The texts of items. -/
def writeItems : List Json → List String
  | [] => []
  | x :: xs => write x :: writeItems xs

/-- The texts of members, each with its key. -/
def writeFields : List (Text.Loose × Json) → List String
  | [] => []
  | (k, x) :: fs => (writeString k ++ ": " ++ write x) :: writeFields fs

end

/-- The value of a field; none if there is no such field or the value is no object. -/
def field? (key : String) : Json → Option Json
  | .object fs => Keyed.get? fs (Text.Loose.ofString key)
  | _ => none

end Json

end ErrorDerive
