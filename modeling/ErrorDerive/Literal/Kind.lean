import ErrorDerive.Literal.Escape

/-!
# Literals and their values
-/

namespace ErrorDerive

inductive LiteralKind
  | string
  | rawString
  | character
  | number
deriving DecidableEq, Repr, Inhabited

namespace LiteralKind

def name : LiteralKind → String
  | .string => "str"
  | .rawString => "raw_str"
  | .character => "char"
  | .number => "number"

def isString : LiteralKind → Bool
  | .string | .rawString => true
  | .character | .number => false

end LiteralKind

namespace Literal

/-- Why a literal has no string value. -/
inductive Fault
  | notString (kind : LiteralKind)
  | escape (fault : EscapeFault)
deriving DecidableEq, Repr

def Fault.message : Fault → String
  | .notString k => k.name ++ " literal is not a string"
  | .escape e => e.message

/-- What stands between the quotes of a raw string, which has as many hashes on either side. -/
def rawBody (text : List Char) : List Char :=
  let hashes := ((text.drop 1).takeWhile (· = '#')).length
  (text.drop (2 + hashes)).take (text.length - 3 - 2 * hashes)

/-- The string that a literal stands for. -/
def value (kind : LiteralKind) (text : String) : Except Fault String :=
  match kind with
  | .rawString => .ok (String.ofList (rawBody text.toList))
  | .string => ((unescapeChars (text.toList.drop 1).dropLast).map String.ofList).mapError .escape
  | k => .error (.notString k)

end Literal

end ErrorDerive
