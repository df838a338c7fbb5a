import ErrorDerive.Text.Blank
import ErrorDerive.Text.Hex

/-!
# Escapes in string literals

`unescape` interprets the body of a string literal: the one-letter escapes, `\xHH` up to `7F`,
`\u{...}` for a Unicode scalar, and a backslash at the end of a line, which drops the line end and
the white space after it.  A backslash that ends the body is kept.
-/

namespace ErrorDerive.Literal

/-- Why an escape has no meaning. -/
inductive EscapeFault
  | hexRange (high low : Char)
  | scalar (body : String)
  | noDigits
  | unknown (c : Char)
deriving DecidableEq, Repr

def EscapeFault.message : EscapeFault → String
  | .hexRange a b => "out of range hex escape `\\x" ++ String.ofList [a, b] ++ "`"
  | .scalar body => "invalid unicode escape `\\u\x7b" ++ body ++ "\x7d`"
  | .noDigits => "invalid literal for int() with base 16: ''"
  | .unknown c => "unknown character escape `\\" ++ c.toString ++ "`"

/-- The meaning of a one-letter escape. -/
def simpleEscape? : Char → Option Char
  | 'n' => some '\n'
  | 'r' => some '\r'
  | 't' => some '\t'
  | '\\' => some '\\'
  | '0' => some '\x00'
  | '\'' => some '\''
  | '"' => some '"'
  | _ => none

/-- The character of `\xHH`. -/
def hexEscape (a b : Char) : Except EscapeFault Char :=
  let n := Text.ofHex [a, b]
  if n ≤ 0x7F then .ok (Char.ofNat n) else .error (.hexRange a b)

/-- What may stand between the braces of `\u{...}`. -/
def isScalarDigit (c : Char) : Bool := Text.isHexDigit c || c == '_'

/-- The body of `\u{...}`, one to eight digits and underscores, if that is what follows. -/
def scalarBody? : List Char → Option (List Char × List Char)
  | '{' :: cs =>
    match cs.takeWhile isScalarDigit, cs.dropWhile isScalarDigit with
    | ds, '}' :: rest => if 1 ≤ ds.length ∧ ds.length ≤ 8 then some (ds, rest) else none
    | _, _ => none
  | _ => none

/-- The character of `\u{...}`. -/
def scalarEscape (body : List Char) : Except EscapeFault Char :=
  let ds := body.filter (· ≠ '_')
  let n := Text.ofHex ds
  if ds.isEmpty then .error .noDigits
  else if n < 0xD800 ∨ (0xDFFF < n ∧ n ≤ 0x10FFFF) then .ok (Char.ofNat n)
  else .error (.scalar (String.ofList body))

/-- Interprets what follows a backslash: the text it stands for and what is left. -/
def escape : Char → List Char → Except EscapeFault (List Char × List Char)
  | 'x', a :: b :: cs =>
    if Text.isHexDigit a ∧ Text.isHexDigit b then (hexEscape a b).map fun c ↦ ([c], cs)
    else .error (.unknown 'x')
  | 'u', cs =>
    match scalarBody? cs with
    | some (body, rest) => (scalarEscape body).map fun c ↦ ([c], rest)
    | none => .error (.unknown 'u')
  | '\n', cs => .ok ([], cs.dropWhile Text.isBlank)
  | c, cs =>
    match simpleEscape? c with
    | some d => .ok ([d], cs)
    | none => .error (.unknown c)

theorem length_dropWhile_le (p : Char → Bool) (cs : List Char) :
    (cs.dropWhile p).length ≤ cs.length :=
  (List.dropWhile_suffix p).length_le

theorem length_of_scalarBody? {cs ds rest : List Char} (h : scalarBody? cs = some (ds, rest)) :
    rest.length < cs.length := by
  unfold scalarBody? at h
  split at h
  · next cs =>
    split at h
    · next r hd =>
      split at h
      · cases h
        have := length_dropWhile_le isScalarDigit cs
        simp only [hd, List.length_cons] at this ⊢
        omega
      · cases h
    · cases h
  · cases h

/-- An escape never gives back more than follows its first character. -/
theorem length_of_escape {c : Char} {cs t rest : List Char} (h : escape c cs = .ok (t, rest)) :
    rest.length ≤ cs.length := by
  unfold escape at h
  split at h
  · split at h
    · simp only [Except.map] at h
      split at h <;> cases h
      simp only [List.length_cons]; omega
    · cases h
  · split at h
    · next body rest' hb =>
      simp only [Except.map] at h
      split at h <;> cases h
      exact Nat.le_of_lt (length_of_scalarBody? hb)
    · cases h
  · cases h
    exact length_dropWhile_le _ _
  · split at h <;> cases h
    exact Nat.le_refl _

/-- Interprets the escapes of a body. -/
def unescapeChars : List Char → Except EscapeFault (List Char)
  | [] => .ok []
  | [c] => .ok [c]
  | c :: d :: cs =>
    if c = '\\' then
      match _h : escape d cs with
      | .ok (t, rest) => (unescapeChars rest).map (t ++ ·)
      | .error e => .error e
    else (unescapeChars (d :: cs)).map (c :: ·)
termination_by cs => cs.length
decreasing_by
  · have := length_of_escape _h
    simp only [List.length_cons]; omega
  · simp

/-- Interprets the escapes of a string literal's body. -/
def unescape (body : String) : Except EscapeFault String :=
  (unescapeChars body.toList).map String.ofList

end ErrorDerive.Literal
