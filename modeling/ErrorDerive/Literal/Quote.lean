import ErrorDerive.Text.Hex

/-!
# Writing string literals

`quote` writes a text as a string literal: quotes, backslashes, line ends, tabs and the null
character get their one-letter escapes, other control characters a `\u{...}`.
-/

namespace ErrorDerive.Literal

/-- One character between the quotes of a literal. -/
def escaped (c : Char) : List Char :=
  if c = '\\' then ['\\', '\\']
  else if c = '"' then ['\\', '"']
  else if c = '\n' then ['\\', 'n']
  else if c = '\r' then ['\\', 'r']
  else if c = '\t' then ['\\', 't']
  else if c = '\x00' then ['\\', '0']
  else if c.toNat < 0x20 ∨ c.toNat = 0x7F then
    '\\' :: 'u' :: '{' :: Text.hex 0 c.toNat ++ ['}']
  else [c]

/-- The body of the literal of a text. -/
def quoteBody (s : String) : List Char := s.toList.flatMap escaped

/-- A text as a string literal. -/
def quote (s : String) : String := String.ofList ('"' :: quoteBody s ++ ['"'])

end ErrorDerive.Literal
