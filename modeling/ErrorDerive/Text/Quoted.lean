import ErrorDerive.Text.Loose
import ErrorDerive.Text.Printable

/-!
# Quoted text in messages

Messages show names and templates between quotes.  The single quote is used unless the text holds
one and no double quote; backslash, the quote in use and characters that do not print are escaped,
and so is half of a surrogate pair.
-/

namespace ErrorDerive.Text.Quoted

/-- The quote that shows a text with the fewest escapes, the single one if in doubt. -/
def quoteFor (ps : List Point) : Char :=
  if .char '\'' ∈ ps ∧ .char '"' ∉ ps then '"' else '\''

/-- One character between quotes: the shortest escape that holds it, unless it prints. -/
def escape (quote c : Char) : List Char :=
  if c = '\\' ∨ c = quote then ['\\', c]
  else if c = '\n' then ['\\', 'n']
  else if c = '\r' then ['\\', 'r']
  else if c = '\t' then ['\\', 't']
  else if isPrintable c then [c]
  else if c.toNat < 0x100 then '\\' :: 'x' :: hex 2 c.toNat
  else if c.toNat < 0x10000 then '\\' :: 'u' :: hex 4 c.toNat
  else '\\' :: 'U' :: hex 8 c.toNat

/-- One code point between quotes. -/
def escapePoint (quote : Char) : Point → List Char
  | .char c => escape quote c
  | .half n => Point.unitEscape (0xD800 + n.val)

/-- A text as shown in messages. -/
def render (t : Loose) : String :=
  let quote := quoteFor t.points
  String.ofList (quote :: t.points.flatMap (escapePoint quote) ++ [quote])

end ErrorDerive.Text.Quoted
