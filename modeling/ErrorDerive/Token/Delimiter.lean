/-!
# Delimiters
-/

namespace ErrorDerive

/-- The three kinds of brackets that enclose a group. -/
inductive Delimiter
  | paren
  | bracket
  | brace
deriving DecidableEq, Repr, Inhabited

namespace Delimiter

def opener : Delimiter → Char
  | .paren => '('
  | .bracket => '['
  | .brace => '{'

def closer : Delimiter → Char
  | .paren => ')'
  | .bracket => ']'
  | .brace => '}'

/-- All delimiters. -/
def all : List Delimiter := [.paren, .bracket, .brace]

/-- The delimiter that a text opens. -/
def ofOpener? (s : String) : Option Delimiter := all.find? fun d ↦ s = d.opener.toString

/-- A group of which only the brackets are shown. -/
def elided (d : Delimiter) : String := d.opener.toString ++ "..." ++ d.closer.toString

end Delimiter

end ErrorDerive
