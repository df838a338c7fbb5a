/-!
# White space and lines

White space is the set of separators and layout controls that Unicode lists as such, together with
the four information separators.  A text breaks into lines at more characters than the newline;
a break at the very end opens no further line.
-/

namespace ErrorDerive.Text

/-- White space. -/
def isBlank (c : Char) : Bool :=
  let n := c.toNat
  (9 ≤ n && n ≤ 13) || (0x1C ≤ n && n ≤ 0x20) || n == 0x85 || n == 0xA0 || n == 0x1680
    || (0x2000 ≤ n && n ≤ 0x200A) || n == 0x2028 || n == 0x2029 || n == 0x202F || n == 0x205F
    || n == 0x3000

/-- Drops white space at both ends. -/
def trim (cs : List Char) : List Char :=
  ((cs.dropWhile isBlank).reverse.dropWhile isBlank).reverse

@[simp] theorem trim_nil : trim [] = [] := rfl

/-- Characters that end a line. -/
def isLineBreak (c : Char) : Bool :=
  let n := c.toNat
  (10 ≤ n && n ≤ 13) || (0x1C ≤ n && n ≤ 0x1E) || n == 0x85 || n == 0x2028 || n == 0x2029

/-- Puts a character in front of the first line. -/
def consLine (c : Char) : List (List Char) → List (List Char)
  | [] => [[c]]
  | l :: ls => (c :: l) :: ls

/-- The lines of a text, without their breaks; a carriage return and a newline are one break. -/
def lines : List Char → List (List Char)
  | [] => []
  | [c] => if isLineBreak c then [[]] else [[c]]
  | c :: d :: cs =>
    if isLineBreak c then
      if c = '\r' ∧ d = '\n' then [] :: lines cs else [] :: lines (d :: cs)
    else consLine c (lines (d :: cs))

@[simp] theorem lines_nil : lines [] = [] := rfl

/-- Turns both other spellings of a line end, `\r\n` and `\r`, into a newline. -/
def unifyNewlines : List Char → List Char
  | [] => []
  | [c] => if c = '\r' then ['\n'] else [c]
  | c :: d :: cs =>
    if c = '\r' then
      if d = '\n' then '\n' :: unifyNewlines cs else '\n' :: unifyNewlines (d :: cs)
    else c :: unifyNewlines (d :: cs)

end ErrorDerive.Text
