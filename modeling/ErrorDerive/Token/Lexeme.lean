import ErrorDerive.Literal.Kind
import ErrorDerive.Token.Delimiter

/-!
# Lexemes

A source text is cut into lexemes.  The classes of lexemes are tried in a fixed order, and the
first that the text starts with wins, however long its lexeme; so a comment is seen before a
slash, and a character before a lifetime.  White space and plain comments are trivia, all else is
a token.  Names and numbers are ASCII.
-/

namespace ErrorDerive

/-- Lexemes without meaning. -/
inductive Trivia
  | blockComment
  | lineComment
  | blank
deriving DecidableEq, Repr

/-- Tokens that stand for themselves. -/
inductive LeafKind
  | doc
  | literal (kind : LiteralKind)
  | lifetime
  | ident
  | punct
deriving DecidableEq, Repr

inductive TokenKind
  | leaf (kind : LeafKind)
  | opener (d : Delimiter)
  | closer (d : Delimiter)
deriving DecidableEq, Repr

inductive LexemeKind
  | trivia (kind : Trivia)
  | token (kind : TokenKind)
deriving DecidableEq, Repr

/-- A text in two parts: a lexeme and what follows it. -/
abbrev Cut := List Char × List Char

namespace Cut

/-- Puts characters in front of the lexeme of a cut. -/
def behind (front : List Char) (r : Option Cut) : Option Cut := r.map fun x ↦ (front ++ x.1, x.2)

/-- Cuts behind the first occurrence of a mark. -/
def through (mark : List Char) : List Char → Option Cut
  | [] => none
  | c :: cs =>
    if mark.isPrefixOf (c :: cs) then some (mark, (c :: cs).drop mark.length)
    else behind [c] (through mark cs)

/-- Cuts behind the longest run of a class. -/
def run (p : Char → Bool) (cs : List Char) : Cut := (cs.takeWhile p, cs.dropWhile p)

/-- What cuts of a text have in common: nothing is lost, and the lexeme is not empty. -/
def Splits (cs : List Char) (r : Option Cut) : Prop :=
  ∀ a b, r = some (a, b) → a ++ b = cs ∧ a ≠ []

theorem Splits.none (cs : List Char) : Splits cs none := fun _ _ h ↦ nomatch h

theorem Splits.some {cs a b : List Char} (h : a ++ b = cs) (h' : a ≠ []) :
    Splits cs (some (a, b)) :=
  fun _ _ e ↦ by cases e; exact ⟨h, h'⟩

theorem Splits.behind {f s : List Char} {r : Option Cut} (h : f ≠ [])
    (hr : ∀ a b, r = Option.some (a, b) → a ++ b = s) : Splits (f ++ s) (behind f r) := by
  intro a b e
  obtain ⟨⟨x, y⟩, hx, hy⟩ := Option.map_eq_some_iff.1 e
  cases hy
  exact ⟨by rw [List.append_assoc, hr x y hx], fun e ↦ h (List.append_eq_nil_iff.1 e).1⟩

theorem append_of_through {mark cs a b : List Char} (h : through mark cs = some (a, b)) :
    a ++ b = cs := by
  induction cs generalizing a b with
  | nil => cases h
  | cons c cs ih =>
    rw [through] at h
    split at h
    · next hp =>
      cases h
      exact List.prefix_iff_eq_append.1 (List.isPrefixOf_iff_prefix.1 hp)
    · obtain ⟨⟨x, y⟩, hx, hy⟩ := Option.map_eq_some_iff.1 h
      cases hy
      simp [ih hx]

end Cut

/-! ## Classes of characters -/

def isNameStart (c : Char) : Bool := c.isAlpha || c == '_'

def isNameRest (c : Char) : Bool := c.isAlphanum || c == '_'

/-- White space between tokens: space, tab, form feed, carriage return and newline. -/
def isLayout (c : Char) : Bool :=
  c == ' ' || c == '\t' || c == '\x0c' || c == '\r' || c == '\n'

def marks : List Char :=
  ['~', '!', '@', '#', '$', '%', '^', '&', '*', '+', '=', '|', ';', ':', ',', '.', '<', '>', '?',
    '/', '-']

def isMark (c : Char) : Bool := marks.contains c

/-! ## Classes of lexemes -/

namespace Lexeme

/-- Documentation: `/** ... */` and `/// ...`, but neither `/***` nor `/**/` nor `////`. -/
def doc? : List Char → Option Cut
  | '/' :: '*' :: '*' :: cs =>
    if cs.head? = some '*' ∨ cs.head? = some '/' then none
    else Cut.behind ['/', '*', '*'] (Cut.through ['*', '/'] cs)
  | '/' :: '/' :: '/' :: cs =>
    if cs.head? = some '/' then none
    else Cut.behind ['/', '/', '/'] (some (Cut.run (· ≠ '\n') cs))
  | _ => none

def blockComment? : List Char → Option Cut
  | '/' :: '*' :: cs => Cut.behind ['/', '*'] (Cut.through ['*', '/'] cs)
  | _ => none

def lineComment? : List Char → Option Cut
  | '/' :: '/' :: cs => Cut.behind ['/', '/'] (some (Cut.run (· ≠ '\n') cs))
  | _ => none

/-- Raw strings with up to two hashes. -/
def rawString? : List Char → Option Cut
  | 'r' :: '#' :: '#' :: '"' :: cs =>
    Cut.behind ['r', '#', '#', '"'] (Cut.through ['"', '#', '#'] cs)
  | 'r' :: '#' :: '"' :: cs => Cut.behind ['r', '#', '"'] (Cut.through ['"', '#'] cs)
  | 'r' :: '"' :: cs => Cut.behind ['r', '"'] (Cut.through ['"'] cs)
  | _ => none

/-- Cuts behind the quote that ends a string, which is the first without a backslash. -/
def stringRest? : List Char → Option Cut
  | [] => none
  | [c] => if c = '"' then some (['"'], []) else none
  | c :: d :: cs =>
    if c = '"' then some (['"'], d :: cs)
    else if c = '\\' then Cut.behind [c, d] (stringRest? cs)
    else Cut.behind [c] (stringRest? (d :: cs))

def string? : List Char → Option Cut
  | '"' :: cs => Cut.behind ['"'] (stringRest? cs)
  | _ => none

/-- The escapes of a character literal, without the backslash. -/
def charEscape? : List Char → Option Cut
  | 'x' :: a :: b :: cs =>
    if Text.isHexDigit a ∧ Text.isHexDigit b then some (['x', a, b], cs) else none
  | 'u' :: '{' :: cs =>
    match cs.takeWhile Text.isHexDigit, cs.dropWhile Text.isHexDigit with
    | ds, '}' :: rest =>
      if 1 ≤ ds.length ∧ ds.length ≤ 6 then some ('u' :: '{' :: ds ++ ['}'], rest) else none
    | _, _ => none
  | c :: cs => if (Literal.simpleEscape? c).isSome then some ([c], cs) else none
  | [] => none

/-- Cuts behind a quote that comes next. -/
def quote? : List Char → Option Cut
  | '\'' :: cs => some (['\''], cs)
  | _ => none

def character? : List Char → Option Cut
  | '\'' :: '\\' :: cs =>
    match charEscape? cs with
    | some (e, rest) => Cut.behind ('\'' :: '\\' :: e) (quote? rest)
    | none => none
  | '\'' :: c :: cs =>
    if c = '\'' ∨ c = '\n' then none else Cut.behind ['\'', c] (quote? cs)
  | _ => none

/-- A name: a letter or underscore, then letters, digits and underscores. -/
def name? : List Char → Option Cut
  | c :: cs => if isNameStart c then Cut.behind [c] (some (Cut.run isNameRest cs)) else none
  | [] => none

def lifetime? : List Char → Option Cut
  | '\'' :: cs => Cut.behind ['\''] (name? cs)
  | _ => none

/-- A name, perhaps behind the mark `r#` that keeps it from being a keyword. -/
def ident? : List Char → Option Cut
  | 'r' :: '#' :: cs => (Cut.behind ['r', '#'] (name? cs)).or (name? ('r' :: '#' :: cs))
  | cs => name? cs

def number? : List Char → Option Cut
  | c :: cs => if c.isDigit then Cut.behind [c] (some (Cut.run isNameRest cs)) else none
  | [] => none

def blank? : List Char → Option Cut
  | c :: cs => if isLayout c then Cut.behind [c] (some (Cut.run isLayout cs)) else none
  | [] => none

/-- A single character of a class. -/
def single? (p : Char → Bool) : List Char → Option Cut
  | c :: cs => if p c then some ([c], cs) else none
  | [] => none

end Lexeme

namespace LexemeKind

/-- The classes in the order in which they are tried. -/
def order : List LexemeKind :=
  [.token (.leaf .doc), .trivia .blockComment, .trivia .lineComment,
    .token (.leaf (.literal .rawString)), .token (.leaf (.literal .string)),
    .token (.leaf (.literal .character)), .token (.leaf .lifetime), .token (.leaf .ident),
    .token (.leaf (.literal .number)), .trivia .blank, .token (.leaf .punct),
    .token (.closer .paren), .token (.closer .bracket), .token (.closer .brace),
    .token (.opener .paren), .token (.opener .bracket), .token (.opener .brace)]

/-- The lexeme of a class that a text starts with, and the rest of the text. -/
def cut? : LexemeKind → List Char → Option Cut
  | .trivia .blockComment => Lexeme.blockComment?
  | .trivia .lineComment => Lexeme.lineComment?
  | .trivia .blank => Lexeme.blank?
  | .token (.leaf .doc) => Lexeme.doc?
  | .token (.leaf (.literal .rawString)) => Lexeme.rawString?
  | .token (.leaf (.literal .string)) => Lexeme.string?
  | .token (.leaf (.literal .character)) => Lexeme.character?
  | .token (.leaf (.literal .number)) => Lexeme.number?
  | .token (.leaf .lifetime) => Lexeme.lifetime?
  | .token (.leaf .ident) => Lexeme.ident?
  | .token (.leaf .punct) => Lexeme.single? isMark
  | .token (.opener d) => Lexeme.single? (· == d.opener)
  | .token (.closer d) => Lexeme.single? (· == d.closer)

end LexemeKind

structure Lexeme where
  kind : LexemeKind
  text : List Char
deriving DecidableEq, Repr

/-! ## Nothing is lost -/

namespace Lexeme

open Cut (Splits)

theorem run_append (p : Char → Bool) (cs : List Char) {a b : List Char}
    (h : some (Cut.run p cs) = some (a, b)) : a ++ b = cs := by
  cases h; exact List.takeWhile_append_dropWhile

theorem doc?_splits (cs : List Char) : Splits cs (doc? cs) := by
  unfold doc?
  split
  · split
    · exact .none _
    · exact .behind (by simp) fun _ _ h ↦ Cut.append_of_through h
  · split
    · exact .none _
    · exact .behind (by simp) fun _ _ h ↦ run_append _ _ h
  · exact .none _

theorem blockComment?_splits (cs : List Char) : Splits cs (blockComment? cs) := by
  unfold blockComment?
  split
  · exact .behind (by simp) fun _ _ h ↦ Cut.append_of_through h
  · exact .none _

theorem lineComment?_splits (cs : List Char) : Splits cs (lineComment? cs) := by
  unfold lineComment?
  split
  · exact .behind (by simp) fun _ _ h ↦ run_append _ _ h
  · exact .none _

theorem rawString?_splits (cs : List Char) : Splits cs (rawString? cs) := by
  unfold rawString?
  split
  · exact .behind (by simp) fun _ _ h ↦ Cut.append_of_through h
  · exact .behind (by simp) fun _ _ h ↦ Cut.append_of_through h
  · exact .behind (by simp) fun _ _ h ↦ Cut.append_of_through h
  · exact .none _

theorem stringRest?_splits (cs : List Char) : Splits cs (stringRest? cs) := by
  fun_induction stringRest? cs with
  | case1 => exact .none _
  | case2 => exact .some (by simp) (by simp)
  | case3 => exact .none _
  | case4 => exact .some (by simp) (by simp)
  | case5 d cs _ ih => exact .behind (by simp) fun a b h ↦ (ih a b h).1
  | case6 c d cs _ _ ih => exact .behind (by simp) fun a b h ↦ (ih a b h).1

theorem string?_splits (cs : List Char) : Splits cs (string? cs) := by
  unfold string?
  split
  · exact .behind (by simp) fun a b h ↦ (stringRest?_splits _ a b h).1
  · exact .none _

theorem charEscape?_splits (cs : List Char) : Splits cs (charEscape? cs) := by
  unfold charEscape?
  split
  · split
    · exact .some (by simp) (by simp)
    · exact .none _
  · next cs =>
    split
    · next rest hd =>
      split
      · refine .some ?_ (by simp)
        have := List.takeWhile_append_dropWhile (p := Text.isHexDigit) (l := cs)
        rw [hd] at this
        simpa using this
      · exact .none _
    · exact .none _
  · split
    · exact .some (by simp) (by simp)
    · exact .none _
  · exact .none _

theorem quote?_splits (cs : List Char) : Splits cs (quote? cs) := by
  unfold quote?
  split
  · exact .some (by simp) (by simp)
  · exact .none _

theorem character?_splits (cs : List Char) : Splits cs (character? cs) := by
  unfold character?
  split
  · next cs =>
    split
    · next e rest he =>
      have h := (charEscape?_splits cs e rest he).1
      rw [← h]
      exact .behind (f := '\'' :: '\\' :: e) (by simp) fun a b h ↦ (quote?_splits _ a b h).1
    · exact .none _
  · split
    · exact .none _
    · exact .behind (by simp) fun a b h ↦ (quote?_splits _ a b h).1
  · exact .none _

theorem name?_splits (cs : List Char) : Splits cs (name? cs) := by
  unfold name?
  split
  · split
    · exact .behind (by simp) fun _ _ h ↦ run_append _ _ h
    · exact .none _
  · exact .none _

theorem lifetime?_splits (cs : List Char) : Splits cs (lifetime? cs) := by
  unfold lifetime?
  split
  · exact .behind (by simp) fun a b h ↦ (name?_splits _ a b h).1
  · exact .none _

theorem ident?_splits (cs : List Char) : Splits cs (ident? cs) := by
  unfold ident?
  split
  · next cs =>
    intro a b h
    rcases Option.or_eq_some_iff.1 h with h | ⟨_, h⟩
    · exact Splits.behind (f := ['r', '#']) (by simp) (fun a b h ↦ (name?_splits cs a b h).1) a b h
    · exact name?_splits _ a b h
  · exact name?_splits _

theorem number?_splits (cs : List Char) : Splits cs (number? cs) := by
  unfold number?
  split
  · split
    · exact .behind (by simp) fun _ _ h ↦ run_append _ _ h
    · exact .none _
  · exact .none _

theorem blank?_splits (cs : List Char) : Splits cs (blank? cs) := by
  unfold blank?
  split
  · split
    · exact .behind (by simp) fun _ _ h ↦ run_append _ _ h
    · exact .none _
  · exact .none _

theorem single?_splits (p : Char → Bool) (cs : List Char) : Splits cs (single? p cs) := by
  unfold single?
  split
  · split
    · exact .some (by simp) (by simp)
    · exact .none _
  · exact .none _

end Lexeme

/-- Every class cuts off a nonempty start of the text. -/
theorem LexemeKind.cut?_splits (k : LexemeKind) (cs : List Char) : Cut.Splits cs (k.cut? cs) := by
  match k with
  | .trivia .blockComment => exact Lexeme.blockComment?_splits cs
  | .trivia .lineComment => exact Lexeme.lineComment?_splits cs
  | .trivia .blank => exact Lexeme.blank?_splits cs
  | .token (.leaf .doc) => exact Lexeme.doc?_splits cs
  | .token (.leaf (.literal .rawString)) => exact Lexeme.rawString?_splits cs
  | .token (.leaf (.literal .string)) => exact Lexeme.string?_splits cs
  | .token (.leaf (.literal .character)) => exact Lexeme.character?_splits cs
  | .token (.leaf (.literal .number)) => exact Lexeme.number?_splits cs
  | .token (.leaf .lifetime) => exact Lexeme.lifetime?_splits cs
  | .token (.leaf .ident) => exact Lexeme.ident?_splits cs
  | .token (.leaf .punct) => exact Lexeme.single?_splits _ cs
  | .token (.opener d) => exact Lexeme.single?_splits _ cs
  | .token (.closer d) => exact Lexeme.single?_splits _ cs

namespace Lexeme

/-- The lexeme that a text starts with, of the first class that fits. -/
def first? (cs : List Char) : Option (Lexeme × List Char) :=
  LexemeKind.order.findSome? fun k ↦ (k.cut? cs).map fun r ↦ (⟨k, r.1⟩, r.2)

theorem cut?_of_first? {cs rest : List Char} {l : Lexeme} (h : first? cs = some (l, rest)) :
    l.kind.cut? cs = some (l.text, rest) := by
  obtain ⟨k, _, hk⟩ := List.exists_of_findSome?_eq_some h
  obtain ⟨⟨a, b⟩, hx, hy⟩ := Option.map_eq_some_iff.1 hk
  cases hy
  exact hx

theorem append_of_first? {cs rest : List Char} {l : Lexeme} (h : first? cs = some (l, rest)) :
    l.text ++ rest = cs :=
  (LexemeKind.cut?_splits _ _ _ _ (cut?_of_first? h)).1

theorem text_ne_nil_of_first? {cs rest : List Char} {l : Lexeme}
    (h : first? cs = some (l, rest)) : l.text ≠ [] :=
  (LexemeKind.cut?_splits _ _ _ _ (cut?_of_first? h)).2

theorem length_of_first? {cs rest : List Char} {l : Lexeme} (h : first? cs = some (l, rest)) :
    rest.length < cs.length := by
  have h₁ := congrArg List.length (append_of_first? h)
  have h₂ := List.length_pos_iff.2 (text_ne_nil_of_first? h)
  simp only [List.length_append] at h₁
  omega

/-- The lexemes of a text, and the rest of it from the first character that starts none. -/
def split (cs : List Char) : List Lexeme × List Char :=
  match _h : first? cs with
  | none => ([], cs)
  | some (l, rest) =>
    let r := split rest
    (l :: r.1, r.2)
termination_by cs.length
decreasing_by exact length_of_first? _h

/-- The lexemes and the rest are the text. -/
theorem flatMap_split (cs : List Char) : (split cs).1.flatMap Lexeme.text ++ (split cs).2 = cs := by
  fun_induction split cs with
  | case1 => rfl
  | case2 cs l rest h r ih =>
    rw [List.flatMap_cons, List.append_assoc, ih, append_of_first? h]

end Lexeme

end ErrorDerive
