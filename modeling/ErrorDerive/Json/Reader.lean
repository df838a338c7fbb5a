import ErrorDerive.Json.Basic
import ErrorDerive.Source.Place
import ErrorDerive.Text.Digit

/-!
# Reading JSON

A reader that also takes the special numbers of floating point, lets the last of repeated keys win,
and says where and why it stops.  White space is space, tab, newline and carriage return.  Every
value takes at least one character, so what is left is shorter (`Rest`), and reading ends.
-/

namespace ErrorDerive.Json

/-- What a text that is no JSON is reported for. -/
inductive Complaint
  | byteOrderMark
  | value
  | propertyName
  | colon
  | comma
  | extraData
  | unterminated
  | controlCharacter
  | badEscape
  | badUnit
deriving DecidableEq, Repr

def Complaint.message : Complaint → String
  | .byteOrderMark => "Unexpected UTF-8 BOM (decode using utf-8-sig)"
  | .value => "Expecting value"
  | .propertyName => "Expecting property name enclosed in double quotes"
  | .colon => "Expecting ':' delimiter"
  | .comma => "Expecting ',' delimiter"
  | .extraData => "Extra data"
  | .unterminated => "Unterminated string starting at"
  | .controlCharacter => "Invalid control character at"
  | .badEscape => "Invalid \\escape"
  | .badUnit => "Invalid \\uXXXX escape"

/-- Why reading stops: a complaint about the text from some point on, or an integer with too many
digits. -/
inductive Stop
  | complaint (what : Complaint) (rest : List Char)
  | limit (l : Text.DigitLimit)

/-- Why a whole text is refused. -/
inductive Fault
  | syntaxError (what : Complaint) (place : Place)
  | limit (l : Text.DigitLimit)
deriving DecidableEq, Repr

def Fault.message : Fault → String
  | .syntaxError what p =>
    what.message ++ ": line " ++ toString p.line ++ " column " ++ toString p.column ++ " (char "
      ++ toString p.offset ++ ")"
  | .limit l => l.message

/-- The fault of a stop within a text. -/
def Stop.fault (text : List Char) : Stop → Fault
  | .complaint what rest =>
    .syntaxError what (Place.origin.after (text.take (text.length - rest.length)))
  | .limit l => .limit l

def isSpace (c : Char) : Bool := c == ' ' || c == '\t' || c == '\n' || c == '\r'

def skipSpace (cs : List Char) : List Char := cs.dropWhile isSpace

theorem length_skipSpace_le (cs : List Char) : (skipSpace cs).length ≤ cs.length :=
  (List.dropWhile_suffix isSpace).length_le

/-- What is left of a text when something was read. -/
abbrev Rest (cs : List Char) := { rest : List Char // rest.length < cs.length }

/-- Something read from the front of a text, and what is left of it. -/
abbrev Read (cs : List Char) (α : Type) := Except Stop (α × Rest cs)

/-- What is left of a longer text. -/
def Rest.widen {cs ds : List Char} (h : cs.length ≤ ds.length) (r : Rest cs) : Rest ds :=
  ⟨r.val, Nat.lt_of_lt_of_le r.property h⟩

/-- Reads from a shorter text on behalf of a longer one. -/
def Read.within {α β : Type} {cs ds : List Char} (h : cs.length ≤ ds.length) (f : α → β)
    (r : Read cs α) : Read ds β :=
  r.map fun x ↦ (f x.1, x.2.widen h)

/-! ## Strings -/

def simpleEscape? : Char → Option Char
  | '"' => some '"'
  | '\\' => some '\\'
  | '/' => some '/'
  | 'b' => some '\x08'
  | 'f' => some '\x0c'
  | 'n' => some '\n'
  | 'r' => some '\r'
  | 't' => some '\t'
  | _ => none

/-- Four hexadecimal digits that something follows. -/
def unit? (cs : List Char) : Option Nat :=
  let ds := cs.take 4
  if ds.all Text.isHexDigit && !(cs.drop 4).isEmpty then some (Text.ofHex ds) else none

/-- The second half of a surrogate pair, written as an escape that something follows. -/
def lowUnit? : List Char → Option Nat
  | '\\' :: 'u' :: cs => (unit? cs).filter fun n ↦ 0xDC00 ≤ n && n ≤ 0xDFFF
  | _ => none

/-- The code point of a unit and how much of the text behind its digits belongs to it: the second
half of a pair goes with the first, and half of a pair may stand alone. -/
def ofUnit (n : Nat) (rest : List Char) : Text.Point × Nat :=
  if h : 0xD800 ≤ n ∧ n < 0xE000 then
    match if n < 0xDC00 then lowUnit? rest else none with
    | some m => (.char (Char.ofNat (0x10000 + (n - 0xD800) * 0x400 + (m - 0xDC00))), 6)
    | none => (.half ⟨n - 0xD800, by omega⟩, 0)
  else (.char (Char.ofNat n), 0)

theorem length_drop_lt (c e : Char) (ds : List Char) (m n : Nat) :
    ((ds.drop m).drop n).length < (c :: e :: ds).length := by
  simp only [List.length_drop, List.length_cons]
  omega

/-- Reads a string from behind its opening quote, at which an unterminated one is reported. -/
def stringRest (opening : List Char) (cs : List Char) : Read cs (List Text.Point) :=
  match cs with
  | [] => .error (.complaint .unterminated opening)
  | c :: cs =>
    if c = '"' then .ok ([], ⟨cs, Nat.lt_succ_self _⟩)
    else if c = '\\' then
      match cs with
      | [] => .error (.complaint .unterminated opening)
      | e :: ds =>
        if e = 'u' then
          match unit? ds with
          | none => .error (.complaint .badUnit (e :: ds))
          | some n =>
            let r := ofUnit n (ds.drop 4)
            (stringRest opening ((ds.drop 4).drop r.2)).within
              (Nat.le_of_lt (length_drop_lt c e ds 4 r.2)) (r.1 :: ·)
        else
          match simpleEscape? e with
          | none => .error (.complaint .badEscape (c :: e :: ds))
          | some d =>
            (stringRest opening ds).within (Nat.le_of_lt (length_drop_lt c e ds 0 0)) (.char d :: ·)
    else if c.toNat < 0x20 then .error (.complaint .controlCharacter (c :: cs))
    else (stringRest opening cs).within (Nat.le_succ _) (.char c :: ·)
termination_by cs.length
decreasing_by
  · exact length_drop_lt c e ds 4 _
  · exact length_drop_lt c e ds 0 0
  · exact Nat.lt_succ_self _

/-- Reads a string from behind its opening quote. -/
def readString (cs : List Char) : Read cs Text.Loose :=
  (stringRest ('"' :: cs) cs).map fun x ↦ (⟨x.1⟩, x.2)

/-! ## Numbers -/

/-- A run of digits that is not empty. -/
def digits? (cs : List Char) : Option (List Char × Rest cs) :=
  match cs with
  | [] => none
  | c :: cs =>
    if c.isDigit then
      some (c :: cs.takeWhile Char.isDigit,
        ⟨cs.dropWhile Char.isDigit,
          Nat.lt_succ_of_le (List.dropWhile_suffix Char.isDigit).length_le⟩)
    else none

/-- The digits behind a decimal point, if a point and a digit come next. -/
def fraction? (cs : List Char) : Option (List Char × Rest cs) :=
  match cs with
  | '.' :: cs => (digits? cs).map fun x ↦ (x.1, x.2.widen (by simp))
  | _ => none

/-- The exponent behind its sign. -/
def exponentDigits? (negative : Bool) (cs : List Char) : Option (Int × Rest cs) :=
  (digits? cs).map fun x ↦
    let n : Int := Text.ofDigits x.1
    (if negative then -n else n, x.2)

/-- The exponent, if one comes next. -/
def exponent? (cs : List Char) : Option (Int × Rest cs) :=
  match cs with
  | c :: cs =>
    if c = 'e' ∨ c = 'E' then
      match cs with
      | '-' :: cs => (exponentDigits? true cs).map fun x ↦ (x.1, x.2.widen (by simp; omega))
      | '+' :: cs => (exponentDigits? false cs).map fun x ↦ (x.1, x.2.widen (by simp; omega))
      | cs => (exponentDigits? false cs).map fun x ↦ (x.1, x.2.widen (by simp))
    else none
  | [] => none

/-- The digits of an integer part: a zero, or digits that do not start with one. -/
def integerPart? (cs : List Char) : Option (List Char × Rest cs) :=
  match cs with
  | '0' :: cs => some (['0'], ⟨cs, by simp⟩)
  | cs => digits? cs

/-- Reads a part that may be missing. -/
def optionally {α : Type} {cs : List Char} (rest : Rest cs) :
    Option (α × Rest rest.val) → Option α × Rest cs
  | some x => (some x.1, x.2.widen (Nat.le_of_lt rest.property))
  | none => (none, rest)

/-- A number from its parts; only an integer is bounded in its digits. -/
def numberOf (negative : Bool) (whole : List Char) (frac : Option (List Char))
    (exp : Option Int) : Except Text.DigitLimit JsonNumber :=
  match frac, exp with
  | none, none =>
    (Text.readNumeral whole).map fun n ↦ .int (if negative then -(n : Int) else n)
  | _, _ =>
    let ds := frac.getD []
    .ok (.decimal negative (Text.ofDigits (whole ++ ds)) (exp.getD 0 - ds.length))

/-- Reads a number behind its sign; `start` is where the lack of one is reported. -/
def unsigned (start : List Char) (negative : Bool) (cs : List Char) : Read cs JsonNumber :=
  match integerPart? cs with
  | none => .error (.complaint .value start)
  | some (whole, rest) =>
    let (frac, rest) := optionally rest (fraction? rest.val)
    let (exp, rest) := optionally rest (exponent? rest.val)
    match numberOf negative whole frac exp with
    | .ok n => .ok (n, rest)
    | .error l => .error (.limit l)

def readNumber (cs : List Char) : Read cs JsonNumber :=
  match cs with
  | '-' :: ds => (unsigned ('-' :: ds) true ds).within (by simp) id
  | cs => unsigned cs false cs

/-! ## Values -/

/-- The values that are words. -/
def words : List (List Char × Json) :=
  [("null".toList, .null), ("true".toList, .bool true), ("false".toList, .bool false),
    ("NaN".toList, .number .notANumber), ("Infinity".toList, .number (.infinity false)),
    ("-Infinity".toList, .number (.infinity true))]

/-- What is left behind a word. -/
def behindWord? (word cs : List Char) : Option (Rest cs) :=
  if h : word ≠ [] ∧ word.isPrefixOf cs then
    some ⟨cs.drop word.length, by
      have h₁ := List.length_pos_iff.2 h.1
      have h₂ := (List.isPrefixOf_iff_prefix.1 h.2).length_le
      simp only [List.length_drop]; omega⟩
  else none

/-- A value that is a word, if one comes next. -/
def word? (cs : List Char) : Option (Json × Rest cs) :=
  words.findSome? fun w ↦ (behindWord? w.1 cs).map fun r ↦ (w.2, r)

/-- Reads a value without parts: a string, a word or a number. -/
def readScalar (cs : List Char) : Read cs Json :=
  match cs with
  | '"' :: ds => (readString ds).within (by simp) .string
  | cs =>
    match word? cs with
    | some r => .ok r
    | none => (readNumber cs).map fun x ↦ (.number x.1, x.2)

/-- Reads the key of a member and the colon behind it. -/
def readKey (cs : List Char) : Read cs Text.Loose :=
  match cs with
  | '"' :: ds =>
    match readString ds with
    | .error e => .error e
    | .ok (key, rest) =>
      match h : skipSpace rest.val with
      | ':' :: es =>
        .ok (key, ⟨es, by
          have h₁ := length_skipSpace_le rest.val
          have h₂ := rest.property
          simp only [h, List.length_cons] at h₁ ⊢; omega⟩)
      | es => .error (.complaint .colon es)
  | _ => .error (.complaint .propertyName cs)

/-- What follows an item: its last one is followed by the closing mark, any other by a comma. -/
inductive After (cs : List Char)
  | last (rest : Rest cs)
  | more (rest : Rest cs)
  | neither (rest : List Char)

/-- Reads what follows an item. -/
def readAfter (close : Char) (cs : List Char) : After cs :=
  match h : skipSpace cs with
  | [] => .neither []
  | c :: ds =>
    have hd : ds.length < cs.length := by
      have h' := length_skipSpace_le cs
      simp only [h, List.length_cons] at h'; omega
    if c = close then .last ⟨ds, hd⟩
    else if c = ',' then
      .more ⟨skipSpace ds, Nat.lt_of_le_of_lt (length_skipSpace_le ds) hd⟩
    else .neither (c :: ds)

mutual

/-- Reads a value that starts right here. -/
def readValue (cs : List Char) : Read cs Json :=
  match cs with
  | '{' :: ds =>
    match h : skipSpace ds with
    | '}' :: es =>
      .ok (.object [], ⟨es, by
        have h' := length_skipSpace_le ds
        simp only [h, List.length_cons] at h' ⊢; omega⟩)
    | es =>
      (readMembers es).within
        (by have h' := length_skipSpace_le ds; simp only [h, List.length_cons] at h' ⊢; omega)
        fun fs ↦ .object (Keyed.ofPairs fs)
  | '[' :: ds =>
    match h : skipSpace ds with
    | ']' :: es =>
      .ok (.array [], ⟨es, by
        have h' := length_skipSpace_le ds
        simp only [h, List.length_cons] at h' ⊢; omega⟩)
    | es =>
      (readItems es).within
        (by have h' := length_skipSpace_le ds; simp only [h, List.length_cons] at h' ⊢; omega)
        .array
  | cs => readScalar cs
termination_by (cs.length, 0)
decreasing_by
  all_goals
    have h' := length_skipSpace_le ds
    simp only [h] at h'
    apply Prod.Lex.left
    simp only [List.length_cons]; omega

/-- Reads items up to the closing bracket. -/
def readItems (cs : List Char) : Read cs (List Json) :=
  match readValue cs with
  | .error e => .error e
  | .ok (x, rest) =>
    match readAfter ']' rest.val with
    | .last r => .ok ([x], r.widen (Nat.le_of_lt rest.property))
    | .more r =>
      (readItems r.val).within (Nat.le_of_lt (Nat.lt_trans r.property rest.property)) (x :: ·)
    | .neither es => .error (.complaint .comma es)
termination_by (cs.length, 1)
decreasing_by
  · exact Prod.Lex.right _ (by omega)
  · exact Prod.Lex.left _ _ (Nat.lt_trans r.property rest.property)

/-- Reads members up to the closing brace. -/
def readMembers (cs : List Char) : Read cs (List (Text.Loose × Json)) :=
  match readKey cs with
  | .error e => .error e
  | .ok (key, behind) =>
    match readValue (skipSpace behind.val) with
    | .error e => .error e
    | .ok (x, rest) =>
      have hr : rest.val.length < cs.length :=
        Nat.lt_of_lt_of_le rest.property
          (Nat.le_trans (length_skipSpace_le _) (Nat.le_of_lt behind.property))
      match readAfter '}' rest.val with
      | .last r => .ok ([(key, x)], r.widen (Nat.le_of_lt hr))
      | .more r =>
        (readMembers r.val).within (Nat.le_of_lt (Nat.lt_trans r.property hr)) ((key, x) :: ·)
      | .neither es => .error (.complaint .comma es)
termination_by (cs.length, 0)
decreasing_by
  · exact Prod.Lex.left _ _ (Nat.lt_of_le_of_lt (length_skipSpace_le _) behind.property)
  · exact Prod.Lex.left _ _ (Nat.lt_trans r.property hr)

end

/-- Reads a whole text as one value. -/
def document (cs : List Char) : Except Stop Json :=
  match cs with
  | '\ufeff' :: _ => .error (.complaint .byteOrderMark cs)
  | _ =>
    match readValue (skipSpace cs) with
    | .error e => .error e
    | .ok (x, rest) =>
      match skipSpace rest.val with
      | [] => .ok x
      | es => .error (.complaint .extraData es)

/-- The value of a text. -/
def parse (text : String) : Except Fault Json :=
  (document text.toList).mapError (Stop.fault text.toList)

end ErrorDerive.Json
