import ErrorDerive.Text.Hex

/-!
# Strict UTF-8

Decoding stops at the first octets that begin no character: the longest start of a character found
there is the offending part, and its place and the reason are reported.
-/

namespace ErrorDerive.Text.Utf8

/-- Why octets are no character. -/
inductive Reason
  | invalidStart
  | invalidContinuation
  | truncated
deriving DecidableEq, Repr

def Reason.message : Reason → String
  | .invalidStart => "invalid start byte"
  | .invalidContinuation => "invalid continuation byte"
  | .truncated => "unexpected end of data"

/-- The offending octets lie at `start ≤ i < start + size`; `first` is the first of them. -/
structure Fault where
  first : UInt8
  start : Nat
  size : Nat
  reason : Reason
deriving DecidableEq, Repr

def Fault.message (f : Fault) : String :=
  let place :=
    if f.size ≤ 1 then
      "byte 0x" ++ String.ofList (hex 2 f.first.toNat) ++ " in position " ++ toString f.start
    else
      "bytes in position " ++ toString f.start ++ "-" ++ toString (f.start + f.size - 1)
  "'utf-8' codec can't decode " ++ place ++ ": " ++ f.reason.message

/-- The octets that may follow, each as a closed range. -/
abbrev Follow := List (UInt8 × UInt8)

/-- Any continuation octet. -/
def anyTail : UInt8 × UInt8 := (0x80, 0xBF)

/-- What the first octet of a character says: its share of the code point and what may follow. -/
def lead? (b : UInt8) : Option (Nat × Follow) :=
  if b < 0x80 then some (b.toNat, [])
  else if b < 0xC2 then none
  else if b < 0xE0 then some (b.toNat % 32, [anyTail])
  else if b = 0xE0 then some (0, [(0xA0, 0xBF), anyTail])
  else if b = 0xED then some (13, [(0x80, 0x9F), anyTail])
  else if b < 0xF0 then some (b.toNat % 16, [anyTail, anyTail])
  else if b = 0xF0 then some (0, [(0x90, 0xBF), anyTail, anyTail])
  else if b < 0xF4 then some (b.toNat % 8, [anyTail, anyTail, anyTail])
  else if b = 0xF4 then some (4, [(0x80, 0x8F), anyTail, anyTail])
  else none

/-- Reads the octets after the first: the code point, or how many were in order and what was wrong
with the next. -/
def follow (value : Nat) : Follow → List UInt8 → Except (Nat × Reason) Nat
  | [], _ => .ok value
  | _ :: _, [] => .error (0, .truncated)
  | (lo, hi) :: rs, b :: bs =>
    if lo ≤ b ∧ b ≤ hi then
      (follow (64 * value + b.toNat % 64) rs bs).mapError fun e ↦ (e.1 + 1, e.2)
    else .error (0, .invalidContinuation)

/-- Decodes octets that stand at offset `pos`. -/
def decodeFrom (pos : Nat) : List UInt8 → Except Fault (List Char)
  | [] => .ok []
  | b :: bs =>
    match lead? b with
    | none => .error ⟨b, pos, 1, .invalidStart⟩
    | some (value, tail) =>
      match follow value tail bs with
      | .error (n, reason) => .error ⟨b, pos, n + 1, reason⟩
      | .ok code =>
        (decodeFrom (pos + tail.length + 1) (bs.drop tail.length)).map (Char.ofNat code :: ·)
termination_by bs => bs.length
decreasing_by simp only [List.length_drop, List.length_cons]; omega

/-- Decodes a whole text. -/
def decode (bs : List UInt8) : Except Fault String :=
  (decodeFrom 0 bs).map String.ofList

end ErrorDerive.Text.Utf8
