/-!
# Hexadecimal digits
-/

namespace ErrorDerive.Text

/-- The value of a hexadecimal digit of either case. -/
def hexValue? (c : Char) : Option Nat :=
  let n := c.toNat
  if 0x30 ≤ n ∧ n ≤ 0x39 then some (n - 0x30)
  else if 0x61 ≤ n ∧ n ≤ 0x66 then some (n - 0x57)
  else if 0x41 ≤ n ∧ n ≤ 0x46 then some (n - 0x37)
  else none

def isHexDigit (c : Char) : Bool := (hexValue? c).isSome

/-- The value of a run of hexadecimal digits. -/
def ofHex (cs : List Char) : Nat :=
  cs.foldl (fun n c ↦ 16 * n + (hexValue? c).getD 0) 0

/-- The lower-case hexadecimal digits of a number, with zeros in front up to a least width. -/
def hex (width n : Nat) : List Char :=
  let ds := Nat.toDigits 16 n
  List.replicate (width - ds.length) '0' ++ ds

end ErrorDerive.Text
