/-!
# Character classes given by ranges of code points

A class of characters is a list of closed ranges in increasing order.  The tables of the classes
stand in the modules named for them.
-/

namespace ErrorDerive.Text

/-- A class of characters, as closed ranges of code points. -/
abbrev Ranges := List (Nat × Nat)

namespace Ranges

/-- Whether a code point lies in one of the ranges. -/
def has (rs : Ranges) (c : Char) : Bool :=
  rs.any fun r ↦ decide (r.1 ≤ c.toNat) && decide (c.toNat ≤ r.2)

theorem has_eq_true_iff {rs : Ranges} {c : Char} :
    rs.has c = true ↔ ∃ r ∈ rs, r.1 ≤ c.toNat ∧ c.toNat ≤ r.2 := by
  simp [has]

end Ranges

end ErrorDerive.Text
