import ErrorDerive.Proofs.Parsing.Lookahead
import ErrorDerive.Proofs.Printing.Steps

/-!
# Runs of trees that are types

Reading a type takes the trees up to the end or to a comma outside angle brackets, and succeeds if
the brackets in that run are balanced.  Here this is said of the run itself, by the depth of its
prefixes (`Tree.IsFieldType`); `Parse.reaches_fieldType_iff` says that a type is read exactly from
such a run.
-/

namespace ErrorDerive

namespace Tree

/-- How a tree changes the depth of angle brackets, given the tree before it.  A `>` right behind a
joint `-` is the head of an arrow and does not count. -/
def angleChange (before : Option Tree) (t : Tree) : Int :=
  if t.isMark "<" then 1
  else if t.isMark ">" && !before.any (·.isJointMark "-") then -1
  else 0

/-- How many angle brackets a run opens and does not close. -/
def angleDepth (before : Option Tree) : List Tree → Int
  | [] => 0
  | t :: ts => angleChange before t + angleDepth (some t) ts

/-- A run of trees that is a type, with its text and its place: angle brackets are balanced, and
each comma is inside of some. -/
structure IsFieldType (run : List Tree) (type : FieldType) : Prop where
  nonempty : run ≠ []
  balanced : angleDepth none run = 0
  nonneg : ∀ us, us <+: run → 0 ≤ angleDepth none us
  commas : ∀ us t, us ++ [t] <+: run → t.isMark "," = true → 0 < angleDepth none us
  text : type.text = renderAll none none run
  extent : ∃ first ∈ run.head?, ∃ last ∈ run.getLast?,
    type.extent = first.extent.join last.extent

/-- A run that goes on from some depth behind a tree, closes nothing that was not open, and has
its commas inside of brackets. -/
structure Inside (depth : Nat) (before : Option Tree) (run : List Tree) : Prop where
  nonneg : ∀ us, us <+: run → 0 ≤ depth + angleDepth before us
  commas : ∀ us t, us ++ [t] <+: run → t.isMark "," = true → 0 < depth + angleDepth before us

variable {depth d : Nat} {before : Option Tree} {arrow : Bool} {t : Tree} {run rest ts : List Tree}

theorem inside_nil : Inside depth before [] := by
  refine ⟨fun us hu ↦ ?_, fun us t hu ↦ ?_⟩
  · rw [List.prefix_nil.1 hu, angleDepth]
    omega
  · simp at hu

/-- A run is inside exactly if its first tree is, and the others are inside of what that leaves
open. -/
theorem inside_cons :
    Inside depth before (t :: ts) ↔ (t.isMark "," = true → 0 < depth) ∧
      ∃ d : Nat, (d : Int) = depth + angleChange before t ∧ Inside d (some t) ts := by
  constructor
  · rintro ⟨hn, hc⟩
    have hd : 0 ≤ depth + angleChange before t := by
      simpa [angleDepth] using hn [t] (by simp)
    obtain ⟨d, hd⟩ := Int.eq_ofNat_of_zero_le hd
    refine ⟨fun ht ↦ by simpa [angleDepth] using hc [] t (by simp) ht, d, hd.symm, ?_, ?_⟩
    · intro us hu
      have := hn (t :: us) (by simpa using hu)
      rw [angleDepth] at this
      omega
    · intro us u hu hm
      have := hc (t :: us) u (by simpa using hu) hm
      rw [angleDepth] at this
      omega
  · rintro ⟨ht, d, hd, hn, hc⟩
    constructor
    · intro us hu
      cases us with
      | nil => simp [angleDepth]
      | cons u us =>
        obtain ⟨rfl, hp⟩ := List.cons_prefix_cons.1 hu
        have := hn us hp
        rw [angleDepth]
        omega
    · intro us u hu hm
      cases us with
      | nil =>
        obtain ⟨rfl, -⟩ := List.cons_prefix_cons.1 hu
        simpa [angleDepth] using ht hm
      | cons v us =>
        obtain ⟨rfl, hp⟩ := List.cons_prefix_cons.1 hu
        have := hc us u hp hm
        rw [angleDepth]
        omega

end Tree

namespace AngleRun

open ErrorDerive.Tree (angleChange angleDepth Inside inside_nil inside_cons)

variable {depth d : Nat} {before : Option Tree} {arrow : Bool} {t : Tree} {run rest ts : List Tree}

/-- One step follows the change of the depth, as long as something is open. -/
theorem step_eq_some_iff (ha : arrow = before.any (·.isJointMark "-")) :
    step depth arrow t = some d ↔ (d : Int) = depth + angleChange before t := by
  unfold step angleChange
  rw [ha]
  split
  · simp
    omega
  · split
    · cases depth with
      | zero => simp
      | succ e =>
        simp
        omega
    · simp
      omega

/-- A run is inside of the brackets that are open before it. -/
theorem inside_run (hd : (ofTrees depth arrow ts).depth = some d) :
    ∀ before : Option Tree, arrow = before.any (·.isJointMark "-") →
      Inside depth before (ofTrees depth arrow ts).run ∧
        (d : Int) = depth + angleDepth before (ofTrees depth arrow ts).run := by
  fun_induction ofTrees depth arrow ts with
  | case1 depth arrow =>
    cases hd
    exact fun _ _ ↦ ⟨inside_nil, by simp [angleDepth]⟩
  | case2 depth arrow t ts h =>
    cases hd
    exact fun _ _ ↦ ⟨inside_nil, by simp [angleDepth]⟩
  | case3 => cases hd
  | case4 depth arrow t ts h e he r ih =>
    intro before ha
    have he := (step_eq_some_iff ha).1 he
    obtain ⟨hi, hd⟩ := ih hd (some t) rfl
    refine ⟨inside_cons.2 ⟨fun hm ↦ ?_, e, he, hi⟩, ?_⟩
    · rw [hm, Bool.true_and, beq_iff_eq] at h
      exact Nat.pos_of_ne_zero h
    · have hd : (d : Int) = e + angleDepth (some t) r.run := hd
      rw [angleDepth]
      omega

/-- A run that is inside and closes all brackets is read up to a comma behind it. -/
theorem ofTrees_of_inside (ha : arrow = before.any (·.isJointMark "-"))
    (hi : Inside depth before run) (hd : depth + angleDepth before run = 0)
    (hr : ∀ t ∈ rest.head?, t.isMark "," = true) :
    ofTrees depth arrow (run ++ rest) = ⟨run, rest, some 0⟩ := by
  induction run generalizing depth before arrow with
  | nil =>
    obtain rfl : depth = 0 := by simpa [angleDepth] using hd
    cases rest with
    | nil => rfl
    | cons t rest => simp [ofTrees, hr t rfl]
  | cons t run ih =>
    obtain ⟨ht, e, he, hi⟩ := inside_cons.1 hi
    have hn : ¬(t.isMark "," && depth == 0) = true := by
      intro h
      obtain ⟨hm, h0⟩ := Bool.and_eq_true_iff.1 h
      have := ht hm
      rw [beq_iff_eq] at h0
      omega
    rw [angleDepth] at hd
    have hrun := @ih e (some t) (t.isJointMark "-") rfl hi (by omega)
    rw [List.cons_append, ofTrees, if_neg hn, (step_eq_some_iff ha).2 he]
    simp only [hrun]

end AngleRun

namespace Parse

open ErrorDerive.Tree (IsFieldType Inside)

variable {c d : Cursor} {run rest us : List Tree} {type : FieldType}

/-- The type of a run that closes its brackets is its text at its place. -/
theorem typeOfRun_eq_ok_iff :
    typeOfRun ⟨run, us, some 0⟩ c = (.ok type, d) ↔ (run ≠ [] ∧
      type.text = Tree.renderAll none none run ∧ ∃ first ∈ run.head?, ∃ last ∈ run.getLast?,
        type.extent = first.extent.join last.extent) ∧ c = d := by
  cases run with
  | nil => simp [typeOfRun, unexpected]
  | cons t ts =>
    obtain ⟨text, extent⟩ := type
    simp [typeOfRun, List.getLast?_eq_some_getLast, eq_comm]

/-- A type is read exactly from a run that is one, up to the end or to a comma behind it. -/
theorem reaches_fieldType_iff :
    Reaches fieldType c (· = type) rest ↔
      ∃ run, c.rest = run ++ rest ∧ IsFieldType run type ∧
        ∀ t ∈ rest.head?, t.isMark "," = true := by
  constructor
  · rintro ⟨_, d, h, rfl, rfl⟩
    obtain ⟨hd, hr⟩ := fieldType_eq_ok h
    have hc := AngleRun.run_append_rest 0 false c.rest
    have hm := AngleRun.isMark_of_mem_rest hd
    obtain ⟨hi, hz⟩ := AngleRun.inside_run hd none rfl
    rw [fieldType] at h
    generalize AngleRun.ofTrees 0 false c.rest = r at *
    obtain ⟨run, us, depth⟩ := r
    obtain rfl : depth = some 0 := hd
    obtain ⟨⟨hn, ht, he⟩, -⟩ := typeOfRun_eq_ok_iff.1 h
    obtain rfl : us = d.rest := hr
    exact ⟨run, hc.symm, ⟨hn, by simpa using hz.symm, fun us hu ↦ by simpa using hi.nonneg us hu,
      fun us t hu ht ↦ by simpa using hi.commas us t hu ht, ht, he⟩, hm⟩
  · rintro ⟨run, hc, ht, hr⟩
    have hi : Inside 0 none run := ⟨fun us hu ↦ by simpa using ht.nonneg us hu,
      fun us t hu hm ↦ by simpa using ht.commas us t hu hm⟩
    have hx : AngleRun.ofTrees 0 false (run ++ rest) = ⟨run, rest, some 0⟩ :=
      AngleRun.ofTrees_of_inside rfl hi (by simp [ht.balanced]) hr
    refine ⟨type, c.skip run.length, ?_, rfl, by simp [Cursor.skip, hc]⟩
    rw [fieldType, hc, hx]
    exact typeOfRun_eq_ok_iff.2 ⟨⟨ht.nonempty, ht.text, ht.extent⟩, rfl⟩

end Parse

end ErrorDerive
