import ErrorDerive.Cursor.Basic
import ErrorDerive.Proofs.Outline
import ErrorDerive.Proofs.Parsing.Steps
import Mathlib.Data.List.Forall2

/-!
# Two runs of a step

Trees are alike if they have the same outlines, so that they differ in their places only.  Two runs
of a step over like trees agree (`Parse.Agree`) if both succeed, with related results and like trees
left, or both fail for the same cause.  Agreement goes through sequencing and loops, so whatever is
put together from steps that agree agrees too.
-/

namespace ErrorDerive

/-! ## Trees and cursors -/

namespace Tree

/-- Rows of trees that differ in their places only. -/
def Alike (ts ts' : List Tree) : Prop := outlines none ts = outlines none ts'

variable {t t' : Tree} {ts ts' : List Tree} {p q : Option Nat}

/-- Trees with one outline are alike. -/
theorem alike_of_outlines (h : outlines p ts = outlines q ts') : Alike ts ts' := by
  cases ts with
  | nil =>
    cases ts' with
    | nil => rfl
    | cons t' ts' => simp at h
  | cons t ts =>
    cases ts' with
    | nil => simp at h
    | cons t' ts' =>
      rw [outlines_cons, outlines_cons] at h
      obtain ⟨h, hs⟩ := List.cons.inj h
      rw [Alike, outlines_cons, outlines_cons, hs]
      cases t with
      | leaf e l =>
        cases t' with
        | leaf e' l' => simp_all
        | group e' d' us' c' => simp at h
      | group e d us c =>
        cases t' with
        | leaf e' l' => simp at h
        | group e' d' us' c' => simp_all

theorem Alike.tail (h : Alike (t :: ts) (t' :: ts')) : Alike ts ts' := by
  rw [Alike, outlines_cons, outlines_cons] at h
  exact alike_of_outlines (List.cons.inj h).2

theorem outlines_take (n : Nat) : outlines p (ts.take n) = (outlines p ts).take n := by
  induction ts generalizing n p with
  | nil => simp
  | cons t ts ih =>
    cases n with
    | zero => simp
    | succ n => simp [ih]

theorem Alike.take (h : Alike ts ts') (n : Nat) : Alike (ts.take n) (ts'.take n) := by
  rw [Alike, outlines_take, outlines_take, h]

theorem Alike.drop (h : Alike ts ts') (n : Nat) : Alike (ts.drop n) (ts'.drop n) := by
  induction n generalizing ts ts' with
  | zero => exact h
  | succ n ih =>
    cases ts with
    | nil =>
      cases ts' with
      | nil => rfl
      | cons t' ts' => simp [Alike] at h
    | cons t ts =>
      cases ts' with
      | nil => simp [Alike] at h
      | cons t' ts' => exact ih h.tail

/-- Like trees are the same leaf, or groups with the same brackets and like trees in them. -/
inductive Match : Tree → Tree → Prop
  | leaf (e e' : Extent) (l : Leaf) : Match (.leaf e l) (.leaf e' l)
  | group (e e' c c' : Extent) (d : Delimiter) {ts ts' : List Tree} (h : Alike ts ts') :
      Match (.group e d ts c) (.group e' d ts' c')

theorem Alike.match (h : Alike (t :: ts) (t' :: ts')) : Match t t' := by
  rw [Alike, outlines_cons, outlines_cons] at h
  obtain ⟨h, -⟩ := List.cons.inj h
  cases t with
  | leaf e l =>
    cases t' with
    | leaf e' l' =>
      obtain rfl : l = l' := by simpa using h
      exact .leaf e e' l
    | group e' d' us' c' => simp at h
  | group e d us c =>
    cases t' with
    | leaf e' l' => simp at h
    | group e' d' us' c' =>
      simp only [outline_group, isBehind_none, Outline.group.injEq] at h
      obtain ⟨-, rfl, hu, -⟩ := h
      exact .group e e' c c' d (alike_of_outlines hu)

theorem Match.describe (h : Match t t') : t.describe = t'.describe := by
  cases h <;> rfl

theorem Match.isMark (h : Match t t') (mark : String) : t.isMark mark = t'.isMark mark := by
  cases h with
  | leaf e e' l => cases l <;> rfl
  | group => rfl

theorem Match.isJointMark (h : Match t t') (mark : String) :
    t.isJointMark mark = t'.isJointMark mark := by
  cases h with
  | leaf e e' l => cases l <;> rfl
  | group => rfl

/-- Rows of like trees are both at their end, or both go on with like trees. -/
theorem Alike.cases (h : Alike ts ts') :
    (ts = [] ∧ ts' = []) ∨
      ∃ t us t' us', ts = t :: us ∧ ts' = t' :: us' ∧ Match t t' ∧ Alike us us' := by
  cases ts with
  | nil =>
    cases ts' with
    | nil => exact .inl ⟨rfl, rfl⟩
    | cons t' us' => simp [Alike] at h
  | cons t us =>
    cases ts' with
    | nil => simp [Alike] at h
    | cons t' us' => exact .inr ⟨t, us, t', us', rfl, rfl, h.match, h.tail⟩

end Tree

/-- Cursors before like trees. -/
def Cursor.Alike (c c' : Cursor) : Prop := Tree.Alike c.rest c'.rest

theorem Cursor.Alike.skip {c c' : Cursor} (h : c.Alike c') (n : Nat) :
    (c.skip n).Alike (c'.skip n) := Tree.Alike.drop h n

/-- Groups that differ in their places only. -/
structure Group.Alike (g g' : Group) : Prop where
  delimiter : g.delimiter = g'.delimiter
  trees : Tree.Alike g.trees g'.trees

/-! ## Outcomes -/

/-- Refusals that differ in their places only. -/
inductive Refusal.Alike : Refusal → Refusal → Prop
  | at (span span' : Span) (cause : Cause) : Alike (.at span cause) (.at span' cause)
  | limit (l : Text.DigitLimit) : Alike (.limit l) (.limit l)

variable {α β γ : Type} {R : α → α → Prop} {S : β → β → Prop}

/-- Outcomes that are both successes with related results, or both refusals for the same cause. -/
inductive Agree (R : α → α → Prop) : Except Refusal α → Except Refusal α → Prop
  | ok {a a' : α} (h : R a a') : Agree R (.ok a) (.ok a')
  | error {r r' : Refusal} (h : r.Alike r') : Agree R (.error r) (.error r')

namespace Agree

theorem errorAt (span span' : Span) (cause : Cause) :
    Agree R (.error (.at span cause)) (.error (.at span' cause)) := .error (.at span span' cause)

theorem bind {x x' : Except Refusal α} {f f' : α → Except Refusal β} (hx : Agree R x x')
    (hf : ∀ a a', R a a' → Agree S (f a) (f' a')) : Agree S (x >>= f) (x' >>= f') := by
  cases hx with
  | ok h => exact hf _ _ h
  | error h => exact .error h

theorem map {x x' : Except Refusal α} {f f' : α → β} (hx : Agree R x x')
    (hf : ∀ a a', R a a' → S (f a) (f' a')) : Agree S (x.map f) (x'.map f') := by
  cases hx with
  | ok h => exact .ok (hf _ _ h)
  | error h => exact .error h

end Agree

/-! ## Steps -/

namespace Parse

/-- What two runs of a step come to. -/
inductive Ends (R : α → α → Prop) :
    Except Refusal α × Cursor → Except Refusal α × Cursor → Prop
  | ok {a a' : α} {d d' : Cursor} (h : R a a') (hd : d.Alike d') : Ends R (.ok a, d) (.ok a', d')
  | error {r r' : Refusal} {d d' : Cursor} (h : r.Alike r') : Ends R (.error r, d) (.error r', d')

/-- Steps that agree wherever they start from like trees. -/
def Agree (R : α → α → Prop) (m m' : Parse α) : Prop :=
  ∀ ⦃c c' : Cursor⦄, c.Alike c' → Ends R (m c) (m' c')

theorem agree_pure {a a' : α} (h : R a a') : Agree R (pure a) (pure a') :=
  fun _ _ hc ↦ .ok h hc

theorem Agree.bind {m m' : Parse α} {f f' : α → Parse β} (hm : Agree R m m')
    (hf : ∀ a a', R a a' → Agree S (f a) (f' a')) : Agree S (m >>= f) (m' >>= f') := by
  intro c c' hc
  have h := hm hc
  rw [bind_apply, bind_apply]
  generalize m c = x at h
  generalize m' c' = x' at h
  cases h with
  | ok ha hd => exact hf _ _ ha hd
  | error hr => exact .error hr

theorem agree_ofExcept {x x' : Except Refusal α} (h : ErrorDerive.Agree R x x') :
    Agree R (ofExcept x) (ofExcept x') := by
  intro c c' hc
  cases h with
  | ok h => exact .ok h hc
  | error h => exact .error h

theorem agree_fail (cause : Cause) (span span' : Span) :
    Agree R (fail cause span) (fail cause span') := fun _ _ _ ↦ .error (.at span span' cause)

theorem agree_failHere (cause : Cause) : Agree R (failHere cause) (failHere cause) :=
  fun _ _ _ ↦ .error (.at _ _ cause)

theorem describeNext_eq {c c' : Cursor} (hc : c.Alike c') :
    describeNext c.peek = describeNext c'.peek := by
  unfold Cursor.peek
  rcases Tree.Alike.cases hc with ⟨h, h'⟩ | ⟨t, ts, t', ts', h, h', hm, -⟩
  · rw [h, h']
  · rw [h, h']
    exact hm.describe

theorem agree_unexpected (what : Expectation) : Agree R (unexpected what) (unexpected what) := by
  intro c c' hc
  unfold unexpected
  rw [describeNext_eq hc]
  exact .error (.at _ _ _)

/-- Views that show the same of like trees. -/
def AgreeOn (R : α → α → Prop) (view : Tree → Option α) : Prop :=
  ∀ ⦃t t' : Tree⦄, t.Match t' → Option.Rel R (view t) (view t')

theorem AgreeOn.peek {view : Tree → Option α} (hv : AgreeOn R view) {c c' : Cursor}
    (hc : c.Alike c') : Option.Rel R (c.peek.bind view) (c'.peek.bind view) := by
  unfold Cursor.peek
  rcases Tree.Alike.cases hc with ⟨h, h'⟩ | ⟨t, ts, t', ts', h, h', hm, -⟩
  · rw [h, h']
    exact .none
  · rw [h, h']
    exact hv hm

theorem agree_eat {view : Tree → Option α} (hv : AgreeOn R view) :
    Agree (Option.Rel R) (eat view) (eat view) := by
  intro c c' hc
  have h := hv.peek hc
  unfold eat
  generalize c.peek.bind view = x at h
  generalize c'.peek.bind view = x' at h
  cases h with
  | none => exact .ok .none hc
  | some h => exact .ok (.some h) (hc.skip 1)

theorem agree_expect {view : Tree → Option α} (hv : AgreeOn R view) (what : Expectation) :
    Agree R (expect what view) (expect what view) := by
  intro c c' hc
  have h := hv.peek hc
  unfold expect
  generalize c.peek.bind view = x at h
  generalize c'.peek.bind view = x' at h
  cases h with
  | none => exact agree_unexpected what hc
  | some h => exact .ok h (hc.skip 1)

theorem agree_expectEnd : Agree Eq expectEnd expectEnd := by
  intro c c' hc
  unfold expectEnd
  rcases Tree.Alike.cases hc with ⟨h, h'⟩ | ⟨t, ts, t', ts', h, h', hm, -⟩
  · rw [h, h']
    exact .ok rfl hc
  · rw [h, h']
    simp only [hm.describe]
    exact .error (.at _ _ _)

theorem Agree.within {m m' : Parse α} (hm : Agree R m m') {g g' : Group} (hg : g.Alike g') :
    ErrorDerive.Agree R (within g m) (within g' m') := by
  have h : Ends R (m (Cursor.ofGroup g)) (m' (Cursor.ofGroup g')) := hm hg.trees
  unfold Parse.within
  generalize m (Cursor.ofGroup g) = x at h
  generalize m' (Cursor.ofGroup g') = x' at h
  cases h with
  | ok h _ => exact .ok h
  | error h => exact .error h

/-! ## Loops -/

/-- Loops agree if their rounds do. -/
theorem agree_collect {step step' : List α → Parse (Option α)} {h : ∀ done, (step done).Yields}
    {h' : ∀ done, (step' done).Yields}
    (hs : ∀ done done', List.Forall₂ R done done' →
      Agree (Option.Rel R) (step done) (step' done'))
    {done done' : List α} (hd : List.Forall₂ R done done') :
    Agree (List.Forall₂ R) (collect step h done) (collect step' h' done') := by
  intro c c' hc
  fun_induction collect step h done c generalizing done' c' with
  | case1 done c d he =>
    have hx := hs done done' hd hc
    rw [he] at hx
    rw [collect_apply done' c']
    generalize step' done' c' = x' at hx
    cases hx with
    | ok h hd' =>
      cases h
      exact .ok hd hd'
  | case2 done c a d he ih =>
    have hx := hs done done' hd hc
    rw [he] at hx
    rw [collect_apply done' c']
    generalize step' done' c' = x' at hx
    cases hx with
    | ok h hd' =>
      cases h with
      | some h => exact ih (List.rel_append hd (.cons h .nil)) hd'
  | case3 done c e d he =>
    have hx := hs done done' hd hc
    rw [he] at hx
    rw [collect_apply done' c']
    generalize step' done' c' = x' at hx
    cases hx with
    | error h => exact .error h

theorem agree_ifMore {m m' : Parse α} (hm : Agree R m m') :
    Agree (Option.Rel R) (ifMore m) (ifMore m') := by
  intro c c' hc
  unfold ifMore Cursor.hasMore
  rcases Tree.Alike.cases hc with ⟨h, h'⟩ | ⟨t, ts, t', ts', h, h', -, -⟩
  · rw [h, h']
    exact .ok .none hc
  · rw [h, h']
    exact hm.bind (fun _ _ ha ↦ agree_pure (.some ha)) hc

theorem agree_many {step step' : List α → Parse α} {h : ∀ done, (step done).Reads}
    {h' : ∀ done, (step' done).Reads}
    (hs : ∀ done done', List.Forall₂ R done done' → Agree R (step done) (step' done')) :
    Agree (List.Forall₂ R) (many step h) (many step' h') :=
  agree_collect (fun done done' hd ↦ agree_ifMore (hs done done' hd)) .nil

end Parse

end ErrorDerive
