import ErrorDerive.Proofs.Parsing.Lookahead
import ErrorDerive.Proofs.Printing.Types
import Mathlib.Data.List.Induction

/-!
# What the reading of a type or a path has passed

A type is read tree by tree with a count of open brackets, and a path word by word.  Here it is said
where such a reading stands on its way (`AngleRun.Passes`, `Parse.PathRun`) and what it makes of the
next mark: a `>` is skipped behind a joint `-` and closes a bracket otherwise, and a path goes on
past a joint `:` and ends in front of any other tree.
-/

namespace ErrorDerive

namespace Tree

theorem isMark_iff {mark : String} {t : Tree} :
    t.isMark mark = true ↔ ∃ p : Punct, t = p.toTree ∧ p.mark = mark := by
  constructor
  · intro h
    unfold isMark at h
    split at h
    · next e m joint => exact ⟨⟨e, m, joint⟩, rfl, beq_iff_eq.1 h⟩
    · cases h
  · rintro ⟨p, rfl, rfl⟩
    exact beq_self_eq_true _

theorem isJointMark_toTree {mark : String} {p : Punct} (h : p.mark = mark) :
    p.toTree.isJointMark mark = p.joint := by
  rw [Punct.toTree, isJointMark, h, beq_self_eq_true, Bool.true_and]

theorem isMark_of_isJointMark {mark : String} {t : Tree} (h : t.isJointMark mark = true) :
    t.isMark mark = true := by
  unfold isJointMark at h
  split at h
  · exact (Bool.and_eq_true_iff.1 h).1
  · cases h

end Tree

/-! ## Types -/

namespace AngleRun

variable {ts run rest : List Tree} {depth d e : Nat} {arrow : Bool} {t : Tree}

/-- Whether a joint `-` is the last of the trees that have been read. -/
def dashBehind (run : List Tree) : Bool := run.getLast?.any (·.isJointMark "-")

/-- Reading a type passes a run of trees, whatever comes behind it, and goes on from there with so
many brackets open. -/
def Passes (run : List Tree) (depth : Nat) : Prop :=
  ∀ rest, ofTrees 0 false (run ++ rest) = (ofTrees depth (dashBehind run) rest).after run

theorem passes_nil : Passes [] 0 := fun _ ↦ rfl

theorem ofTrees_cons_of_no_step (hc : ¬(t.isMark "," && depth == 0) = true)
    (hs : step depth arrow t = none) (rest : List Tree) :
    ofTrees depth arrow (t :: rest) = ⟨[], t :: rest, none⟩ := by
  rw [ofTrees, if_neg hc, hs]

/-- One more tree is passed as it leaves the depth. -/
theorem Passes.concat (h : Passes run depth) (hc : ¬(t.isMark "," && depth == 0) = true)
    (hs : step depth (dashBehind run) t = some e) : Passes (run ++ [t]) e := by
  intro rest
  rw [List.append_assoc, List.singleton_append, h, ofTrees_cons_of_step hc hs]
  simp [after, dashBehind]

theorem Passes.concat_iff (h : Passes run depth) (hc : ¬(t.isMark "," && depth == 0) = true) :
    Passes (run ++ [t]) e ↔ step depth (dashBehind run) t = some e := by
  refine ⟨fun ht ↦ ?_, h.concat hc⟩
  have ht : ofTrees 0 false (run ++ [t]) = ⟨run ++ [t], [], some e⟩ := by
    simpa [ofTrees, after] using ht []
  rw [h] at ht
  cases hs : step depth (dashBehind run) t with
  | none =>
    rw [ofTrees_cons_of_no_step hc hs] at ht
    cases congrArg AngleRun.depth ht
  | some d =>
    rw [ofTrees_cons_of_step hc hs] at ht
    exact congrArg AngleRun.depth ht

/-- Whatever has been read of a type has been passed. -/
theorem exists_passes (h : run <+: (ofTrees 0 false ts).run) : ∃ depth, Passes run depth := by
  induction run using List.reverseRecOn with
  | nil => exact ⟨0, passes_nil⟩
  | append_singleton run t ih =>
    obtain ⟨depth, hp⟩ := ih ((List.prefix_append run [t]).trans h)
    obtain ⟨rest, rfl⟩ : ∃ rest, run ++ t :: rest = ts := by
      obtain ⟨us, hu⟩ := h
      have hr := run_append_rest 0 false ts
      rw [← hu] at hr
      exact ⟨us ++ (ofTrees 0 false ts).rest, by simpa using hr⟩
    -- the tree has been read, so it neither is a comma outside of brackets nor closes too much
    rw [hp] at h
    have hn : ¬ run ++ [t] <+: run ++ [] := fun hn ↦ absurd hn.length_le (by simp)
    by_cases hc : (t.isMark "," && depth == 0) = true
    · rw [ofTrees, if_pos hc] at h
      exact absurd h hn
    · cases hs : step depth (dashBehind run) t with
      | none =>
        rw [ofTrees_cons_of_no_step hc hs] at h
        exact absurd h hn
      | some e => exact ⟨e, hp.concat hc hs⟩

theorem not_comma_of_closing (ht : t.isMark ">" = true) :
    ¬(t.isMark "," && depth == 0) = true := by
  obtain ⟨p, rfl, hp⟩ := Tree.isMark_iff.1 ht
  simp [Tree.isMark, Punct.toTree, hp]

/-- A `>` closes a bracket unless it is the head of an arrow. -/
theorem step_closing (ht : t.isMark ">" = true) :
    step depth arrow t =
      if arrow then some depth else if depth = 0 then none else some (depth - 1) := by
  obtain ⟨p, rfl, hp⟩ := Tree.isMark_iff.1 ht
  cases arrow <;> cases depth <;> simp [step, Tree.isMark, Punct.toTree, hp]

/-- A `>` is skipped exactly behind a joint `-`. -/
theorem Passes.skips_iff (h : Passes run depth) (ht : t.isMark ">" = true) :
    Passes (run ++ [t]) depth ↔ dashBehind run = true := by
  rw [h.concat_iff (not_comma_of_closing ht), step_closing ht]
  cases dashBehind run <;> cases depth <;> simp

theorem Passes.closes (h : Passes run (e + 1)) (ht : t.isMark ">" = true)
    (hd : dashBehind run = false) : Passes (run ++ [t]) e := by
  rw [h.concat_iff (not_comma_of_closing ht), step_closing ht, hd]
  rfl

end AngleRun

namespace Parse

open AngleRun (Passes dashBehind)

variable {c d : Cursor} {run rest : List Tree} {t : Tree}

/-- A `>` that closes nothing ends the reading of a type where it stands. -/
theorem fieldType_of_unbalanced (h : Passes run 0) (hc : c.rest = run ++ t :: rest)
    (ht : t.isMark ">" = true) (hd : dashBehind run = false) :
    fieldType c = (.error (.at t.span .unbalancedAngle), c.skip run.length) := by
  have hs : AngleRun.step 0 (dashBehind run) t = none := by
    rw [AngleRun.step_closing ht, hd]
    rfl
  have hr : AngleRun.ofTrees 0 false c.rest = ⟨run, t :: rest, none⟩ := by
    rw [hc, h, AngleRun.ofTrees_cons_of_no_step (AngleRun.not_comma_of_closing ht) hs]
    simp [AngleRun.after]
  have hh : (c.skip run.length).here = t.span := by simp [Cursor.skip, Cursor.here, hc]
  rw [fieldType, hr]
  simp only [typeOfRun, failHere, hh]

/-! ## Paths -/

variable {α β : Type} {first : Ident} {more : List Ident}

theorem bind_eq_of_eq {m m' : Parse α} {f : α → Parse β} {c d : Cursor} (h : m c = m' d) :
    (m >>= f) c = (m' >>= f) d := by
  rw [bind_apply, bind_apply, h]

/-- Steps in sequence get at least as far as the first of them. -/
theorem before_bind {m : Parse α} {f : α → Parse β} (hf : ∀ a, (f a).Forward) (c : Cursor) :
    (m c).2.Before ((m >>= f) c).2 := by
  rw [bind_apply]
  rcases m c with ⟨e | a, d⟩
  · exact .refl d
  · exact hf a d

/-- A loop gets at least as far as one round of it. -/
theorem before_collect {step : List α → Parse (Option α)} {h : ∀ done, (step done).Yields}
    (hf : ∀ done, (step done).Forward) (done : List α) (c : Cursor) :
    (step done c).2.Before (collect step h done c).2 := by
  rw [collect_apply]
  rcases step done c with ⟨e | _ | a, d⟩
  · exact .refl d
  · exact .refl d
  · exact forward_collect hf _ d

/-- Reads a path on from behind its first word and behind more of them. -/
def pathFrom (first : Ident) (more : List Ident) : Parse (String × Ident) := do
  let more ← collect (fun _ ↦ segment) (fun _ ↦ yields_segment) more
  pure ("::".intercalate (first.text :: more.map Ident.text), first)

/-- Where the reading of a path stands: behind its first word and behind more of them. -/
def PathRun (c : Cursor) (first : Ident) (more : List Ident) (d : Cursor) : Prop :=
  ∃ e, readIdent c = (.ok first, e) ∧ Run (fun _ ↦ segment) e more d

theorem PathRun.suffix (h : PathRun c first more d) : d.rest <:+ c.rest := by
  obtain ⟨e, hi, hr⟩ := h
  exact (hr.before fun _ ↦ forward_segment).suffix.trans ((forward_expect _ _).suffix hi)

theorem path_of_run (h : PathRun c first more d) : path c = pathFrom first more d := by
  obtain ⟨e, hi, hr⟩ := h
  rw [path, bind_of_ok hi]
  exact bind_eq_of_eq (collect_of_run hr)

/-- A path ends in front of what is no joint colon. -/
theorem pathFrom_of_not_joint (ht : ∀ t ∈ d.rest.head?, t.isJointMark ":" = false) :
    pathFrom first more d =
      (.ok ("::".intercalate (first.text :: more.map Ident.text), first), d) := by
  have he : eat (fun t ↦ if t.isJointMark ":" then some () else none) d = (.ok none, d) :=
    eat_eq_none_iff.2 ⟨fun t h ↦ by simp [ht t h], rfl⟩
  have hs : segment d = (.ok none, d) := bind_of_ok he
  have hc : collect (fun _ ↦ segment) (fun _ ↦ yields_segment) more d = (.ok more, d) := by
    rw [collect_apply, hs]
  exact bind_of_ok hc

/-- A path goes on behind a joint colon, whether or not it can be read in the end. -/
theorem skip_before_pathFrom (hd : d.rest = t :: rest) (ht : t.isJointMark ":" = true) :
    (d.skip 1).Before (pathFrom first more d).2 := by
  have he : eat (fun t ↦ if t.isJointMark ":" then some () else none) d =
      (.ok (some ()), d.skip 1) := eat_eq_some_iff.2 ⟨⟨t, rest, hd, by simp [ht]⟩, rfl⟩
  have hs : (d.skip 1).Before (segment d).2 := by
    rw [segment, bind_of_ok he]
    exact ((forward_expect _ _).bind fun _ ↦ (forward_expect _ _).bind fun _ ↦ forward_pure _) _
  have hc := before_collect (h := fun _ ↦ yields_segment) (fun _ ↦ forward_segment) more d
  exact (hs.trans hc).trans (before_bind (fun _ ↦ forward_pure _) d)

/-- A path goes on past a mark exactly if that is a joint colon. -/
theorem pos_lt_pathFrom_iff (hd : d.rest = t :: rest) :
    d.pos < (pathFrom first more d).2.pos ↔ t.isJointMark ":" = true := by
  cases ht : t.isJointMark ":" with
  | true =>
    have hp : d.pos + 1 ≤ (pathFrom first more d).2.pos := (skip_before_pathFrom hd ht).pos_le
    simp only [iff_true]
    omega
  | false =>
    rw [pathFrom_of_not_joint (by simp [hd, ht])]
    simp

end Parse

end ErrorDerive
