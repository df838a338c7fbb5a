import ErrorDerive.Proofs.Parsing.Steps

/-!
# Where refusals come from

A step that reads from trees can only be refused at what it has read or at the end of the trees.
`Parse.Sited E Q` says so of a step, for any kind `E` of extents that the trees lie at: its result
has the property `Q`, or else its refusal is at an extent of that kind; and its cause is one that a
single step can find, not one that whole definitions are checked for.
-/

namespace ErrorDerive

/-- A tree all parts of which lie at extents of a kind: leaves, groups, and the ends of groups. -/
inductive Tree.Sited (E : Extent → Prop) : Tree → Prop
  | leaf {e : Extent} {l : Leaf} (h : E e) : Sited E (.leaf e l)
  | group {e close : Extent} {d : Delimiter} {ts : List Tree} (h : E e)
      (hs : ∀ t ∈ ts, Sited E t) (hc : E close) : Sited E (.group e d ts close)

/-- A cursor over such trees, whose end is reported at such an extent. -/
structure Cursor.Sited (E : Extent → Prop) (c : Cursor) : Prop where
  rest : ∀ t ∈ c.rest, t.Sited E
  finish : E c.finish

/-- A cause that only the check of all messages of a definition gives. -/
def Cause.concernsMessages (cause : Cause) : Bool :=
  cause.category == .missingDisplayMessage || cause.category == .unknownDisplayField

/-- A refusal at an extent of a kind, or none that is reported, before any message is checked. -/
inductive Refusal.Sited (E : Extent → Prop) : Refusal → Prop
  | failure {e : Extent} {cause : Cause} (he : E e) (hc : cause.concernsMessages = false) :
      Sited E (.at e.span cause)
  | limit (l : Text.DigitLimit) : Sited E (.limit l)

/-- An outcome with a property, or such a refusal. -/
def Grants {α : Type} (E : Extent → Prop) (Q : α → Prop) : Except Refusal α → Prop
  | .ok a => Q a
  | .error r => r.Sited E

variable {E : Extent → Prop} {α β : Type} {P Q : α → Prop} {R : β → Prop}

/-! ## Trees and cursors -/

namespace Tree.Sited

theorem extent {t : Tree} (h : t.Sited E) : E t.extent := by
  cases h with
  | leaf h => exact h
  | group h _ _ => exact h

theorem trees {g : Group} (h : g.toTree.Sited E) : ∀ t ∈ g.trees, t.Sited E := by
  cases h with
  | group _ hs _ => exact hs

theorem close {g : Group} (h : g.toTree.Sited E) : E g.close := by
  cases h with
  | group _ _ hc => exact hc

end Tree.Sited

namespace Tree

mutual

theorem sited_true (t : Tree) : t.Sited fun _ ↦ True :=
  match t with
  | .leaf _ _ => .leaf trivial
  | .group _ _ ts _ => .group trivial (sitedAll_true ts) trivial

theorem sitedAll_true (ts : List Tree) : ∀ t ∈ ts, t.Sited fun _ ↦ True :=
  match ts with
  | [] => fun _ h ↦ nomatch h
  | t :: ts => List.forall_mem_cons.2 ⟨sited_true t, sitedAll_true ts⟩

end

end Tree

namespace Cursor

theorem sited_true (c : Cursor) : c.Sited fun _ ↦ True := ⟨Tree.sitedAll_true c.rest, trivial⟩

theorem sited_ofGroup {g : Group} (h : g.toTree.Sited E) : (ofGroup g).Sited E :=
  ⟨h.trees, h.close⟩

theorem Sited.skip {c : Cursor} (h : c.Sited E) (n : Nat) : (c.skip n).Sited E :=
  ⟨fun t ht ↦ h.rest t (List.mem_of_mem_drop ht), h.finish⟩

/-- The next tree, or the end, is reported at an extent of the kind. -/
theorem Sited.here {c : Cursor} (h : c.Sited E) : ∃ e, E e ∧ c.here = e.span := by
  unfold Cursor.here
  split
  · exact ⟨c.finish, h.finish, rfl⟩
  · next t ts hc => exact ⟨t.extent, (h.rest t (by simp [hc])).extent, rfl⟩

/-- What a view shows of the next tree. -/
theorem Sited.view {c : Cursor} (h : c.Sited E) {view : Tree → Option α}
    (hv : ∀ t a, t.Sited E → view t = some a → Q a) {a : α} (ha : c.peek.bind view = some a) :
    Q a := by
  obtain ⟨t, ht, ha⟩ := Option.bind_eq_some_iff.1 ha
  exact hv t a (h.rest t (List.mem_of_mem_head? ht)) ha

end Cursor

/-! ## Outcomes -/

theorem grants_at {e : Extent} {cause : Cause} (he : E e)
    (hc : cause.concernsMessages = false) :
    Grants E Q (.error (.at e.span cause)) := Refusal.Sited.failure he hc

theorem Grants.imp {x : Except Refusal α} (h : Grants E P x) (hi : ∀ a, P a → Q a) :
    Grants E Q x := by
  cases x with
  | error r => exact h
  | ok a => exact hi a h

theorem Grants.bind {x : Except Refusal α} {f : α → Except Refusal β} (hx : Grants E P x)
    (hf : ∀ a, P a → Grants E R (f a)) : Grants E R (x >>= f) := by
  cases x with
  | error r => exact hx
  | ok a => exact hf a hx

theorem Grants.map {x : Except Refusal α} {f : α → β} (hx : Grants E P x)
    (hf : ∀ a, P a → R (f a)) : Grants E R (x.map f) := by
  cases x with
  | error r => exact hx
  | ok a => exact hf a hx

/-! ## Steps -/

namespace Parse

/-- A step that, from trees at extents of a kind, reads a result with a property, or is refused at
such an extent; what it leaves are such trees again. -/
def Sited (E : Extent → Prop) (Q : α → Prop) (m : Parse α) : Prop :=
  ∀ c : Cursor, c.Sited E → Grants E Q (m c).1 ∧ (m c).2.Sited E

theorem sited_pure {a : α} (h : Q a) : Sited E Q (pure a) := fun _ hc ↦ ⟨h, hc⟩

theorem Sited.imp {m : Parse α} (h : Sited E P m) (hi : ∀ a, P a → Q a) : Sited E Q m :=
  fun c hc ↦ ⟨(h c hc).1.imp hi, (h c hc).2⟩

theorem Sited.bind {m : Parse α} {f : α → Parse β} (hm : Sited E P m)
    (hf : ∀ a, P a → Sited E R (f a)) : Sited E R (m >>= f) := by
  intro c hc
  obtain ⟨hg, hd⟩ := hm c hc
  rw [bind_apply]
  rcases hx : m c with ⟨r | a, d⟩
  · rw [hx] at hg hd
    exact ⟨hg, hd⟩
  · rw [hx] at hg hd
    exact hf a hg d hd

theorem sited_ofExcept {x : Except Refusal α} (h : Grants E Q x) : Sited E Q (ofExcept x) :=
  fun _ hc ↦ ⟨h, hc⟩

theorem sited_fail {e : Extent} {cause : Cause} (he : E e)
    (hc : cause.concernsMessages = false) : Sited E Q (fail cause e.span) :=
  fun _ h ↦ ⟨grants_at he hc, h⟩

theorem sited_failHere {cause : Cause} (hc : cause.concernsMessages = false) :
    Sited E Q (failHere cause) := by
  intro c h
  obtain ⟨e, he, hs⟩ := h.here
  refine ⟨?_, h⟩
  rw [failHere, hs]
  exact grants_at he hc

theorem sited_unexpected (what : Expectation) : Sited E Q (unexpected what) := by
  intro c h
  have hf : Sited E Q (failHere (.expected what (describeNext c.peek))) := sited_failHere rfl
  exact hf c h

theorem sited_eat {view : Tree → Option α} (hv : ∀ t a, t.Sited E → view t = some a → Q a) :
    Sited E (fun r ↦ ∀ a ∈ r, Q a) (eat view) := by
  intro c hc
  unfold eat
  split
  · exact ⟨(fun a ha ↦ nomatch ha), hc⟩
  · next a ha =>
    refine ⟨fun b hb ↦ ?_, hc.skip 1⟩
    cases hb
    exact hc.view hv ha

theorem sited_expect {what : Expectation} {view : Tree → Option α}
    (hv : ∀ t a, t.Sited E → view t = some a → Q a) : Sited E Q (expect what view) := by
  intro c hc
  unfold expect
  split
  · exact sited_unexpected what c hc
  · next a ha => exact ⟨hc.view hv ha, hc.skip 1⟩

theorem sited_expectEnd : Sited E (fun _ ↦ True) expectEnd := by
  intro c hc
  unfold expectEnd
  split
  · exact ⟨trivial, hc⟩
  · next t ts ht => exact ⟨grants_at (hc.rest t (by simp [ht])).extent rfl, hc⟩

theorem Sited.within {m : Parse α} (hm : Sited E Q m) {g : Group} (hg : g.toTree.Sited E) :
    Grants E Q (within g m) := (hm _ (Cursor.sited_ofGroup hg)).1

/-- A loop collects what its step yields, and is refused as its step is. -/
theorem sited_collect {step : List α → Parse (Option α)} {h : ∀ done, (step done).Yields}
    (hs : ∀ done, Sited E (fun r ↦ ∀ a ∈ r, Q a) (step done)) :
    Sited E (fun xs ↦ ∀ a ∈ xs, Q a) (collect step h []) := by
  intro c hc
  rcases hx : collect step h [] c with ⟨x, d⟩
  obtain ⟨xs, e, hr, hx⟩ := run_of_collect .start hx
  have hi : e.Sited E ∧ ∀ a ∈ xs, Q a := by
    refine hr.inv (fun xs c ↦ c.Sited E ∧ ∀ a ∈ xs, Q a) ⟨hc, by simp⟩ ?_
    rintro xs c a d ⟨hc, hq⟩ hd
    have hg := hs xs c hc
    rw [hd] at hg
    refine ⟨hg.2, fun b hb ↦ ?_⟩
    rcases List.mem_append.1 hb with hb | hb
    · exact hq b hb
    · rw [List.mem_singleton.1 hb]
      exact hg.1 a rfl
  have hg := hs xs e hi.1
  obtain ⟨he, rfl⟩ | ⟨r, he, rfl⟩ := hx
  · rw [he] at hg
    exact ⟨hi.2, hg.2⟩
  · rw [he] at hg
    exact hg

theorem sited_many {step : List α → Parse α} {h : ∀ done, (step done).Reads}
    (hs : ∀ done, Sited E Q (step done)) : Sited E (fun xs ↦ ∀ a ∈ xs, Q a) (many step h) := by
  refine sited_collect fun done c hc ↦ ?_
  unfold ifMore
  split
  · refine (hs done).bind (fun a ha ↦ sited_pure ?_) c hc
    rintro b ⟨⟩
    exact ha
  · exact ⟨(fun a ha ↦ nomatch ha), hc⟩

end Parse

end ErrorDerive
