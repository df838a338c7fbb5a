import ErrorDerive.Cursor.Attribute
import ErrorDerive.Proofs.Parsing.Steps
import ErrorDerive.Proofs.Printing.Phrase
import Mathlib.Data.List.Forall2

/-!
# Steps over trees of a form

A step reaches a result if it succeeds with it and leaves the trees behind what it has read
(`Parse.Reaches`).  Results are reached step by step, and a loop over things of a form in a row
reaches one result for each of them (`Parse.reaches_many`).
-/

namespace ErrorDerive

open List (Forall₂)

/-- An attribute of a name, with arguments of a form. -/
def Form.attribute (name : String) (args : Form) : Form :=
  append (mark "#") (group .bracket (append (leaf (.ident name)) args))

/-- An attribute of a name, if one is given. -/
def Form.marker : Option String → Form
  | none => nothing
  | some name => Form.attribute name nothing

/-! ## Trees of a form -/

namespace Tree

/-- Trees whose outlines are of a form. -/
def Has (F : Form) (ts : List Tree) : Prop := ∃ before, F (outlines before ts)

variable {F G : Form} {ts : List Tree} {d : Delimiter}

theorem exists_of_outlines_append {p : Option Nat} {xs ys : List Outline}
    (h : outlines p ts = xs ++ ys) :
    ∃ us vs q, ts = us ++ vs ∧ outlines p us = xs ∧ outlines q vs = ys := by
  induction xs generalizing ts p with
  | nil => exact ⟨[], ts, p, rfl, rfl, h⟩
  | cons x xs ih =>
    cases ts with
    | nil => simp at h
    | cons t ts =>
      rw [outlines_cons, List.cons_append, List.cons.injEq] at h
      obtain ⟨us, vs, q, rfl, hu, hv⟩ := ih h.2
      exact ⟨t :: us, vs, q, rfl, by rw [outlines_cons, h.1, hu], hv⟩

theorem exists_of_outlines_singleton {p : Option Nat} {o : Outline} (h : outlines p ts = [o]) :
    ∃ t, ts = [t] ∧ outline p t = o := by
  match ts with
  | [] => simp at h
  | [t] => exact ⟨t, rfl, by simpa using h⟩
  | t :: u :: ts => simp at h

theorem Has.eq_nil (h : Has Form.nothing ts) : ts = [] := by
  obtain ⟨p, h⟩ := h
  cases ts with
  | nil => rfl
  | cons t ts => simp [Form.nothing] at h

theorem Has.exists_leaf {l : Leaf} (h : Has (Form.leaf l) ts) : ∃ e, ts = [.leaf e l] := by
  obtain ⟨p, apart, h⟩ := h
  obtain ⟨t, rfl, ht⟩ := exists_of_outlines_singleton h
  cases t with
  | leaf e l' =>
    obtain ⟨-, rfl⟩ : _ ∧ l' = l := by simpa using ht
    exact ⟨e, rfl⟩
  | group => simp at ht

theorem Has.exists_mark {m : String} (h : Has (Form.mark m) ts) :
    ∃ e joint, ts = [.leaf e (.punct m joint)] := by
  obtain ⟨p, apart, joint, h⟩ := h
  obtain ⟨e, rfl⟩ := Has.exists_leaf ⟨p, apart, h⟩
  exact ⟨e, joint, rfl⟩

theorem Has.exists_group (h : Has (Form.group d F) ts) :
    ∃ e us c, ts = [.group e d us c] ∧ Has F us := by
  obtain ⟨p, apart, inside, loose, hF, h⟩ := h
  obtain ⟨t, rfl, ht⟩ := exists_of_outlines_singleton h
  cases t with
  | leaf => simp at ht
  | group e d' us c =>
    simp only [outline_group, Outline.group.injEq] at ht
    obtain ⟨-, rfl, rfl, -⟩ := ht
    exact ⟨e, us, c, rfl, _, hF⟩

theorem Has.exists_append (h : Has (Form.append F G) ts) :
    ∃ us vs, ts = us ++ vs ∧ Has F us ∧ Has G vs := by
  obtain ⟨p, xs, ys, hx, hy, h⟩ := h
  obtain ⟨us, vs, q, rfl, rfl, rfl⟩ := exists_of_outlines_append h
  exact ⟨us, vs, rfl, ⟨p, hx⟩, q, hy⟩

theorem Has.exists_attribute {n : String} {args : Form} (h : Has (Form.attribute n args) ts) :
    ∃ e joint e' e'' us x, ts = [.leaf e (.punct "#" joint),
      .group e' .bracket (.leaf e'' (.ident n) :: us) x] ∧ Has args us := by
  obtain ⟨vs, ws, rfl, hv, hw⟩ := h.exists_append
  obtain ⟨e, joint, rfl⟩ := hv.exists_mark
  obtain ⟨e', ys, x, rfl, hy⟩ := hw.exists_group
  obtain ⟨zs, us, rfl, hz, hu⟩ := hy.exists_append
  obtain ⟨e'', rfl⟩ := hz.exists_leaf
  exact ⟨e, joint, e', e'', us, x, rfl, hu⟩

/-- Trees that are at their end, or that go on behind a comma. -/
inductive Comma : List Tree → List Tree → Prop
  | none : Comma [] []
  | some (e : Extent) (joint : Bool) (ts : List Tree) :
      Comma (.leaf e (.punct "," joint) :: ts) ts

/-- Each of the things in a row ends at the end or at a comma. -/
theorem Has.exists_first {ι : Type} {F : ι → Form} {i : ι} {is : List ι}
    (h : Has (Form.row F (i :: is)) ts) :
    ∃ us rest rest', ts = us ++ rest ∧ Has (F i) us ∧ Comma rest rest' ∧
      Has (Form.row F is) rest' := by
  cases is with
  | nil => exact ⟨ts, [], [], by simp, h, .none, none, rfl⟩
  | cons j is =>
    obtain ⟨us, vs, rfl, hu, h⟩ := Has.exists_append h
    obtain ⟨xs, rest', rfl, hx, hr⟩ := h.exists_append
    obtain ⟨e, joint, rfl⟩ := hx.exists_mark
    exact ⟨us, _, rest', rfl, hu, .some e joint rest', hr⟩

end Tree

/-! ## Reaching a result -/

namespace Parse

open ErrorDerive.Tree (Has Comma)

variable {α β : Type} {c d : Cursor} {P Q : α → Prop} {rest rest' ts : List Tree}

/-- A step that succeeds with a result of a kind and leaves given trees to be read. -/
def Reaches (m : Parse α) (c : Cursor) (P : α → Prop) (rest : List Tree) : Prop :=
  ∃ a d, m c = (.ok a, d) ∧ P a ∧ d.rest = rest

theorem reaches_pure {a : α} (hc : c.rest = rest) (ha : P a) : Reaches (pure a) c P rest :=
  ⟨a, c, rfl, ha, hc⟩

theorem Reaches.bind {m : Parse α} {f : α → Parse β} {Q : β → Prop} (hm : Reaches m c P rest)
    (hf : ∀ a d, P a → d.rest = rest → Reaches (f a) d Q rest') : Reaches (m >>= f) c Q rest' := by
  obtain ⟨a, d, hm, ha, hd⟩ := hm
  obtain ⟨b, e, hb⟩ := hf a d ha hd
  exact ⟨b, e, by rw [bind_of_ok hm]; exact hb.1, hb.2⟩

theorem Reaches.imp {m : Parse α} (hm : Reaches m c P rest) (h : ∀ a, P a → Q a) :
    Reaches m c Q rest := by
  obtain ⟨a, d, hm, ha, hd⟩ := hm
  exact ⟨a, d, hm, h a ha, hd⟩

theorem reaches_ofExcept {x : Except Refusal α} {a : α} (hc : c.rest = rest) (hx : x = .ok a) :
    Reaches (ofExcept x) c (· = a) rest :=
  ⟨a, c, by rw [hx]; rfl, rfl, hc⟩

theorem Reaches.within {m : Parse α} {g : Group} (hm : Reaches m (Cursor.ofGroup g) P rest) :
    ∃ a, within g m = .ok a ∧ P a := by
  obtain ⟨a, d, hm, ha, -⟩ := hm
  exact ⟨a, within_eq_iff.2 ⟨d, hm⟩, ha⟩

theorem reaches_expect {what : Expectation} {view : Tree → Option α} {t : Tree} {a : α}
    (hc : c.rest = t :: rest) (hv : view t = some a) : Reaches (expect what view) c (· = a) rest :=
  ⟨a, c.skip 1, expect_eq_ok_iff.2 ⟨⟨t, rest, hc, hv⟩, rfl⟩, rfl, by simp [Cursor.skip, hc]⟩

theorem reaches_eat {view : Tree → Option α} {t : Tree} {a : α} (hc : c.rest = t :: rest)
    (hv : view t = some a) : Reaches (eat view) c (· = some a) rest :=
  ⟨some a, c.skip 1, eat_eq_some_iff.2 ⟨⟨t, rest, hc, hv⟩, rfl⟩, rfl, by simp [Cursor.skip, hc]⟩

theorem reaches_eat_none {view : Tree → Option α} (hc : c.rest = rest)
    (hv : ∀ t ∈ rest.head?, view t = none) : Reaches (eat view) c (· = none) rest := by
  have h : c.peek.bind view = none := by
    rw [Cursor.peek, hc]
    cases rest with
    | nil => rfl
    | cons t ts => exact hv t rfl
  exact ⟨none, c, by rw [eat, h], rfl, hc⟩

theorem reaches_expectEnd (hc : c.rest = []) : Reaches expectEnd c (fun _ ↦ True) [] :=
  ⟨(), c, by rw [expectEnd, hc], trivial, hc⟩

/-- A comma that may come is read. -/
theorem reaches_comma (h : Comma c.rest rest) : Reaches (eatPunct ",") c (fun _ ↦ True) rest := by
  generalize hc : c.rest = ts at h
  cases h with
  | none => exact (reaches_eat_none hc (by simp)).imp fun _ _ ↦ trivial
  | some e joint _ =>
    have hv : mark? "," (.leaf e (.punct "," joint)) = some ⟨e, ",", joint⟩ := rfl
    exact (reaches_eat hc hv).imp fun _ _ ↦ trivial

/-! ## Loops -/

section Many

variable {ι : Type} {F : ι → Form} {R : ι → α → Prop} {step : List α → Parse α}
  {h : ∀ done, (step done).Reads} {is : List ι}

/-- A loop reaches what it reaches behind one more step. -/
theorem Reaches.collect {done : List α} {hy : ∀ done, (ifMore (step done)).Yields}
    {S : List α → Prop} {rest' : List Tree} (h : ∀ done, (step done).Reads)
    (hs : Reaches (step done) c Q rest)
    (hc : ∀ a d, Q a → d.rest = rest →
      Reaches (collect (fun done ↦ ifMore (step done)) hy (done ++ [a])) d S rest') :
    Reaches (collect (fun done ↦ ifMore (step done)) hy done) c S rest' := by
  obtain ⟨a, d, hst, ha, hd⟩ := hs
  have hn : c.rest ≠ [] := by
    intro hn
    have hl := h done c a d hst
    simp [hn] at hl
  obtain ⟨xs, e, hx⟩ := hc a d ha hd
  refine ⟨xs, e, ?_, hx.2⟩
  rw [collect_of_step (ifMore_eq_some_iff.2 ⟨hn, hst⟩)]
  exact hx.1

/-- A loop over things in a row reaches one result for each of them, if its step reaches one for
each behind those before it. -/
theorem reaches_many
    (hs : ∀ before i behind done c us rest rest', is = before ++ i :: behind →
      Forall₂ R before done → c.rest = us ++ rest → Has (F i) us → Comma rest rest' →
      Reaches (step done) c (R i) rest')
    (hc : Has (Form.row F is) c.rest) : Reaches (many step h) c (Forall₂ R is) [] := by
  suffices hl : ∀ behind before done c, is = before ++ behind → Forall₂ R before done →
      Has (Form.row F behind) c.rest →
      Reaches (collect (fun done ↦ ifMore (step done)) (fun done ↦ yields_ifMore (h done)) done) c
        (Forall₂ R is) [] from hl is [] [] c rfl .nil hc
  intro behind
  induction behind with
  | nil =>
    intro before done c hi hd hc
    have hc := Has.eq_nil hc
    refine ⟨done, c, ?_, by simpa [hi] using hd, hc⟩
    rw [collect_apply, ifMore_of_nil hc]
  | cons i behind ih =>
    intro before done c hi hd hc
    obtain ⟨us, rest, rest', hr, hu, hm, hb⟩ := hc.exists_first
    refine (hs before i behind done c us rest rest' hi hd hr hu hm).collect h fun a d ha hdr ↦ ?_
    exact ih (before ++ [i]) (done ++ [a]) d (by simpa using hi)
      (List.rel_append hd (.cons ha .nil)) (hdr ▸ hb)

end Many

/-! ## Attributes -/

/-- A tree that no attribute starts with. -/
def Blunt (t : Tree) : Prop := docComment? t = none ∧ mark? "#" t = none

theorem blunt_ident (e : Extent) (n : String) : Blunt (.leaf e (.ident n)) := ⟨rfl, rfl⟩

/-- A word that is not the start of a longer path. -/
theorem reaches_path {e : Extent} {n : String} (hc : c.rest = .leaf e (.ident n) :: rest)
    (hr : ∀ t ∈ rest.head?, t.isJointMark ":" = false) :
    Reaches path c (· = (n, ⟨e, n⟩)) rest := by
  have hv : Tree.ident? (.leaf e (.ident n)) = some ⟨e, n⟩ := rfl
  refine (reaches_expect hc hv).bind fun i d hi hd ↦ ?_
  obtain ⟨x, f, hs, rfl, hf⟩ : Reaches segment d (· = none) rest :=
    (reaches_eat_none hd fun t ht ↦ by simp [hr t ht]).bind fun r f hr hf ↦ by
      rw [hr]
      exact reaches_pure hf rfl
  have hl : Reaches (collect (fun _ ↦ segment) (fun _ ↦ yields_segment) []) d (· = []) rest :=
    ⟨[], f, by rw [collect_apply, hs], rfl, hf⟩
  refine hl.bind fun is f his hf ↦ ?_
  rw [his, hi]
  exact reaches_pure hf (by simp)

theorem reaches_attributeContent_bare {e : Extent} {n : String}
    (hc : c.rest = [.leaf e (.ident n)]) :
    Reaches attributeContent c (fun a ↦ a.name = n ∧ a.isBare = true) [] := by
  refine (reaches_path hc (by simp)).bind fun x d hx hd ↦ ?_
  rw [hx]
  refine (reaches_eat_none hd (by simp)).bind fun r f hr hf ↦ ?_
  rw [hr]
  refine (reaches_eat_none hf (by simp)).bind fun r g hr hg ↦ ?_
  rw [hr]
  refine (reaches_expectEnd hg).bind fun _ k _ hk ↦ ?_
  exact reaches_pure hk ⟨rfl, rfl⟩

theorem reaches_attributeContent_args {e e' x : Extent} {n : String} {b : Delimiter}
    (hc : c.rest = [.leaf e (.ident n), .group e' b ts x]) :
    Reaches attributeContent c (fun a ↦ a.name = n ∧ a.args = some ⟨e', b, ts, x⟩) [] := by
  refine (reaches_path hc (by simp [Tree.isJointMark])).bind fun y d hy hd ↦ ?_
  rw [hy]
  have hv : Tree.group? (.group e' b ts x) = some ⟨e', b, ts, x⟩ := rfl
  refine (reaches_eat hd hv).bind fun r f hr hf ↦ ?_
  rw [hr]
  refine (reaches_expectEnd hf).bind fun _ k _ hk ↦ ?_
  exact reaches_pure hk ⟨rfl, rfl⟩

/-- An attribute is read if its brackets hold one. -/
theorem reaches_outer {e : Extent} {joint : Bool} {g : Group} {a : Attribute}
    (hc : c.rest = .leaf e (.punct "#" joint) :: g.toTree :: rest)
    (hg : g.delimiter = .bracket) (ha : within g attributeContent = .ok a) :
    Reaches attribute? c (· = some a) rest := by
  refine (reaches_eat_none hc (by simp [docComment?])).bind fun r d hr hd ↦ ?_
  rw [hr]
  have hv : mark? "#" (.leaf e (.punct "#" joint)) = some ⟨e, "#", joint⟩ := rfl
  refine (reaches_eat hd hv).bind fun r d hr hd ↦ ?_
  rw [hr]
  have hn : Reaches noInner d (fun _ ↦ True) (g.toTree :: rest) :=
    ⟨(), d, by rw [noInner, Cursor.peek, hd]; rfl, trivial, hd⟩
  have hv' : brackets? .bracket g.toTree = some g := by simp [brackets?, hg]
  have hb : Reaches attributeBody d (· = a) rest := by
    refine hn.bind fun _ f _ hf ↦ (reaches_expect hf hv').bind fun h k hh hk ↦ ?_
    rw [hh]
    exact reaches_ofExcept hk ha
  refine hb.bind fun b f hb hf ↦ ?_
  rw [hb]
  exact reaches_pure hf rfl

/-- An attribute is read if what stands in its brackets is. -/
theorem reaches_attribute? {e e' x : Extent} {joint : Bool} {P : Attribute → Prop}
    (hc : c.rest = .leaf e (.punct "#" joint) :: .group e' .bracket ts x :: rest)
    (hg : Reaches attributeContent (Cursor.ofGroup ⟨e', .bracket, ts, x⟩) P []) :
    Reaches attribute? c (fun r ↦ ∃ a, r = some a ∧ P a) rest := by
  obtain ⟨a, ha, hP⟩ := hg.within
  refine (reaches_outer hc rfl ha).imp ?_
  rintro _ rfl
  exact ⟨a, rfl, hP⟩

theorem reaches_attribute?_none (hc : c.rest = rest) (hr : ∀ t ∈ rest.head?, Blunt t) :
    Reaches attribute? c (· = none) rest := by
  refine (reaches_eat_none hc fun t ht ↦ (hr t ht).1).bind fun r d hr' hd ↦ ?_
  rw [hr']
  refine (reaches_eat_none hd fun t ht ↦ (hr t ht).2).bind fun r f hr hf ↦ ?_
  rw [hr]
  exact reaches_pure hf rfl

theorem reaches_attributes_none (hc : c.rest = rest) (hr : ∀ t ∈ rest.head?, Blunt t) :
    Reaches attributes c (· = []) rest := by
  obtain ⟨_, d, hs, rfl, hd⟩ := reaches_attribute?_none hc hr
  exact ⟨[], d, by rw [attributes, collect_apply, hs], rfl, hd⟩

theorem reaches_attributes_one {P : Attribute → Prop}
    (h : Reaches attribute? c (fun r ↦ ∃ a, r = some a ∧ P a) rest)
    (hr : ∀ t ∈ rest.head?, Blunt t) :
    Reaches attributes c (fun as ↦ ∃ a, as = [a] ∧ P a) rest := by
  obtain ⟨_, d, hs, ⟨a, rfl, ha⟩, hd⟩ := h
  obtain ⟨_, e, hs', rfl, he⟩ := reaches_attribute?_none hd hr
  exact ⟨[a], e, by rw [attributes, collect_of_step hs, collect_apply, hs']; rfl, ⟨a, rfl, ha⟩, he⟩

/-- An attribute comes before those behind it. -/
theorem attributes_of_attribute? {a : Attribute} {as : List Attribute} {e : Cursor}
    (h : attribute? c = (.ok (some a), d)) (hs : attributes d = (.ok as, e)) :
    attributes c = (.ok (a :: as), e) := by
  have hl := collect_append (h := fun _ ↦ yields_attribute?) [a] [] d
  change _ = (Except.map _ (attributes d).1, (attributes d).2) at hl
  rw [attributes, collect_of_step h]
  exact hl.trans (by rw [hs]; rfl)

/-- The marker of a field is read, if it has one. -/
theorem reaches_marker {m : Option String} {us : List Tree} (hc : c.rest = us ++ rest)
    (h : Has (Form.marker m) us) (hr : ∀ t ∈ rest.head?, Blunt t) :
    Reaches attributes c (fun as ↦ as.map Attribute.name = m.toList ∧ ∀ a ∈ as, a.isBare = true)
      rest := by
  cases m with
  | none =>
    rw [Has.eq_nil h, List.nil_append] at hc
    refine (reaches_attributes_none hc hr).imp ?_
    rintro _ rfl
    simp
  | some n =>
    obtain ⟨e, joint, e', e'', ts, x, rfl, ht⟩ := Has.exists_attribute h
    obtain rfl := ht.eq_nil
    refine (reaches_attributes_one (reaches_attribute? hc (reaches_attributeContent_bare rfl))
      hr).imp ?_
    rintro _ ⟨a, rfl, hn, hb⟩
    simp [hn, hb]

end Parse

end ErrorDerive
