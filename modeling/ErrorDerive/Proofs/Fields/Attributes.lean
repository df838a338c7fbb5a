import ErrorDerive.Proofs.Parsing.Lookahead
import ErrorDerive.Proofs.Printing.Steps

/-!
# Runs of trees that are attributes

The graph of a step relates the trees in front of it to its result and to the trees that it leaves
(`Parse.HasGraph`).  Graphs follow the steps in sequence; that of reading attributes is a run of
attributes and documentation comments with no further one behind it.
-/

namespace ErrorDerive

open List (Forall₂)

namespace Tree

/-- Trees that are one attribute or documentation comment. -/
inductive IsAttribute : List Tree → Attribute → Prop
  | doc (e : Extent) (text : String) :
      IsAttribute [.leaf e (.doc text)] { name := "doc", extent := e, doc := some text }
  | outer (e : Extent) (joint : Bool) (g : Group) (a : Attribute) (hg : g.delimiter = .bracket)
      (ha : Parse.within g Parse.attributeContent = .ok a) :
      IsAttribute [.leaf e (.punct "#" joint), g.toTree] a

/-- Trees that are attributes, one behind another. -/
def AreAttributes (us : List Tree) (as : List Attribute) : Prop :=
  ∃ runs, us = runs.flatten ∧ Forall₂ IsAttribute runs as

end Tree

namespace Parse

open ErrorDerive.Tree (IsAttribute AreAttributes)

variable {α β : Type} {c d : Cursor} {m : Parse α} {f : α → Parse β}
  {G : List Tree → α → List Tree → Prop} {H : α → List Tree → β → List Tree → Prop}
  {rest : List Tree}

/-! ## Graphs -/

/-- A step has a graph if it succeeds exactly on the trees, with the result and up to the trees
that the graph relates. -/
def HasGraph (m : Parse α) (G : List Tree → α → List Tree → Prop) : Prop :=
  ∀ c a rest, Reaches m c (· = a) rest ↔ G c.rest a rest

theorem HasGraph.of_eq (hm : HasGraph m G) {a : α} (h : m c = (.ok a, d)) : G c.rest a d.rest :=
  (hm c a d.rest).1 ⟨a, d, h, rfl, rfl⟩

theorem HasGraph.imp {G' : List Tree → α → List Tree → Prop} (hm : HasGraph m G)
    (h : ∀ ts a rest, G ts a rest ↔ G' ts a rest) : HasGraph m G' :=
  fun c a rest ↦ (hm c a rest).trans (h _ _ _)

theorem hasGraph_pure (a : α) : HasGraph (pure a) fun ts b rest ↦ a = b ∧ ts = rest := by
  intro c b rest
  constructor
  · rintro ⟨_, _, ⟨⟩, rfl, hd⟩
    exact ⟨rfl, hd⟩
  · rintro ⟨rfl, hc⟩
    exact reaches_pure hc rfl

theorem hasGraph_ofExcept (x : Except Refusal α) :
    HasGraph (ofExcept x) fun ts a rest ↦ x = .ok a ∧ ts = rest := by
  intro c a rest
  constructor
  · rintro ⟨_, d, h, rfl, rfl⟩
    obtain ⟨hx, rfl⟩ := ofExcept_eq_iff.1 h
    exact ⟨hx, rfl⟩
  · rintro ⟨hx, hc⟩
    exact reaches_ofExcept hc hx

theorem hasGraph_expect (what : Expectation) (view : Tree → Option α) :
    HasGraph (expect what view) fun ts a rest ↦ ∃ t, ts = t :: rest ∧ view t = some a := by
  intro c a rest
  constructor
  · rintro ⟨_, d, h, rfl, rfl⟩
    obtain ⟨⟨t, ts, ht, hv⟩, rfl⟩ := expect_eq_ok_iff.1 h
    exact ⟨t, by simp [Cursor.skip, ht], hv⟩
  · rintro ⟨t, ht, hv⟩
    exact reaches_expect ht hv

theorem HasGraph.bind (hm : HasGraph m G) (hf : ∀ a, HasGraph (f a) (H a)) :
    HasGraph (m >>= f) fun ts b rest ↦ ∃ a us, G ts a us ∧ H a us b rest := by
  intro c b rest
  constructor
  · rintro ⟨_, d, h, rfl, rfl⟩
    obtain ⟨a, e, ha, hb⟩ := bind_eq_ok_iff.1 h
    exact ⟨a, e.rest, hm.of_eq ha, (hf a).of_eq hb⟩
  · rintro ⟨a, us, hG, hH⟩
    refine ((hm c a us).2 hG).bind ?_
    rintro _ d rfl rfl
    exact (hf _ d b rest).2 hH

/-! ## Attributes -/

theorem docComment?_eq_some_iff {t : Tree} {a : Attribute} :
    docComment? t = some a ↔
      ∃ e text, t = .leaf e (.doc text) ∧ a = { name := "doc", extent := e, doc := some text } := by
  unfold docComment?
  split
  · simp [eq_comm]
  · next hn => simpa using fun e text ht ↦ absurd ht (hn e text)

theorem attributeBody_eq_ok {a : Attribute} (h : attributeBody c = (.ok a, d)) :
    ∃ g : Group, c.rest = g.toTree :: d.rest ∧ g.delimiter = .bracket ∧
      within g attributeContent = .ok a := by
  obtain ⟨_, e, hn, h⟩ := bind_eq_ok_iff.1 h
  obtain ⟨-, rfl⟩ := noInner_eq_ok_iff.1 hn
  obtain ⟨g, e, hg, h⟩ := bind_eq_ok_iff.1 h
  obtain ⟨ha, rfl⟩ := ofExcept_eq_iff.1 h
  obtain ⟨t, ht, hv⟩ := (hasGraph_expect _ _).of_eq hg
  obtain ⟨rfl, hd⟩ := brackets?_eq_some_iff.1 hv
  exact ⟨g, ht, hd, ha⟩

/-- One attribute is read from trees that are one. -/
theorem reaches_attribute?_some_iff {a : Attribute} :
    Reaches attribute? c (· = some a) rest ↔ ∃ us, c.rest = us ++ rest ∧ IsAttribute us a := by
  constructor
  · rintro ⟨_, d, h, rfl, rfl⟩
    obtain ⟨r, e, hr, h⟩ := bind_eq_ok_iff.1 h
    cases r with
    | some b =>
      cases h
      obtain ⟨⟨t, ts, ht, hv⟩, rfl⟩ := eat_eq_some_iff.1 hr
      obtain ⟨e, text, rfl, rfl⟩ := docComment?_eq_some_iff.1 hv
      exact ⟨_, by simp [Cursor.skip, ht], .doc e text⟩
    | none =>
      obtain ⟨-, rfl⟩ := eat_eq_none_iff.1 hr
      obtain ⟨r, e, hr, h⟩ := bind_eq_ok_iff.1 h
      cases r with
      | none => cases h
      | some p =>
        obtain ⟨⟨t, ts, ht, hv⟩, rfl⟩ := eat_eq_some_iff.1 hr
        obtain ⟨rfl, -⟩ := mark?_eq_some_iff.1 hv
        obtain ⟨b, e, hb, h⟩ := bind_eq_ok_iff.1 h
        cases h
        obtain ⟨g, hg, hd, ha⟩ := attributeBody_eq_ok hb
        refine ⟨_, ?_, .outer p.extent p.joint g _ hd ha⟩
        rw [ht, show ts = g.toTree :: d.rest by simpa [Cursor.skip, ht] using hg]
        rfl
  · rintro ⟨us, hc, ha⟩
    cases ha with
    | doc e text =>
      have hv : docComment? (.leaf e (.doc text)) =
        some { name := "doc", extent := e, doc := some text } := rfl
      refine (reaches_eat hc hv).bind fun r d hr hd ↦ ?_
      rw [hr]
      exact reaches_pure hd rfl
    | outer e joint g _ hg ha => exact reaches_outer hc hg ha

theorem reaches_attribute?_none_iff :
    Reaches attribute? c (· = none) rest ↔ c.rest = rest ∧ ∀ t ∈ rest.head?, Blunt t := by
  constructor
  · rintro ⟨_, d, h, rfl, rfl⟩
    obtain ⟨r, e, hr, h⟩ := bind_eq_ok_iff.1 h
    cases r with
    | some b => cases h
    | none =>
      obtain ⟨hd, rfl⟩ := eat_eq_none_iff.1 hr
      obtain ⟨r, e, hr, h⟩ := bind_eq_ok_iff.1 h
      cases r with
      | none =>
        cases h
        obtain ⟨hm, rfl⟩ := eat_eq_none_iff.1 hr
        exact ⟨rfl, fun t ht ↦ ⟨hd t ht, hm t ht⟩⟩
      | some p =>
        obtain ⟨b, e, -, h⟩ := bind_eq_ok_iff.1 h
        cases h
  · rintro ⟨hc, hb⟩
    exact reaches_attribute?_none hc hb

/-- Attributes are read exactly from a run of them that no further one follows. -/
theorem hasGraph_attributes :
    HasGraph attributes fun ts as rest ↦
      ∃ us, ts = us ++ rest ∧ AreAttributes us as ∧ ∀ t ∈ rest.head?, Blunt t := by
  intro c as rest
  constructor
  · rintro ⟨_, d, h, rfl, rfl⟩
    obtain ⟨e, hr, hn⟩ := collect_eq_ok_iff.1 h
    obtain ⟨he, hb⟩ := reaches_attribute?_none_iff.1 ⟨_, _, hn, rfl, rfl⟩
    rw [← he] at hb ⊢
    suffices hu : ∃ us, c.rest = us ++ e.rest ∧ AreAttributes us _ from
      hu.imp fun us hu ↦ ⟨hu.1, hu.2, hb⟩
    refine hr.inv (fun as e ↦ ∃ us, c.rest = us ++ e.rest ∧ AreAttributes us as)
      ⟨[], rfl, [], rfl, .nil⟩ ?_
    rintro as d a e ⟨_, hc, runs, rfl, ha⟩ hs
    obtain ⟨us, hd, hu⟩ := reaches_attribute?_some_iff.1 ⟨_, _, hs, rfl, rfl⟩
    refine ⟨runs.flatten ++ us, by rw [hc, hd, List.append_assoc], runs ++ [us], by simp, ?_⟩
    exact List.rel_append ha (.cons hu .nil)
  · rintro ⟨_, hc, ⟨runs, rfl, ha⟩, hb⟩
    induction ha generalizing c with
    | nil => exact reaches_attributes_none hc hb
    | @cons us a runs as hu ha ih =>
      rw [List.flatten_cons, List.append_assoc] at hc
      obtain ⟨_, d, hs, rfl, hd⟩ := reaches_attribute?_some_iff.2 ⟨us, hc, hu⟩
      obtain ⟨_, e, he, rfl, hr⟩ := ih d hd
      exact ⟨_, e, attributes_of_attribute? hs he, rfl, hr⟩

end Parse

end ErrorDerive
