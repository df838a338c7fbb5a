import ErrorDerive.Proofs.Invariants
import ErrorDerive.Proofs.Layout
import ErrorDerive.Proofs.Parsing.Lookahead
import ErrorDerive.Proofs.Substitution

/-!
# Attributes of other names

An attribute whose name plays no role may be put in front of any attribute list of an item that is
accepted: in front of the item, of a variant, or of a field (`Parse.Opening`).  The item is accepted
with it, and its definition stays the same (`Parse.definition_inert`).
-/

namespace ErrorDerive

open List (Forall₂)

/-! ## Written attributes -/

namespace Tree

/-- The trees of further words of a path, each behind a double colon. -/
inductive Segments : List String → List Tree → Prop
  | nil : Segments [] []
  | cons {n : String} {ns : List String} {ts : List Tree} (e e' e'' : Extent) (joint : Bool)
      (h : Segments ns ts) :
      Segments (n :: ns)
        (.leaf e (.punct ":" true) :: .leaf e' (.punct ":" joint) :: .leaf e'' (.ident n) :: ts)

/-- The trees that may follow the path of an attribute: none, a group, or a literal behind an
equals sign. -/
inductive Input : List Tree → Prop
  | none : Input []
  | group (g : Group) : Input [g.toTree]
  | value (e : Extent) (joint : Bool) (l : Lit) : Input [.leaf e (.punct "=" joint), l.toTree]

/-- The trees of an attribute with a given path. -/
inductive Attributed : String → List Tree → Prop
  | intro {n : String} {ns : List String} {path input : List Tree} (e e' e'' k : Extent)
      (joint : Bool) (hp : Segments ns path) (hi : Input input) :
      Attributed ("::".intercalate (n :: ns))
        [.leaf e (.punct "#" joint), .group e' .bracket (.leaf e'' (.ident n) :: path ++ input) k]

theorem Input.not_isJointMark {ts : List Tree} (h : Input ts) :
    ∀ t ∈ ts.head?, t.isJointMark ":" = false := by
  cases h with
  | none => simp
  | group g => simp [isJointMark, Group.toTree]
  | value e joint l => simp [isJointMark]

end Tree

namespace Parse

variable {c d : Cursor} {rest ts : List Tree} {n : String} {ns : List String}

theorem reaches_segment {e e' e'' : Extent} {joint : Bool}
    (hc : c.rest = .leaf e (.punct ":" true) :: .leaf e' (.punct ":" joint) ::
      .leaf e'' (.ident n) :: rest) :
    Reaches segment c (· = some ⟨e'', n⟩) rest := by
  have hv : (fun t : Tree ↦ if t.isJointMark ":" then some () else none)
      (.leaf e (.punct ":" true)) = some () := rfl
  refine (reaches_eat hc hv).bind fun r d hr hd ↦ ?_
  rw [hr]
  have hm : mark? ":" (.leaf e' (.punct ":" joint)) = some ⟨e', ":", joint⟩ := rfl
  refine (reaches_expect hd hm).bind fun _ d _ hd ↦ ?_
  have hi : Tree.ident? (.leaf e'' (.ident n)) = some ⟨e'', n⟩ := rfl
  refine (reaches_expect hd hi).bind fun i d hi hd ↦ ?_
  exact reaches_pure hd (by rw [hi])

theorem reaches_segments (h : Tree.Segments ns ts) (hc : c.rest = ts ++ rest)
    (hr : ∀ t ∈ rest.head?, t.isJointMark ":" = false) (done : List Ident) :
    Reaches (collect (fun _ ↦ segment) (fun _ ↦ yields_segment) done) c
      (fun is ↦ is.map Ident.text = done.map Ident.text ++ ns) rest := by
  induction h generalizing c done with
  | nil =>
    obtain ⟨_, d, hs, rfl, hd⟩ : Reaches segment c (· = none) rest :=
      (reaches_eat_none hc fun t ht ↦ by simp [hr t ht]).bind fun r f hr hf ↦ by
        rw [hr]
        exact reaches_pure hf rfl
    exact ⟨done, d, by rw [collect_apply, hs], by simp, hd⟩
  | @cons n ns ts e e' e'' joint h ih =>
    obtain ⟨_, d, hs, rfl, hd⟩ := reaches_segment hc
    obtain ⟨is, f, hi, hm, hf⟩ := ih hd (done ++ [⟨e'', n⟩])
    exact ⟨is, f, by rw [collect_of_step hs, hi], by simp [hm], hf⟩

/-- A path of any length is read. -/
theorem reaches_path_segments {e : Extent} (h : Tree.Segments ns ts)
    (hc : c.rest = .leaf e (.ident n) :: ts ++ rest)
    (hr : ∀ t ∈ rest.head?, t.isJointMark ":" = false) :
    Reaches path c (·.1 = "::".intercalate (n :: ns)) rest := by
  have hv : Tree.ident? (.leaf e (.ident n)) = some ⟨e, n⟩ := rfl
  refine (reaches_expect hc hv).bind fun i d hi hd ↦ ?_
  refine (reaches_segments h hd hr []).bind fun is f his hf ↦ ?_
  exact reaches_pure hf (by simp [hi, his])

/-- A written attribute is read, and its name is its path. -/
theorem reaches_attributed (h : Tree.Attributed n ts) (hn : n ≠ "doc") (hc : c.rest = ts ++ rest) :
    Reaches attribute? c (fun r ↦ ∃ a, r = some a ∧ a.name = n) rest := by
  cases h with
  | @intro n ns path input e e' e'' k joint hp hi =>
    refine reaches_attribute? hc ?_
    refine (reaches_path_segments hp rfl hi.not_isJointMark).bind fun x d hx hd ↦ ?_
    obtain ⟨m, first⟩ := x
    obtain rfl : m = _ := hx
    cases hi with
    | none =>
      refine (reaches_eat_none hd (by simp)).bind fun r d hr hd ↦ ?_
      rw [hr]
      refine (reaches_eat_none hd (by simp)).bind fun r d hr hd ↦ ?_
      rw [hr]
      exact (reaches_expectEnd hd).bind fun _ d _ hd ↦ reaches_pure hd rfl
    | group g =>
      refine (reaches_eat hd (Tree.group?_eq_some_iff.2 rfl)).bind fun r d hr hd ↦ ?_
      rw [hr]
      exact (reaches_expectEnd hd).bind fun _ d _ hd ↦ reaches_pure hd rfl
    | value e joint l =>
      refine (reaches_eat_none hd (by simp [Tree.group?])).bind fun r d hr hd ↦ ?_
      rw [hr]
      have hm : mark? "=" (.leaf e (.punct "=" joint)) = some ⟨e, "=", joint⟩ := rfl
      refine (reaches_eat hd hm).bind fun r d hr hd ↦ ?_
      rw [hr]
      have hl : l.toTree.lit? = some l := rfl
      refine (reaches_expect hd hl).bind fun v d hv hd ↦ ?_
      have hdoc : docValue ("::".intercalate (n :: ns)) v = .ok none := by
        simp [docValue, hn]
      refine (reaches_ofExcept hd hdoc).bind fun _ d _ hd ↦ ?_
      exact (reaches_expectEnd hd).bind fun _ d _ hd ↦ reaches_pure hd rfl

end Parse

/-! ## Names without a role -/

/-- The names of attributes that are looked for. -/
def Settings.Concerns (s : Settings) (name : String) : Prop := name = "doc" ∨ name ∈ s.names

instance (s : Settings) (name : String) : Decidable (s.Concerns name) :=
  inferInstanceAs (Decidable (name = "doc" ∨ name ∈ s.names))

namespace Attribute

variable {s : Settings} {a : Attribute} (h : ¬s.Concerns a.name) (as : List Attribute)

include h

theorem noDisplay_cons_inert : noDisplay s (a :: as) = noDisplay s as := by
  have hn : a.name ≠ s.noDisplayName := fun hn ↦ h (.inr (by simp [Settings.names, hn]))
  rw [noDisplay, noDisplayFrom, if_neg (by simpa using hn), noDisplay]

theorem message_cons_inert : message s (a :: as) = message s as := by
  have hn : a.name ∉ s.messageNames := fun hn ↦ h (.inr (by simp [Settings.names, hn]))
  rw [message, messageFrom, if_neg (by simpa using hn), message]

theorem documentation_cons_inert : documentation (a :: as) = documentation as := by
  have hn : a.name ≠ "doc" := fun hn ↦ h (.inl hn)
  rw [documentation, List.filter_cons_of_neg (by simpa using hn), documentation]

theorem find?_cons_inert :
    (a :: as).find? (·.name == s.noDisplayName) = as.find? (·.name == s.noDisplayName) := by
  have hn : a.name ≠ s.noDisplayName := fun hn ↦ h (.inr (by simp [Settings.names, hn]))
  exact List.find?_cons_of_neg (by simpa using hn)

theorem filter_cons_inert :
    (a :: as).filter (s.causeNames.contains ·.name) =
      as.filter (s.causeNames.contains ·.name) := by
  refine List.filter_cons_of_neg fun hn ↦ h (.inr ?_)
  have hn : a.name ∈ s.causeNames := by simpa using hn
  rcases List.mem_pair.1 hn with hn | hn <;> simp [Settings.names, hn]

theorem ofAttributes_cons_inert (noDisplay : Bool) (name : Ident) (fs : FieldList) :
    Message.ofAttributes s noDisplay (a :: as) name fs =
      Message.ofAttributes s noDisplay as name fs := by
  rw [Message.ofAttributes, message_cons_inert h, documentation_cons_inert h, Message.ofAttributes]

end Attribute

/-! ## Loops -/

namespace Parse

section Loops

variable {α : Type} {S : List Tree → List Tree → Prop} {step : List α → Parse α}
  {R : α → α → Prop} {c c' d : Cursor} {xs ys : List α}

/-- Trees in front of which a loop over all trees starts a round. -/
def Splits (step : List α → Parse α) (ts us : List Tree) : Prop :=
  us ≠ [] ∧ ∃ c xs d, c.rest = ts ++ us ∧ Run (fun done ↦ ifMore (step done)) c xs d ∧ d.rest = us

/-- A loop goes on in the same way if what has been collected differs in nothing that its step
looks at. -/
theorem reaches_collect_of_forall₂ {hy : ∀ done, (ifMore (step done)).Yields} {zs : List α}
    (hs : ∀ done, Settled S (step done)) (hr : ∀ done, (step done).Reads) (hR : ∀ a, R a a)
    (hstep : ∀ xs ys, Forall₂ R xs ys → step xs = step ys)
    (h : collect (fun done ↦ ifMore (step done)) hy xs c = (.ok zs, d)) (hxy : Forall₂ R xs ys)
    (hc : c'.rest = c.rest) :
    Reaches (collect (fun done ↦ ifMore (step done)) hy ys) c' (Forall₂ R zs) d.rest := by
  fun_induction collect (fun done ↦ ifMore (step done)) hy xs c generalizing ys c' with
  | case1 xs c e hn =>
    cases h
    obtain ⟨_, e', hn', rfl, he⟩ := ((hs _).ifMore (hr _)).again hn hc
    rw [hstep _ ys hxy] at hn'
    exact ⟨ys, e', by rw [collect_apply, hn'], hxy, he⟩
  | case2 xs c a e ha ih =>
    obtain ⟨_, e', ha', rfl, he⟩ := ((hs xs).ifMore (hr xs)).again ha hc
    rw [hstep xs ys hxy] at ha'
    obtain ⟨zs', d', hz⟩ := ih h (List.rel_append hxy (.cons (hR a) .nil)) he
    exact ⟨zs', d', by rw [collect_of_step ha']; exact hz.1, hz.2⟩
  | case3 => cases h

/-- One round of a loop may be replaced by another with a result that differs in nothing that its
step looks at. -/
theorem reaches_many_of_splits {hr : ∀ done, (step done).Reads} {ts us us' : List Tree}
    (hs : ∀ done, Settled S (step done)) (hR : ∀ a, R a a)
    (hstep : ∀ xs ys, Forall₂ R xs ys → step xs = step ys)
    (h : many step hr c = (.ok xs, d)) (hp : Splits step ts us) (hc : c.rest = ts ++ us)
    (hc' : c'.rest = ts ++ us') (hu : StandIn S us us')
    (hround : ∀ done e a f e', step done e = (.ok a, f) → e.rest = us → e'.rest = us' →
      Reaches (step done) e' (R a) f.rest) :
    Reaches (many step hr) c' (Forall₂ R xs) d.rest := by
  obtain ⟨hn, c₀, done, d₀, hc₀, hrun, hd₀⟩ := hp
  rw [← hd₀] at hc₀
  obtain ⟨e, he, heu⟩ := hrun.exchange_ifMore hs hr hc₀ hc (.inl (by rw [hd₀]))
  obtain ⟨e', he', heu'⟩ := hrun.exchange_ifMore hs hr hc₀ hc' (hd₀ ▸ hu)
  rw [many, collect_of_run he] at h
  obtain ⟨a, f, ha, h⟩ := exists_step_of_collect h (heu ▸ hn)
  obtain ⟨a', f', ha', hR', hf⟩ := hround done e a f e' ha heu heu'
  have hn' : e'.rest ≠ [] := by
    intro hn'
    have := hr done e' a' f' ha'
    simp [hn'] at this
  obtain ⟨zs, g, hz⟩ := reaches_collect_of_forall₂ hs hr hR hstep h
    (List.rel_append (List.forall₂_same.2 fun a _ ↦ hR a) (.cons hR' .nil)) hf
  refine ⟨zs, g, ?_, hz.2⟩
  rw [many, collect_of_run he', collect_of_step (ifMore_eq_some_iff.2 ⟨hn', ha'⟩)]
  exact hz.1

end Loops

/-! ## Attribute lists -/

variable {s : Settings} {c c' d : Cursor} {n : String} {u : List Tree} {as : List Attribute}

/-- An attribute in front of others is read in front of them. -/
theorem reaches_attributes_cons (hu : Tree.Attributed n u) (hn : n ≠ "doc")
    (h : attributes c = (.ok as, d)) (hc : c'.rest = u ++ c.rest) :
    Reaches attributes c' (fun as' ↦ ∃ a, as' = a :: as ∧ a.name = n) d.rest := by
  obtain ⟨_, e, ha, ⟨a, rfl, hn⟩, he⟩ := reaches_attributed hu hn hc
  obtain ⟨_, f, hs, rfl, hf⟩ := looksAhead_attributes.again h he
  exact ⟨_, f, attributes_of_attribute? ha hs, ⟨a, rfl, hn⟩, hf⟩

/-! ## Fields -/

end Parse

/-- Fields that differ in nothing but attributes that mark no cause. -/
structure FieldDecl.MarkedAs (s : Settings) (f g : FieldDecl) : Prop where
  key : f.key = g.key
  type : f.type = g.type
  markers : f.attributes.filter (s.causeNames.contains ·.name) =
    g.attributes.filter (s.causeNames.contains ·.name)

namespace FieldDecl.MarkedAs

variable {s : Settings} {fs gs : List FieldDecl} (h : Forall₂ (MarkedAs s) fs gs)

include h

theorem map_key : fs.map FieldDecl.key = gs.map FieldDecl.key := by
  induction h with
  | nil => rfl
  | cons hf _ ih => rw [List.map_cons, List.map_cons, hf.key, ih]

theorem table_eq : table fs = table gs := by
  have hm : fs.map (fun f ↦ (f.key, f.type.text)) = gs.map fun f ↦ (f.key, f.type.text) := by
    induction h with
    | nil => rfl
    | cons hf _ ih => rw [List.map_cons, List.map_cons, hf.key, hf.type, ih]
  rw [table, table, hm]

theorem cause_eq (variant : Ident) : cause s variant fs = cause s variant gs := by
  have hm : FieldDecl.markers s fs = FieldDecl.markers s gs := by
    induction h with
    | nil => rfl
    | cons hf _ ih =>
      simp only [FieldDecl.markers, List.flatMap_cons] at ih ⊢
      rw [hf.key, hf.markers, ih]
  rw [cause, cause, h.length_eq, hm]

end FieldDecl.MarkedAs

namespace Parse

variable {s : Settings} {c c' d : Cursor} {n : String} {u : List Tree} {done done' : List FieldDecl}
  {f : FieldDecl}

open FieldDecl (MarkedAs)

theorem reaches_fieldAttributes_inert {as : List Attribute} (hu : Tree.Attributed n u)
    (hn : ¬s.Concerns n) (h : fieldAttributes s c = (.ok as, d)) (hc : c'.rest = u ++ c.rest) :
    Reaches (fieldAttributes s) c' (fun as' ↦ as.filter (s.causeNames.contains ·.name) =
      as'.filter (s.causeNames.contains ·.name)) d.rest := by
  obtain ⟨as, e, ha, h⟩ := bind_eq_ok_iff.1 h
  obtain ⟨⟨⟩, e', hx, h⟩ := bind_eq_ok_iff.1 h
  obtain ⟨rfl, rfl⟩ := pure_eq_ok_iff.1 h
  obtain ⟨hr, rfl⟩ := ofExcept_eq_iff.1 hx
  refine (reaches_attributes_cons hu (fun hd ↦ hn (.inl hd)) ha hc).bind ?_
  rintro _ g ⟨a, rfl, rfl⟩ hg
  have hr' : refuseNoDisplay s (a :: as) = .ok () := by
    rw [refuseNoDisplay, Attribute.find?_cons_inert hn]
    exact hr
  refine (reaches_ofExcept hg hr').bind fun _ k _ hk ↦ ?_
  exact reaches_pure hk (Attribute.filter_cons_inert hn as).symm

theorem reaches_tupleField_inert (hu : Tree.Attributed n u) (hn : ¬s.Concerns n)
    (h : tupleField s done c = (.ok f, d)) (hc : c'.rest = u ++ c.rest) :
    Reaches (tupleField s done) c' (MarkedAs s f) d.rest := by
  obtain ⟨as, e₁, ha, h⟩ := bind_eq_ok_iff.1 h
  obtain ⟨type, e₂, ht, h⟩ := bind_eq_ok_iff.1 h
  obtain ⟨r, e₃, hr, h⟩ := bind_eq_ok_iff.1 h
  obtain ⟨rfl, rfl⟩ := pure_eq_ok_iff.1 h
  refine (reaches_fieldAttributes_inert hu hn ha hc).bind fun as' g₁ ha' hg₁ ↦ ?_
  refine (looksAhead_fieldType.again ht hg₁).bind fun type' g₂ ht' hg₂ ↦ ?_
  refine ((settled_eat _).looksAhead.again hr hg₂).bind fun _ g₃ _ hg₃ ↦ ?_
  exact reaches_pure hg₃ ⟨rfl, ht'.symm, ha'⟩

theorem reaches_structField_inert (hu : Tree.Attributed n u) (hn : ¬s.Concerns n)
    (h : structField s done c = (.ok f, d)) (hc : c'.rest = u ++ c.rest) :
    Reaches (structField s done) c' (MarkedAs s f) d.rest := by
  obtain ⟨as, e₁, ha, h⟩ := bind_eq_ok_iff.1 h
  obtain ⟨name, e₂, hi, h⟩ := bind_eq_ok_iff.1 h
  obtain ⟨_, e₃, hd, h⟩ := bind_eq_ok_iff.1 h
  obtain ⟨_, e₄, hm, h⟩ := bind_eq_ok_iff.1 h
  obtain ⟨type, e₅, ht, h⟩ := bind_eq_ok_iff.1 h
  obtain ⟨r, e₆, hr, h⟩ := bind_eq_ok_iff.1 h
  obtain ⟨rfl, rfl⟩ := pure_eq_ok_iff.1 h
  refine (reaches_fieldAttributes_inert hu hn ha hc).bind fun as' g₁ ha' hg₁ ↦ ?_
  refine (LooksAhead.again (settled_expect _ _) hi hg₁).bind fun name' g₂ hi' hg₂ ↦ ?_
  obtain rfl := hi'
  refine (LooksAhead.again (settled_ofExcept _) hd hg₂).bind fun _ g₃ _ hg₃ ↦ ?_
  refine (LooksAhead.again (settled_expect _ _) hm hg₃).bind fun _ g₄ _ hg₄ ↦ ?_
  refine (looksAhead_fieldType.again ht hg₄).bind fun type' g₅ ht' hg₅ ↦ ?_
  refine ((settled_eat _).looksAhead.again hr hg₅).bind fun _ g₆ _ hg₆ ↦ ?_
  exact reaches_pure hg₆ ⟨rfl, ht'.symm, ha'⟩

/-- An attribute in front of a field changes no more than that field in the list. -/
theorem within_many_inert {step : List FieldDecl → Parse FieldDecl} {ts us : List Tree}
    {δ : Delimiter} {e k : Extent} {fs : List FieldDecl} {hr : ∀ done, (step done).Reads}
    (hs : ∀ done, Settled (fun vs _ ↦ vs ≠ []) (step done))
    (hstep : ∀ xs ys, Forall₂ (MarkedAs s) xs ys → step xs = step ys)
    (hu : ∀ done c c' f d, step done c = (.ok f, d) → c'.rest = u ++ c.rest →
      Reaches (step done) c' (MarkedAs s f) d.rest)
    (hp : Splits step ts us) (h : within ⟨e, δ, ts ++ ([] ++ us), k⟩ (many step hr) = .ok fs) :
    ∃ gs, within ⟨e, δ, ts ++ (u ++ us), k⟩ (many step hr) = .ok gs ∧
      Forall₂ (MarkedAs s) fs gs := by
  obtain ⟨d, h⟩ := within_eq_iff.1 h
  have hround : ∀ done c f d c', step done c = (.ok f, d) → c.rest = us → c'.rest = u ++ us →
      Reaches (step done) c' (MarkedAs s f) d.rest := by
    intro done c f d c' hf hc hc'
    exact hu done c c' f d hf (hc ▸ hc')
  exact (reaches_many_of_splits hs (fun _ ↦ ⟨rfl, rfl, rfl⟩) hstep h hp rfl rfl (.inr hp.1)
    hround).within

/-- The places in the trees of a field list, in brackets of a kind, where the attributes of a field
start. -/
inductive FieldOpening (s : Settings) : Delimiter → (List Tree → List Tree) → Prop
  | tuple {ts us : List Tree} (h : Splits (tupleField s) ts us) :
      FieldOpening s .paren fun u ↦ ts ++ (u ++ us)
  | struct {ts us : List Tree} (h : Splits (structField s) ts us) :
      FieldOpening s .brace fun u ↦ ts ++ (u ++ us)

/-- Behind an attribute that concerns nothing, fields are declared and marked as before. -/
theorem fieldDecls_inert {δ : Delimiter} {plug : List Tree → List Tree} {e k : Extent}
    {shape : Shape} {fs : List FieldDecl} (hu : Tree.Attributed n u) (hn : ¬s.Concerns n)
    (hp : FieldOpening s δ plug) (h : FieldDecl.ofGroup s ⟨e, δ, plug [], k⟩ = .ok (shape, fs)) :
    ∃ gs, FieldDecl.ofGroup s ⟨e, δ, plug u, k⟩ = .ok (shape, gs) ∧
      Forall₂ (MarkedAs s) fs gs := by
  cases hp with
  | tuple hp =>
    obtain ⟨-, hs, hw⟩ | ⟨hδ, -⟩ := FieldDecl.ofGroup_eq_ok_iff.1 h
    · have hstep : ∀ xs ys, Forall₂ (MarkedAs s) xs ys → tupleField s xs = tupleField s ys := by
        intro xs ys hxy
        funext c
        rw [tupleField, tupleField, hxy.length_eq]
      obtain ⟨gs, hgs, hm⟩ := within_many_inert (settled_tupleField s) hstep
        (fun _ _ _ _ _ hf hc ↦ reaches_tupleField_inert hu hn hf hc) hp hw
      exact ⟨gs, FieldDecl.ofGroup_eq_ok_iff.2 (.inl ⟨rfl, hs, hgs⟩), hm⟩
    · cases hδ
  | struct hp =>
    obtain ⟨hδ, -⟩ | ⟨-, hs, hw⟩ := FieldDecl.ofGroup_eq_ok_iff.1 h
    · cases hδ
    · have hstep : ∀ xs ys, Forall₂ (MarkedAs s) xs ys → structField s xs = structField s ys := by
        intro xs ys hxy
        have hr : refuseRedeclared xs = refuseRedeclared ys := by
          funext name
          have hk : xs.any (·.key == name.text) = ys.any (·.key == name.text) := by
            have := congrArg (List.any · (· == name.text)) (MarkedAs.map_key hxy)
            simpa [List.any_map, Function.comp_def] using this
          rw [refuseRedeclared, refuseRedeclared, hk]
        rw [structField, structField, hr]
      obtain ⟨gs, hgs, hm⟩ := within_many_inert (settled_structField s) hstep
        (fun _ _ _ _ _ hf hc ↦ reaches_structField_inert hu hn hf hc) hp hw
      exact ⟨gs, FieldDecl.ofGroup_eq_ok_iff.2 (.inr ⟨rfl, hs, hgs⟩), hm⟩

/-- An attribute in front of a field leaves the field list as it is. -/
theorem fieldList_inert {δ : Delimiter} {plug : List Tree → List Tree} {e k : Extent} {i : Ident}
    {x : FieldList} (hu : Tree.Attributed n u) (hn : ¬s.Concerns n) (hp : FieldOpening s δ plug)
    (h : FieldList.ofGroup s i ⟨e, δ, plug [], k⟩ = .ok x) :
    FieldList.ofGroup s i ⟨e, δ, plug u, k⟩ = .ok x := by
  obtain ⟨fs, hfs, hx, hcause⟩ := FieldList.ofGroup_eq_ok_iff.1 h
  obtain ⟨gs, hgs, hm⟩ := fieldDecls_inert hu hn hp hfs
  refine FieldList.ofGroup_eq_ok_iff.2 ⟨gs, hgs, hx.trans (MarkedAs.table_eq hm), ?_⟩
  rw [← MarkedAs.cause_eq hm i]
  exact hcause

/-! ## Variants -/

section Variants

variable {noDisplay : Bool} {v : Variant} {vs : List Variant} {plug : List Tree → List Tree}

/-- An attribute in front of a variant leaves the variant as it is. -/
theorem reaches_variant_inert (hu : Tree.Attributed n u) (hn : ¬s.Concerns n)
    (h : Parse.variant s noDisplay c = (.ok v, d)) (hc : c'.rest = u ++ c.rest) :
    Reaches (Parse.variant s noDisplay) c' (v = ·) d.rest := by
  obtain ⟨as, e₁, ha, h⟩ := bind_eq_ok_iff.1 h
  obtain ⟨name, e₂, hi, h⟩ := bind_eq_ok_iff.1 h
  obtain ⟨_, e₃, hr, h⟩ := bind_eq_ok_iff.1 h
  obtain ⟨fs, e₄, hf, h⟩ := bind_eq_ok_iff.1 h
  obtain ⟨r, e₅, hm, h⟩ := bind_eq_ok_iff.1 h
  obtain ⟨m, e₆, hx, h⟩ := bind_eq_ok_iff.1 h
  obtain ⟨rfl, rfl⟩ := pure_eq_ok_iff.1 h
  refine (reaches_attributes_cons hu (fun hd ↦ hn (.inl hd)) ha hc).bind ?_
  rintro _ g₁ ⟨a, rfl, rfl⟩ hg₁
  refine (LooksAhead.again (settled_expect _ _) hi hg₁).bind fun name' g₂ hi' hg₂ ↦ ?_
  obtain rfl := hi'
  rw [refuseOnVariant, Attribute.find?_cons_inert hn]
  refine (LooksAhead.again (settled_ofExcept _) hr hg₂).bind fun _ g₃ _ hg₃ ↦ ?_
  refine ((settled_fieldList s name').looksAhead.again hf hg₃).bind fun fs' g₄ hf' hg₄ ↦ ?_
  obtain rfl := hf'
  refine ((settled_eat _).looksAhead.again hm hg₄).bind fun _ g₅ _ hg₅ ↦ ?_
  rw [Attribute.ofAttributes_cons_inert hn]
  refine (LooksAhead.again (settled_ofExcept _) hx hg₅).bind fun m' g₆ hm' hg₆ ↦ ?_
  exact reaches_pure hg₆ (by rw [hm'])

/-- The trees of the attributes in front of a name. -/
def AttributeTrees (ts : List Tree) (name : Ident) : Prop :=
  ∃ c as d, c.rest = ts ++ [name.toTree] ∧ attributes c = (.ok as, d) ∧ d.rest = [name.toTree]

theorem fieldList_of_group {us : List Tree} {name : Ident} {g : Group}
    (hg : fieldGroup? g.toTree = some g) (hc : c.rest = g.toTree :: us) :
    fieldList s name c = (FieldList.ofGroup s name g, c.skip 1) :=
  bind_of_ok (eat_eq_some_iff.2 ⟨⟨g.toTree, us, hc, hg⟩, rfl⟩)

/-- A variant is the same with other trees for its fields, if these give the same field list. -/
theorem reaches_variant_of_fields {ts us : List Tree} {name : Ident} {g g' : Group}
    (ha : AttributeTrees ts name) (hg : fieldGroup? g.toTree = some g)
    (hg' : fieldGroup? g'.toTree = some g')
    (hx : ∀ x, FieldList.ofGroup s name g = .ok x → FieldList.ofGroup s name g' = .ok x)
    (h : Parse.variant s noDisplay c = (.ok v, d))
    (hc : c.rest = ts ++ name.toTree :: g.toTree :: us)
    (hc' : c'.rest = ts ++ name.toTree :: g'.toTree :: us) :
    Reaches (Parse.variant s noDisplay) c' (v = ·) d.rest := by
  obtain ⟨c₀, as, d₀, hc₀, ha, hd₀⟩ := ha
  rw [← hd₀] at hc₀
  have hh : ∀ ts, d₀.rest.head? = (name.toTree :: ts).head? := by simp [hd₀]
  obtain ⟨_, e₁, ha₁, rfl, he₁⟩ := looksAhead_attributes.exchange ha hc₀ hc (.inl (hh _))
  obtain ⟨_, _, ha', h⟩ := bind_eq_ok_iff.1 h
  cases ha₁.symm.trans ha'
  obtain ⟨i, e₂, hi, h⟩ := bind_eq_ok_iff.1 h
  obtain ⟨_, e₃, hr, h⟩ := bind_eq_ok_iff.1 h
  obtain ⟨fs, e₄, hf, h⟩ := bind_eq_ok_iff.1 h
  obtain ⟨r, e₅, hm, h⟩ := bind_eq_ok_iff.1 h
  obtain ⟨m, e₆, hmsg, h⟩ := bind_eq_ok_iff.1 h
  obtain ⟨rfl, rfl⟩ := pure_eq_ok_iff.1 h
  -- The name is the tree behind the attributes, and the fields are in the group behind it.
  obtain ⟨⟨t, rest, ht, hi⟩, rfl⟩ := expect_eq_ok_iff.1 hi
  obtain ⟨rfl, rfl⟩ := List.cons.inj (he₁.symm.trans ht)
  obtain rfl : name = i := Option.some.inj hi
  obtain ⟨hrefuse, rfl⟩ := ofExcept_eq_iff.1 hr
  have he₂ : (e₁.skip 1).rest = g.toTree :: us := by simp [Cursor.skip, he₁]
  rw [fieldList_of_group hg he₂] at hf
  obtain ⟨hfs, rfl⟩ := Prod.mk.inj hf
  have he₄ : ((e₁.skip 1).skip 1).rest = us := by simp [Cursor.skip, he₁]
  refine (looksAhead_attributes.exchange ha hc₀ hc' (.inl (hh _))).bind fun as' g₁ has hg₁ ↦ ?_
  obtain rfl := has
  refine (reaches_expect hg₁ hi).bind fun i g₂ hi' hg₂ ↦ ?_
  obtain rfl := hi'
  refine (reaches_ofExcept hg₂ hrefuse).bind fun _ g₃ _ hg₃ ↦ ?_
  have hfs' : Reaches (fieldList s i) g₃ (· = fs) us := by
    refine ⟨fs, g₃.skip 1, ?_, rfl, by simp [Cursor.skip, hg₃]⟩
    rw [fieldList_of_group hg' hg₃, hx fs hfs]
  refine hfs'.bind fun fs' g₄ hf' hg₄ ↦ ?_
  obtain rfl := hf'
  refine ((settled_eat _).looksAhead.again hm (hg₄.trans he₄.symm)).bind fun _ g₅ _ hg₅ ↦ ?_
  refine (LooksAhead.again (settled_ofExcept _) hmsg hg₅).bind fun m' g₆ hm' hg₆ ↦ ?_
  exact reaches_pure hg₆ (by rw [hm'])

/-- The places in the trees of a body where the attributes of a variant or of a field start. -/
inductive BodyOpening (s : Settings) (noDisplay : Bool) : (List Tree → List Tree) → Prop
  | variant {ts us : List Tree} (h : Splits (fun _ ↦ Parse.variant s noDisplay) ts us) :
      BodyOpening s noDisplay fun u ↦ ts ++ (u ++ us)
  | field {ts as us : List Tree} {name : Ident} {e k : Extent} {δ : Delimiter}
      {plug : List Tree → List Tree} (ha : AttributeTrees as name)
      (h : Splits (fun _ ↦ Parse.variant s noDisplay) ts
        (as ++ name.toTree :: .group e δ (plug []) k :: us))
      (hf : FieldOpening s δ plug) :
      BodyOpening s noDisplay fun u ↦ ts ++ (as ++ name.toTree :: .group e δ (plug u) k :: us)

theorem FieldOpening.fieldGroup? {δ : Delimiter} (h : FieldOpening s δ plug) (e k : Extent)
    (ts : List Tree) : fieldGroup? (Group.toTree ⟨e, δ, ts, k⟩) = some ⟨e, δ, ts, k⟩ := by
  refine fieldGroup?_eq_some_iff.2 ⟨rfl, ?_⟩
  cases h with
  | tuple => exact .inl rfl
  | struct => exact .inr rfl

theorem apart_attributed (hu : Tree.Attributed n u) (ts : List Tree) : Apart (u ++ ts) := by
  cases hu with
  | intro e e' e'' k joint hp hi =>
    rintro _ ⟨⟩
    exact ⟨rfl, rfl⟩

/-- An attribute in front of a variant or of a field leaves the variants as they are. -/
theorem variants_inert {e k : Extent} (hu : Tree.Attributed n u) (hn : ¬s.Concerns n)
    (hp : BodyOpening s noDisplay plug)
    (h : within ⟨e, .brace, plug [], k⟩ (variants s noDisplay) = .ok vs) :
    within ⟨e, .brace, plug u, k⟩ (variants s noDisplay) = .ok vs := by
  obtain ⟨d, h⟩ := within_eq_iff.1 h
  have hs := fun _ : List Variant ↦ settled_variant s noDisplay
  have hstep : ∀ xs ys : List Variant, Forall₂ Eq xs ys →
      Parse.variant s noDisplay = Parse.variant s noDisplay := fun _ _ _ ↦ rfl
  suffices hw : ∃ ws, within ⟨e, .brace, plug u, k⟩ (variants s noDisplay) = .ok ws ∧
      Forall₂ Eq vs ws by
    obtain ⟨ws, hw, he⟩ := hw
    obtain rfl : vs = ws := by rwa [List.forall₂_eq_eq_eq] at he
    exact hw
  cases hp with
  | @variant ts us hp =>
    have hround : ∀ (_ : List Variant) c v d c', Parse.variant s noDisplay c = (.ok v, d) →
        c.rest = us → c'.rest = u ++ us → Reaches (Parse.variant s noDisplay) c' (v = ·) d.rest :=
      fun _ c v d c' hv hc hc' ↦ reaches_variant_inert hu hn hv (hc ▸ hc')
    exact (reaches_many_of_splits hs Eq.refl hstep h hp rfl rfl (.inr (apart_attributed hu us))
      hround).within
  | @field ts as us name e' k' δ plug ha hp hf =>
    have hround : ∀ (_ : List Variant) c v d c', Parse.variant s noDisplay c = (.ok v, d) →
        c.rest = as ++ name.toTree :: .group e' δ (plug []) k' :: us →
        c'.rest = as ++ name.toTree :: .group e' δ (plug u) k' :: us →
        Reaches (Parse.variant s noDisplay) c' (v = ·) d.rest :=
      fun _ c v d c' hv hc hc' ↦ reaches_variant_of_fields ha (hf.fieldGroup? e' k' _)
        (hf.fieldGroup? e' k' _) (fun _ hx ↦ fieldList_inert hu hn hf hx) hv hc hc'
    have hh : StandIn (fun _ us ↦ Apart us) (as ++ name.toTree :: .group e' δ (plug []) k' :: us)
        (as ++ name.toTree :: .group e' δ (plug u) k' :: us) := by
      apply StandIn.append
      exact .inl rfl
    exact (reaches_many_of_splits hs Eq.refl hstep h hp rfl rfl hh hround).within

end Variants

/-! ## Items -/

/-- The places in the trees of an item where the attributes of the item, of a variant or of a field
start. -/
inductive Opening (s : Settings) (noDisplay : Bool) : (List Tree → List Tree) → Prop
  | item (ts : List Tree) : Opening s noDisplay fun u ↦ u ++ ts
  | body {ts : List Tree} {e k : Extent} {plug : List Tree → List Tree}
      (h : BodyOpening s noDisplay plug) :
      Opening s noDisplay fun u ↦ ts ++ [.group e .brace (plug u) k]

theorem looksAhead_itemRest (noDisplay : Bool) : LooksAhead (itemRest noDisplay) :=
  looksAhead_visibility.bind fun _ ↦ (settled_expect _ _).bind fun _ ↦
    (settled_expect _ _).bind fun _ ↦ (settled_expect _ _).bind fun _ ↦ settled_pure _

theorem reaches_itemHead_inert {h : ItemHead} (hu : Tree.Attributed n u) (hn : ¬s.Concerns n)
    (hh : itemHead s c = (.ok h, d)) (hc : c'.rest = u ++ c.rest) :
    Reaches (itemHead s) c' (· = h) d.rest := by
  rw [itemHead_eq] at hh ⊢
  obtain ⟨as, e₁, ha, hh⟩ := bind_eq_ok_iff.1 hh
  obtain ⟨b, e₂, hb, hh⟩ := bind_eq_ok_iff.1 hh
  refine (reaches_attributes_cons hu (fun hd ↦ hn (.inl hd)) ha hc).bind ?_
  rintro _ g₁ ⟨a, rfl, rfl⟩ hg₁
  rw [Attribute.noDisplay_cons_inert hn]
  refine (LooksAhead.again (settled_ofExcept _) hb hg₁).bind fun b' g₂ hb' hg₂ ↦ ?_
  rw [hb']
  exact (looksAhead_itemRest b).again hh hg₂

/-- An attribute at an opening leaves the definition as it is. -/
theorem reaches_definition_inert {x : Definition} {plug : List Tree → List Tree}
    (hu : Tree.Attributed n u) (hn : ¬s.Concerns n) (h : definition s c = (.ok x, d))
    (hp : Opening s x.noDisplay plug) (hc : c.rest = plug []) (hc' : c'.rest = plug u) :
    Reaches (definition s) c' (· = x) [] := by
  obtain ⟨head, vs, hh, hv, hd, hk, rfl⟩ := definition_eq_ok_iff.1 h
  cases hp with
  | item ts =>
    obtain ⟨_, d', hh', rfl, hd'⟩ := reaches_itemHead_inert hu hn hh (by rw [hc', hc]; rfl)
    have hn' := hd'.trans hd
    exact ⟨_, d', definition_eq_ok_iff.2 ⟨_, vs, hh', hv, hn', hk, rfl⟩, rfl, hn'⟩
  | body hp =>
    obtain ⟨hb, _, d', hh', rfl, hd'⟩ := itemHead_exchange hh hd hc hc'
    refine ⟨_, d', definition_eq_ok_iff.2 ⟨_, vs, hh', ?_, hd', hk, rfl⟩, rfl, hd'⟩
    exact variants_inert hu hn hp (hb ▸ hv)

/-- An item is read in the same way from like trees. -/
theorem definition_of_alike {x : Definition} (h : definition s c = (.ok x, d))
    (hc : Tree.Alike c.rest c'.rest) :
    ∃ y d', definition s c' = (.ok y, d') ∧ x.unplaced = y.unplaced := by
  have ha := agree_definition s hc
  rw [h] at ha
  rcases hy : definition s c' with ⟨r, d'⟩
  rw [hy] at ha
  cases ha with
  | ok hxy _ => exact ⟨_, d', rfl, hxy⟩

/-- The code for a definition does not depend on its places. -/
theorem generate_of_unplaced {x y : Definition} (h : x.unplaced = y.unplaced) (l : Library)
    (code : String) : x.generate l = .ok code ↔ y.generate l = .ok code := by
  have ha := Definition.assemble_of_unplaced h l
  rw [Definition.generate_eq_ok_iff, Definition.generate_eq_ok_iff, ha]

/-- An attribute whose name plays no role may be put in front of an item, of a variant or of a field
of an item that is accepted, whatever becomes of the places of the trees: the item is accepted, its
definition is the same but for places, and so is its code. -/
theorem definition_inert {x : Definition} {plug : List Tree → List Tree}
    (h : definition s c = (.ok x, d)) (hc : Tree.Alike c.rest (plug []))
    (hp : Opening s x.noDisplay plug) (hu : Tree.Attributed n u) (hn : ¬s.Concerns n)
    (hc' : Tree.Alike (plug u) c'.rest) :
    ∃ y d', definition s c' = (.ok y, d') ∧ y.unplaced = x.unplaced ∧
      ∀ l code, y.generate l = .ok code ↔ x.generate l = .ok code := by
  have hc : Tree.Alike c.rest (Cursor.mk (plug []) c.finish 0).rest := hc
  have hplug : (Cursor.mk (plug u) c.finish 0).rest = plug u := rfl
  obtain ⟨x₁, d₁, h₁, hx₁⟩ := definition_of_alike h hc
  have hd : x.unplaced.noDisplay = x₁.unplaced.noDisplay := congrArg Definition.noDisplay hx₁
  change x.noDisplay = x₁.noDisplay at hd
  rw [hd] at hp
  obtain ⟨_, d₂, h₂, rfl, -⟩ := reaches_definition_inert hu hn h₁ hp rfl hplug
  obtain ⟨y, d', hy, hxy⟩ := definition_of_alike h₂ hc'
  have hu := (hx₁.trans hxy).symm
  exact ⟨y, d', hy, hu, fun l code ↦ generate_of_unplaced hu l code⟩

/-- The item `#[no_display] enum E { A { .. a: T } }`, with trees in front of its only field. -/
def itemWithField (u : List Tree) : List Tree :=
  [.leaf default (.punct "#" false),
    .group default .bracket [.leaf default (.ident "no_display")] default,
    .leaf default (.ident "enum"), .leaf default (.ident "E")] ++
  [.group default .brace ([] ++ ([] ++ (Ident.mk default "A").toTree ::
    .group default .brace ([] ++ (u ++ [.leaf default (.ident "a"),
      .leaf default (.punct ":" false), .leaf default (.ident "T")])) default :: [])) default]

/-- The attribute `#[x::y = "z"]`. -/
def inertAttribute : List Tree :=
  [.leaf default (.punct "#" false),
    .group default .bracket [.leaf default (.ident "x"), .leaf default (.punct ":" true),
      .leaf default (.punct ":" false), .leaf default (.ident "y"),
      .leaf default (.punct "=" false), .leaf default (.literal .string "\"z\"")] default]

/-- An attribute in front of the field of a struct variant. -/
theorem definition_inert_field :
    ∃ x d y d', definition {} ⟨itemWithField [], default, 0⟩ = (.ok x, d) ∧
      definition {} ⟨itemWithField inertAttribute, default, 0⟩ = (.ok y, d') ∧
        y.unplaced = x.unplaced := by
  have h : (definition {} ⟨itemWithField [], default, 0⟩).1.toOption.map Definition.noDisplay =
      some true := by
    decide +kernel
  obtain ⟨x, hx, hd⟩ := Option.map_eq_some_iff.1 h
  have hx : definition {} ⟨itemWithField [], default, 0⟩ =
      (.ok x, (definition {} ⟨itemWithField [], default, 0⟩).2) :=
    Prod.ext (Except.toOption_eq_some_iff.1 hx) rfl
  have ha : AttributeTrees [] ⟨default, "A"⟩ := by
    obtain ⟨as, d, ha, -, hr⟩ := reaches_attributes_none
      (c := ⟨[(Ident.mk default "A").toTree], default, 0⟩) rfl
      (by rintro _ ⟨⟩; exact blunt_ident _ _)
    exact ⟨_, as, d, rfl, ha, hr⟩
  have hp : Opening {} x.noDisplay itemWithField := by
    rw [hd]
    exact .body (.field ha ⟨by simp, ⟨_, default, 0⟩, [], _, rfl, .start, rfl⟩
      (.struct ⟨by simp, ⟨_, default, 0⟩, [], _, rfl, .start, rfl⟩))
  have hu : Tree.Attributed ("::".intercalate ["x", "y"]) inertAttribute :=
    .intro default default default default false (.cons default default default false .nil)
      (.value default false ⟨default, .string, "\"z\""⟩)
  have hc : Tree.Alike (itemWithField []) (itemWithField []) := rfl
  have hc' : Tree.Alike (itemWithField inertAttribute)
      (Cursor.mk (itemWithField inertAttribute) default 0).rest := rfl
  obtain ⟨y, d', hy, hxy, -⟩ := definition_inert hx hc hp hu (by decide +kernel) hc'
  exact ⟨x, _, y, d', hx, hy, hxy⟩

end Parse

end ErrorDerive
