import ErrorDerive.Proofs.Generated
import ErrorDerive.Proofs.Invariants

/-!
# How a definition that is read is spelled

The leaves of the trees of a text were all cut off from it (`Tree.Lexed`).  So the names of a
definition that is read are identifiers, and the text of a type starts with a token, although it was
written anew.
-/

namespace ErrorDerive

/-! ## Leaves -/

/-- A leaf that was cut off in front of some text. -/
def Leaf.Lexed (l : Leaf) : Prop :=
  ∃ (kind : LeafKind) (text r : List Char) (joint : Bool),
    Lexeme.Leads ⟨.token (.leaf kind), text⟩ r ∧
      l = Leaf.ofLexeme (String.ofList text) joint kind

theorem Token.lexed_of_mem_leaves {label : Option String} {p : Place} {ls : List Lexeme}
    {r : List Char} (h : Lexeme.Chain ls r) {e : Extent} {l : Leaf}
    (hl : .leaf e l ∈ Token.leaves (Token.place label p ls)) : l.Lexed := by
  induction ls generalizing p with
  | nil => cases hl
  | cons x ls ih =>
    obtain ⟨kind, text⟩ := x
    match kind with
    | .trivia _ => exact ih h.2 hl
    | .token (.opener _) => exact ih h.2 hl
    | .token (.closer _) => exact ih h.2 hl
    | .token (.leaf k) =>
      rcases List.mem_cons.1 hl with he | hl
      · obtain ⟨-, rfl⟩ := Tree.leaf.inj he
        exact ⟨k, text, _, _, h.1, rfl⟩
      · exact ih h.2 hl

/-- A text that does not start with white space. -/
def StartsToken (s : String) : Prop := ∃ c cs, s.toList = c :: cs ∧ isLayout c = false

theorem StartsToken.append {s : String} (h : StartsToken s) (t : String) :
    StartsToken (s ++ t) := by
  obtain ⟨c, cs, hs, hc⟩ := h
  exact ⟨c, cs ++ t.toList, by simp [hs], hc⟩

theorem Lexeme.Leads.startsToken {kind : LeafKind} {text r : List Char}
    (h : Lexeme.Leads ⟨.token (.leaf kind), text⟩ r) : StartsToken (String.ofList text) := by
  obtain ⟨c, cs, rfl, hs⟩ := h.exists_cons
  refine ⟨c, cs, by simp, ?_⟩
  by_contra hl
  -- a class that starts with white space is not that of a token
  have ho : .token (.leaf kind) ∈ LexemeKind.order := by
    match kind with
    | .doc | .lifetime | .ident | .punct => decide
    | .literal .string | .literal .rawString => decide
    | .literal .character | .literal .number => decide
  have hm : .token (.leaf kind) ∈ LexemeKind.order.filter (·.starts c) :=
    List.mem_filter.2 ⟨ho, hs⟩
  rw [LexemeKind.sole_blank (by simpa using hl)] at hm
  cases List.mem_singleton.1 hm

theorem Leaf.Lexed.startsToken {l : Leaf} (h : l.Lexed) : StartsToken l.render := by
  obtain ⟨kind, text, r, joint, hl, rfl⟩ := h
  match kind with
  | .doc => exact ⟨'/', _, String.toList_append, by decide⟩
  | .literal _ => exact hl.startsToken
  | .lifetime => exact hl.startsToken
  | .ident => exact hl.startsToken
  | .punct => exact hl.startsToken

theorem Leaf.Lexed.isIdent {text : String} (h : (Leaf.ident text).Lexed) :
    Lexeme.isIdent text.toList = true := by
  obtain ⟨kind, cs, r, joint, hl, he⟩ := h
  cases kind with
  | ident =>
    cases he
    rw [String.toList_ofList]
    exact hl.isIdent
  | _ => cases he

/-! ## Trees -/

namespace Tree

/-- Trees all of whose leaves were cut off in front of some text. -/
def Lexed (ts : List Tree) : Prop := ∀ e l, .leaf e l ∈ leavesAll ts → l.Lexed

theorem lexed_of_read {label : Option String} {source : String} {ts : List Tree}
    (h : read label source = .ok ts) : Lexed ts := by
  intro e l hl
  rw [leavesAll_of_read h] at hl
  exact Token.lexed_of_mem_leaves (Lexeme.chain_split _) hl

variable {ts us : List Tree}

theorem Lexed.subset (h : Lexed ts) (hs : us ⊆ ts) : Lexed us := by
  induction us with
  | nil => intro e l hl; simp at hl
  | cons u us ih =>
    obtain ⟨hu, hs⟩ := List.cons_subset.1 hs
    intro e l hl
    rw [leavesAll_cons, List.mem_append] at hl
    rcases hl with hl | hl
    · exact h e l (leaves_subset_leavesAll hu hl)
    · exact ih hs e l hl

theorem Lexed.trees {g : Group} (h : Lexed ts) (hg : g.toTree ∈ ts) : Lexed g.trees := by
  intro e l hl
  refine h e l (leaves_subset_leavesAll hg ?_)
  rw [Group.toTree, leaves_group]
  exact hl

theorem Lexed.isIdent {i : Ident} (h : Lexed ts) (hi : i.toTree ∈ ts) :
    Lexeme.isIdent i.text.toList = true := by
  refine Leaf.Lexed.isIdent (h i.extent _ (leaves_subset_leavesAll hi ?_))
  simp [Ident.toTree]

theorem Lexed.startsToken {t : Tree} (h : Lexed ts) (ht : t ∈ ts) : StartsToken t.render := by
  cases t with
  | leaf e l =>
    rw [render]
    exact (h e l (leaves_subset_leavesAll ht (by simp))).startsToken
  | group e d us close =>
    rw [render]
    refine StartsToken.append (StartsToken.append ⟨d.opener, [], by simp, ?_⟩ _) _
    cases d <;> decide

theorem renderAll_eq_append (t : Tree) (ts : List Tree) :
    ∃ s, renderAll none none (t :: ts) = t.render ++ s := by
  cases ts with
  | nil =>
    refine ⟨gap (some t.stop) none, ?_⟩
    rw [renderAll, gap, String.empty_append]
    simp
  | cons u ts =>
    refine ⟨renderAll (some t.stop) none (u :: ts), ?_⟩
    rw [renderAll, gap, String.empty_append]
    simp

end Tree

/-! ## Fields -/

namespace Parse

variable {c d : Cursor} {a : FieldType}

theorem typeOfRun_eq_ok {r : AngleRun} (h : typeOfRun r c = (.ok a, d)) :
    ∃ t ts, r.run = t :: ts ∧ a.text = Tree.renderAll none none (t :: ts) := by
  unfold typeOfRun at h
  split at h
  · cases h
  · cases h
  · cases h
    exact ⟨_, _, rfl, rfl⟩
  · cases h

/-- The text of a type that is read starts with a token. -/
theorem startsToken_of_fieldType (hl : Tree.Lexed c.rest) (h : fieldType c = (.ok a, d)) :
    StartsToken a.text := by
  obtain ⟨t, ts, hr, ha⟩ := typeOfRun_eq_ok h
  obtain ⟨s, hs⟩ := Tree.renderAll_eq_append t ts
  rw [ha, hs]
  refine (hl.startsToken ?_).append s
  rw [← AngleRun.run_append_rest 0 false c.rest, hr]
  simp

end Parse

/-- The fields in a group that is read have keys as their shape asks for, and types that start with
a token. -/
theorem FieldDecl.spelled_of_ofGroup {s : Settings} {g : Group} {shape : Shape}
    {fs : List FieldDecl} (hl : Tree.Lexed g.trees) (h : ofGroup s g = .ok (shape, fs))
    {f : FieldDecl} (hf : f ∈ fs) : shape.isKey f.key = true ∧ StartsToken f.type.text := by
  rcases ofGroup_eq_ok_iff.1 h with ⟨-, rfl, hw⟩ | ⟨-, rfl, hw⟩
  · obtain ⟨d, hw⟩ := Parse.within_eq_iff.1 hw
    obtain ⟨done, c, e, hb, hs⟩ := (Parse.many_eq_ok_iff.1 hw).1.exists_step
      (fun done ↦ Parse.forward_ifMore (Parse.forward_tupleField s done)) hf
    obtain ⟨hk, c', e', hb', ht⟩ := Parse.tupleField_eq_ok (Parse.ifMore_eq_some_iff.1 hs).2
    refine ⟨?_, Parse.startsToken_of_fieldType (hl.subset (hb.trans hb').suffix.subset) ht⟩
    rw [hk]
    exact Text.isNumeral_toString _
  · obtain ⟨d, hw⟩ := Parse.within_eq_iff.1 hw
    obtain ⟨done, c, e, hb, hs⟩ := (Parse.many_eq_ok_iff.1 hw).1.exists_step
      (fun done ↦ Parse.forward_ifMore (Parse.forward_structField s done)) hf
    obtain ⟨-, ⟨i, c₁, e₁, hb₁, hi, hk⟩, c₂, e₂, hb₂, ht⟩ :=
      Parse.structField_eq_ok (Parse.ifMore_eq_some_iff.1 hs).2
    refine ⟨?_, Parse.startsToken_of_fieldType (hl.subset (hb.trans hb₂).suffix.subset) ht⟩
    obtain ⟨⟨t, ts, hr, hv⟩, -⟩ := Parse.expect_eq_ok_iff.1 hi
    obtain rfl := Tree.ident?_eq_some_iff.1 hv
    rw [← hk]
    exact hl.isIdent ((hb.trans hb₁).suffix.subset (by simp [hr]))

/-! ## Variants -/

/-- What is known of the spelling of a variant that is read. -/
structure Variant.Legible (v : Variant) : Prop extends v.Spelled where
  unit : v.shape = .unit → v.fields = []
  conversion : v.cause.kind = .conversion → (Definition.conversion? v).isSome = true
  types : ∀ x ∈ v.fields, StartsToken x.2

namespace VariantHead

variable {s : Settings} {trees : List Tree} {h : VariantHead}

theorem legible_of_unit (hl : Tree.Lexed trees) (hu : h.fields = ⟨.unit, [], {}⟩)
    (ht : [h.name.toTree] <:+: trees) (m : Message) : (h.variant m).Legible where
  name := hl.isIdent (ht.subset (by simp))
  keys := by simp [variant, hu]
  cause := by simp [variant, hu]
  unit _ := by simp [variant, hu]
  conversion := by simp [variant, hu]
  types := by simp [variant, hu]

/-- A variant with a field list is legible if its trees come from lexemes. -/
theorem legible_of_group {g : Group} (hl : Tree.Lexed trees)
    (hg : FieldList.ofGroup s h.name g = .ok h.fields)
    (ht : [h.name.toTree, g.toTree] <:+: trees) (m : Message) : (h.variant m).Legible := by
  obtain ⟨fs, hs, hf, hc⟩ := FieldList.ofGroup_eq_ok_iff.1 hg
  have hn := FieldDecl.nodup_keys hs
  have hp : ∀ f ∈ fs, h.fields.shape.isKey f.key = true ∧ StartsToken f.type.text := fun f hf ↦
    FieldDecl.spelled_of_ofGroup (hl.trees (ht.subset (by simp))) hs hf
  have hk : (h.variant m).fields.keys = fs.map FieldDecl.key := by
    rw [variant, hf, FieldDecl.keys_table hn]
  have hi : ∀ k ∈ fs.map FieldDecl.key, h.fields.shape.isKey k = true := by
    intro k hk
    obtain ⟨f, hf, rfl⟩ := List.mem_map.1 hk
    exact (hp f hf).1
  exact {
    name := hl.isIdent (ht.subset (by simp))
    keys := fun _ k hm ↦ hi k (hk ▸ hm)
    cause := fun k hm ↦ hi k (FieldDecl.mem_keys_of_cause hc hm)
    unit := by
      intro hx
      rcases FieldDecl.ofGroup_eq_ok_iff.1 hs with ⟨-, he, -⟩ | ⟨-, he, -⟩
      · cases hx.symm.trans he
      · cases hx.symm.trans he
    conversion := by
      intro hx
      obtain ⟨k, hm⟩ : ∃ k, h.fields.cause.key = some k := by
        apply Option.ne_none_iff_exists'.1
        intro hm
        cases hx.symm.trans ((FieldDecl.kind_eq_none_iff_of_cause hc).2 hm)
      have hg := Keyed.isSome_get? (hk ▸ FieldDecl.mem_keys_of_cause hc hm)
      obtain ⟨type, hg⟩ := Option.isSome_iff_exists.1 hg
      refine Option.isSome_iff_exists.2 ⟨⟨h.variant m, k, type⟩, ?_⟩
      refine Definition.conversion?_eq_some_iff.2 ⟨rfl, ?_, hg⟩
      rw [← hx, ← hm]
      rfl
    types := by
      intro x hx
      rw [variant, hf, FieldDecl.table_eq hn] at hx
      obtain ⟨f, hm, rfl⟩ := List.mem_map.1 hx
      exact (hp f hm).2 }

theorem ReadFrom.legible (hl : Tree.Lexed trees) (hr : h.ReadFrom s trees) (m : Message) :
    (h.variant m).Legible := by
  rcases hr with ⟨hu, ht⟩ | ⟨g, ht, hg⟩
  · exact legible_of_unit hl hu ht m
  · exact legible_of_group hl hg ht m

end VariantHead

/-! ## Definitions -/

/-- What is known of the spelling of a definition that is read. -/
structure Definition.Legible (d : Definition) : Prop where
  name : Lexeme.isIdent d.name.toList = true
  variants : ∀ v ∈ d.variants, v.Legible
  displayFields : d.noDisplay = false →
    ∀ v ∈ d.variants, ∀ n ∈ v.displayFields, Lexeme.isIdent n.toList = true

namespace Definition

/-- Every definition that is read from a text is legible. -/
theorem legible_of_parse {s : Settings} {label : Option String} {source : String} {d : Definition}
    (h : Definition.parse s label source = .ok d) : d.Legible := by
  obtain ⟨ts, name, body, ht, ⟨hn, he⟩, hb, hv⟩ := exists_heads h
  have hl := Tree.lexed_of_read ht
  have hs : ∀ v ∈ d.variants, v.Legible := by
    intro v hm
    obtain ⟨x, m, hr, -, rfl⟩ := hv v hm
    exact hr.legible (hl.trees hb) m
  refine ⟨he ▸ hl.isIdent hn, hs, fun hd v hm n hn ↦ ?_⟩
  obtain ⟨x, m, -, hf, rfl⟩ := hv v hm
  have hn := (hf hd).2.2 n hn
  by_cases hu : (x.variant m).shape = .unit
  · simp [Variant.displayNames, (hs _ hm).unit hu, Keyed.keys] at hn
  · exact (hs _ hm).displayNames hu hn

theorem Legible.startsToken {d : Definition} (h : d.Legible) {c : Conversion}
    (hc : c ∈ d.conversions) : StartsToken c.type := by
  obtain ⟨hv, -, hg⟩ := mem_conversions.1 hc
  obtain ⟨front, back, he, -⟩ := List.lookup_eq_some_iff.1 hg
  exact (h.variants _ hv).types (c.key, c.type) (by simp [he])

end Definition

end ErrorDerive
