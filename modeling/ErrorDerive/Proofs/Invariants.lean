import ErrorDerive.Proofs.Parsing.Fields
import ErrorDerive.Proofs.Parsing.Items
import ErrorDerive.Proofs.Templates

/-!
# Invariants of the model

Every variant of a definition that is read from a text is sound (`Variant.Sound`): its fields, its
cause and its message fit together, and fit the declarations in the text.
-/

namespace ErrorDerive

namespace FieldList

variable {s : Settings} {variant : Ident} {g : Group} {x : FieldList}

theorem ofGroup_eq_ok_iff :
    ofGroup s variant g = .ok x ↔
      ∃ fs, FieldDecl.ofGroup s g = .ok (x.shape, fs) ∧ x.fields = FieldDecl.table fs ∧
        FieldDecl.cause s variant fs = .ok x.cause := by
  unfold ofGroup
  rw [Except.bind_eq_ok_iff]
  constructor
  · rintro ⟨⟨shape, fs⟩, hg, h⟩
    obtain ⟨cause, hc, h⟩ := Except.bind_eq_ok_iff.1 h
    cases h
    exact ⟨fs, hg, rfl, hc⟩
  · rintro ⟨fs, hg, ht, hc⟩
    refine ⟨(x.shape, fs), hg, Except.bind_eq_ok_iff.2 ⟨x.cause, hc, ?_⟩⟩
    rw [← ht]
    rfl

end FieldList

namespace Message

variable {s : Settings} {as : List Attribute} {name : Ident} {fs : FieldList} {m : Message}

theorem ofTemplate_eq_ok_iff {span : Span} {template : String} :
    ofTemplate span template = .ok m ↔
      m.template = template ∧ Template.names template = .ok m.names := by
  unfold ofTemplate
  cases Template.names template with
  | error u => simp
  | ok ns =>
    simp only [Except.ok.injEq]
    constructor
    · rintro rfl
      exact ⟨rfl, rfl⟩
    · rintro ⟨rfl, rfl⟩
      rfl

/-- Where messages are asked for, the names of a message are those of its template. -/
theorem names_of_ofAttributes (h : ofAttributes s false as name fs = .ok m) :
    Template.names m.template = .ok m.names := by
  have ht : ∀ {span template}, ofTemplate span template = .ok m →
      Template.names m.template = .ok m.names := by
    intro span template h
    obtain ⟨rfl, h⟩ := ofTemplate_eq_ok_iff.1 h
    exact h
  obtain ⟨r, -, h⟩ := Except.bind_eq_ok_iff.1 h
  cases r with
  | none => exact ht h
  | some r =>
    obtain ⟨text, lit⟩ := r
    simp only at h
    split at h
    · unfold ofTuple at h
      split at h
      · exact ht h
      · cases h
      · cases h
    · exact ht h

end Message

namespace Definition

theorem checkNames_eq_ok_iff {vs : List Variant} :
    checkNames vs = .ok () ↔ ∀ v ∈ vs, ∀ n ∈ v.displayFields, n ∈ v.displayNames := by
  induction vs with
  | nil => simp [checkNames]
  | cons v vs ih =>
    rw [checkNames, List.forall_mem_cons]
    cases hn : strangeName? v with
    | some n =>
      have h := List.find?_eq_some_iff_append.1 hn
      have hm := List.mem_of_find?_eq_some hn
      simp only [reduceCtorEq, false_iff, not_and]
      intro hv
      simpa [hv n hm] using h.1
    | none =>
      have h : ∀ n ∈ v.displayFields, n ∈ v.displayNames := by
        simpa [strangeName?] using hn
      simp only [ih]
      exact ⟨fun hs ↦ ⟨h, hs⟩, fun hs ↦ hs.2⟩

theorem checkMessages_eq_ok_iff {vs : List Variant} :
    checkMessages vs = .ok () ↔ ∀ v ∈ vs, v.template ≠ "" := by
  have hf : vs.filter (·.template.isEmpty) = [] ↔ ∀ v ∈ vs, v.template ≠ "" := by
    simp [List.filter_eq_nil_iff, String.isEmpty_iff]
  rw [← hf]
  unfold checkMessages
  split
  · next h => simp [h]
  · next h => simp [h]

theorem check_eq_ok_iff {vs : List Variant} :
    check vs = .ok () ↔
      ∀ v ∈ vs, v.template ≠ "" ∧ ∀ n ∈ v.displayFields, n ∈ v.displayNames := by
  unfold check
  rw [Except.bind_eq_ok_iff]
  constructor
  · rintro ⟨⟨⟩, hm, hn⟩ v hv
    exact ⟨checkMessages_eq_ok_iff.1 hm v hv, checkNames_eq_ok_iff.1 hn v hv⟩
  · intro h
    exact ⟨(), checkMessages_eq_ok_iff.2 fun v hv ↦ (h v hv).1,
      checkNames_eq_ok_iff.2 fun v hv ↦ (h v hv).2⟩

end Definition

/-! ## Sound variants -/

/-- The declarations that the fields of a variant come from: those in the group behind its name
among the trees of the enum's body, and none if no group of fields stands there. -/
def Variant.DeclaredBy (s : Settings) (trees : List Tree) (v : Variant) (fs : List FieldDecl) :
    Prop :=
  ∃ name : Ident, name.text = v.name ∧ name.extent.span = v.span ∧
    ((v.shape = .unit ∧ fs = [] ∧ [name.toTree] <:+: trees) ∨
      ∃ g : Group, [name.toTree, g.toTree] <:+: trees ∧ FieldDecl.ofGroup s g = .ok (v.shape, fs))

/-- What holds of every variant that is read from the trees of an enum's body. -/
structure Variant.Sound (s : Settings) (noDisplay : Bool) (trees : List Tree) (v : Variant) :
    Prop where
  nodup_keys : v.fields.keys.Nodup
  tuple_keys : v.shape = .tuple → v.fields.keys = (List.range v.fields.length).map toString
  unit : v.shape = .unit → v.fields = [] ∧ v.cause = {}
  none_iff : v.cause.kind = .none ↔ v.cause.key = none
  cause_key : ∀ k, v.cause.key = some k → k ∈ v.fields.keys
  /-- The cause is the only field that carries a marker. -/
  declared : ∃ fs, v.DeclaredBy s trees fs ∧ fs.map FieldDecl.key = v.fields.keys ∧
    ∀ f ∈ fs, f.Marked s ↔ v.cause.key = some f.key
  conversion : v.cause.kind = .conversion → v.fields.length = 1
  template : noDisplay = false → v.template ≠ ""
  displayFields : noDisplay = false → ∃ ps, Template.placeholders v.template = .ok ps ∧
    FirstAppearances (ps.map fun p ↦ p.hole.name) v.displayFields
  displayNames : noDisplay = false → ∀ n ∈ v.displayFields, n ∈ v.displayNames

namespace VariantHead

variable {s : Settings} {noDisplay : Bool} {trees : List Tree} {h : VariantHead} {m : Message}

/-- A head that is read from some trees: its name is among them, and behind the name the group
with its fields, if it has any. -/
def ReadFrom (s : Settings) (trees : List Tree) (h : VariantHead) : Prop :=
  (h.fields = ⟨.unit, [], {}⟩ ∧ [h.name.toTree] <:+: trees) ∨
    ∃ g : Group, [h.name.toTree, g.toTree] <:+: trees ∧
      FieldList.ofGroup s h.name g = .ok h.fields

/-- What has to be known of a message for its variant to be sound. -/
def Fits (noDisplay : Bool) (h : VariantHead) (m : Message) : Prop :=
  noDisplay = false → Template.names m.template = .ok m.names ∧ m.template ≠ "" ∧
    ∀ n ∈ m.names, n ∈ (h.variant m).displayNames

theorem sound_of_unit (hu : h.fields = ⟨.unit, [], {}⟩) (ht : [h.name.toTree] <:+: trees)
    (hm : h.Fits noDisplay m) : (h.variant m).Sound s noDisplay trees where
  nodup_keys := by simp [variant, hu, Keyed.keys]
  tuple_keys := by simp [variant, hu]
  unit _ := by simp [variant, hu]
  none_iff := by simp [variant, hu]
  cause_key := by simp [variant, hu]
  declared := by
    refine ⟨[], ⟨h.name, rfl, rfl, .inl ⟨?_, rfl, ht⟩⟩, ?_, by simp⟩
    · simp [variant, hu]
    · simp [variant, hu, Keyed.keys]
  conversion := by simp [variant, hu]
  template hd := (hm hd).2.1
  displayFields hd := Template.firstAppearances_names (hm hd).1
  displayNames hd := (hm hd).2.2

/-- A variant with a field list is sound if its message fits. -/
theorem sound_of_group {g : Group} (hg : FieldList.ofGroup s h.name g = .ok h.fields)
    (ht : [h.name.toTree, g.toTree] <:+: trees) (hm : h.Fits noDisplay m) :
    (h.variant m).Sound s noDisplay trees := by
  obtain ⟨fs, hs, hf, hc⟩ := FieldList.ofGroup_eq_ok_iff.1 hg
  have hn := FieldDecl.nodup_keys hs
  have hk : (h.variant m).fields.keys = fs.map FieldDecl.key := by
    rw [variant, hf, FieldDecl.keys_table hn]
  have hl : (h.variant m).fields.length = fs.length := by
    rw [variant, hf, FieldDecl.length_table hn]
  exact {
    nodup_keys := hk ▸ hn
    tuple_keys := by
      intro hx
      rcases FieldDecl.ofGroup_eq_ok_iff.1 hs with ⟨-, -, hw⟩ | ⟨-, he, -⟩
      · rw [hk, hl, Parse.keys_of_tupleFields hw]
      · cases hx.symm.trans he
    unit := by
      intro hx
      rcases FieldDecl.ofGroup_eq_ok_iff.1 hs with ⟨-, he, -⟩ | ⟨-, he, -⟩
      · cases hx.symm.trans he
      · cases hx.symm.trans he
    none_iff := FieldDecl.kind_eq_none_iff_of_cause hc
    cause_key := fun k hx ↦ hk ▸ FieldDecl.mem_keys_of_cause hc hx
    declared := ⟨fs, ⟨h.name, rfl, rfl, .inr ⟨g, ht, hs⟩⟩, hk.symm,
      fun f hf ↦ FieldDecl.marked_iff_of_cause hc hn hf⟩
    conversion := fun hx ↦ hl ▸ FieldDecl.length_of_conversion hc hx
    template := fun hd ↦ (hm hd).2.1
    displayFields := fun hd ↦ Template.firstAppearances_names (hm hd).1
    displayNames := fun hd ↦ (hm hd).2.2 }

theorem sound (hr : h.ReadFrom s trees) (hm : h.Fits noDisplay m) :
    (h.variant m).Sound s noDisplay trees := by
  rcases hr with ⟨hu, ht⟩ | ⟨g, ht, hg⟩
  · exact sound_of_unit hu ht hm
  · exact sound_of_group hg ht hm

end VariantHead

theorem Parse.readFrom_of_variantHead {s : Settings} {c d : Cursor} {h : VariantHead}
    (hh : variantHead s c = (.ok h, d)) : h.ReadFrom s c.rest := by
  obtain ⟨e, hb, ⟨hu, us, hr⟩ | ⟨g, us, hr, hg⟩⟩ := variantHead_eq_ok hh
  · refine .inl ⟨hu, (List.prefix_append [_] us).isInfix.trans ?_⟩
    exact (hr ▸ hb.suffix : h.name.toTree :: us <:+ c.rest).isInfix
  · refine .inr ⟨g, (List.prefix_append [_, _] us).isInfix.trans ?_, hg⟩
    exact (hr ▸ hb.suffix : h.name.toTree :: g.toTree :: us <:+ c.rest).isInfix

theorem VariantHead.ReadFrom.of_suffix {s : Settings} {ts us : List Tree} {h : VariantHead}
    (hr : h.ReadFrom s ts) (hs : ts <:+ us) : h.ReadFrom s us := by
  rcases hr with ⟨hu, ht⟩ | ⟨g, ht, hg⟩
  · exact .inl ⟨hu, ht.trans hs.isInfix⟩
  · exact .inr ⟨g, ht.trans hs.isInfix, hg⟩

namespace Definition

variable {s : Settings} {label : Option String} {source : String} {d : Definition}

/-- A definition that is read has its name and its body among the trees of the text, and its
variants have heads that are read from the body, with messages that fit them. -/
theorem exists_heads (h : Definition.parse s label source = .ok d) :
    ∃ ts name body, Tree.read label source = .ok ts ∧
      (Ident.toTree name ∈ ts ∧ name.text = d.name) ∧ Group.toTree body ∈ ts ∧
        ∀ v ∈ d.variants, ∃ x m, VariantHead.ReadFrom s body.trees x ∧
          x.Fits d.noDisplay m ∧ x.variant m = v := by
  obtain ⟨ts, head, e, vs, ht, hh, hv, -, hc, rfl⟩ := parse_eq_ok_iff.1 h
  obtain ⟨hn, hb⟩ := Parse.itemHead_eq_ok hh
  refine ⟨ts, head.name, head.body, ht, ⟨hn, rfl⟩, hb, fun v hm ↦ ?_⟩
  obtain ⟨c, hr, -⟩ := Parse.variants_eq_ok_iff.1 hv
  obtain ⟨x, m, c₁, c₂, hb, hx, hmsg, rfl⟩ := Parse.VariantRun.exists_head hr hm
  refine ⟨x, m, (Parse.readFrom_of_variantHead hx).of_suffix hb.suffix, fun hd ↦ ?_, rfl⟩
  change head.noDisplay = false at hd
  rw [hd] at hmsg
  exact ⟨Message.names_of_ofAttributes hmsg, check_eq_ok_iff.1 (hc hd) _ hm⟩

/-- Every variant of a definition that is read is sound. -/
theorem sound_of_parse (h : Definition.parse s label source = .ok d) :
    ∃ ts body, Tree.read label source = .ok ts ∧ Group.toTree body ∈ ts ∧
      ∀ v ∈ d.variants, v.Sound s d.noDisplay body.trees := by
  obtain ⟨ts, name, body, ht, -, hb, hv⟩ := exists_heads h
  refine ⟨ts, body, ht, hb, fun v hm ↦ ?_⟩
  obtain ⟨x, m, hr, hf, rfl⟩ := hv v hm
  exact x.sound hr hf

/-- A tuple that can be made from its only field, and a variant without fields. -/
theorem sound_of_parse_tuple_and_unit :
    ∃ d, Definition.parse {} none "enum E\x7b#[error(\"\x7b0\x7d\")]A(#[from]T),/// b\nB\x7d" = .ok d ∧
      d.variants.length = 2 ∧ ∃ ts body,
        Tree.read none "enum E\x7b#[error(\"\x7b0\x7d\")]A(#[from]T),/// b\nB\x7d" = .ok ts ∧
          Group.toTree body ∈ ts ∧ ∀ v ∈ d.variants, v.Sound {} d.noDisplay body.trees := by
  have h : (Definition.parse {} none
      "enum E\x7b#[error(\"\x7b0\x7d\")]A(#[from]T),/// b\nB\x7d").toOption.map
        (·.variants.length) = some 2 := by
    decide +kernel
  obtain ⟨d, hd, hl⟩ := Option.map_eq_some_iff.1 h
  have hd := Except.toOption_eq_some_iff.1 hd
  exact ⟨d, hd, hl, sound_of_parse hd⟩

end Definition

end ErrorDerive
