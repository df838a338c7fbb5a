import ErrorDerive.Proofs.Parsing.Items
import ErrorDerive.Proofs.Sites.Basic

/-!
# Where the grammar refuses

Every step of the grammar is refused at what it has read, one lemma for each of them, up to the
whole item (`Parse.sited_unchecked`).  A definition is what is read and then passes the check of its
messages (`Definition.parse_eq`), so the causes that concern messages come from the check alone.
-/

namespace ErrorDerive

variable {E : Extent → Prop}

/-! ## Views -/

namespace Tree.Sited

variable {t : Tree}

theorem of_ident? (h : t.Sited E) {i : Ident} (hi : t.ident? = some i) : E i.extent := by
  rw [ident?_eq_some_iff] at hi
  subst hi
  exact h.extent

theorem of_lit? (h : t.Sited E) {l : Lit} (hl : t.lit? = some l) : E l.extent := by
  unfold lit? at hl
  split at hl
  · cases hl
    exact h.extent
  · cases hl

theorem of_group? (h : t.Sited E) {g : Group} (hg : t.group? = some g) : g.toTree.Sited E := by
  rw [group?_eq_some_iff] at hg
  exact hg ▸ h

end Tree.Sited

/-- An attribute that was read from trees at extents of a kind. -/
structure Attribute.Sited (E : Extent → Prop) (a : Attribute) : Prop where
  extent : E a.extent
  args : ∀ g ∈ a.args, g.toTree.Sited E

/-- A declaration with such attributes. -/
def FieldDecl.Sited (E : Extent → Prop) (f : FieldDecl) : Prop :=
  ∀ a ∈ f.attributes, a.Sited E

namespace Parse

theorem sited_expectIdent (name : String) :
    Sited E (fun i : Ident ↦ E i.extent) (expectIdent name) :=
  sited_expect fun _ _ ht hi ↦ ht.of_ident? (Option.filter_eq_some_iff.1 hi).1

theorem sited_readIdent : Sited E (fun i : Ident ↦ E i.extent) readIdent :=
  sited_expect fun _ _ ht hi ↦ ht.of_ident? hi

theorem sited_expectPunct (mark : String) : Sited E (fun _ ↦ True) (expectPunct mark) :=
  sited_expect fun _ _ _ _ ↦ trivial

theorem sited_eatPunct (mark : String) : Sited E (fun _ ↦ True) (eatPunct mark) :=
  (sited_eat (Q := fun _ ↦ True) fun _ _ _ _ ↦ trivial).imp fun _ _ ↦ trivial

theorem sited_expectGroup (d : Delimiter) :
    Sited E (fun g : Group ↦ g.toTree.Sited E) (expectGroup d) :=
  sited_expect fun _ _ ht hg ↦ ht.of_group? (Option.filter_eq_some_iff.1 hg).1

/-! ## Attributes -/

theorem grants_litValue {l : Lit} (h : E l.extent) : Grants E (fun _ ↦ True) (litValue l) := by
  unfold litValue
  cases l.value with
  | error e => exact grants_at h rfl
  | ok v => exact trivial

theorem sited_readString : Sited E (fun m : String × Lit ↦ E m.2.extent) readString := by
  intro c hc
  unfold readString
  split
  · exact sited_unexpected _ c hc
  · next l hl =>
    have he : E l.extent := hc.view (Q := fun l : Lit ↦ E l.extent)
      (fun _ _ ht hl ↦ ht.of_lit? (Option.filter_eq_some_iff.1 hl).1) hl
    have hg := grants_litValue he
    split
    · exact ⟨he, hc.skip 1⟩
    · next r hr =>
      rw [hr] at hg
      exact ⟨hg, hc⟩

theorem sited_segment : Sited E (fun _ ↦ True) segment := by
  refine (sited_eat (Q := fun _ ↦ True) fun _ _ _ _ ↦ trivial).bind fun r _ ↦ ?_
  cases r with
  | none => exact sited_pure trivial
  | some _ =>
    exact (sited_expectPunct ":").bind fun _ _ ↦ sited_readIdent.bind fun _ _ ↦
      sited_pure trivial

theorem sited_path : Sited E (fun p : String × Ident ↦ E p.2.extent) path :=
  sited_readIdent.bind fun _ hi ↦
    (sited_collect (Q := fun _ ↦ True) fun _ ↦ sited_segment.imp fun _ _ _ _ ↦ trivial).bind
      fun _ _ ↦ sited_pure hi

theorem grants_docValue (name : String) {l : Lit} (h : E l.extent) :
    Grants E (fun _ ↦ True) (docValue name l) := by
  unfold docValue
  split
  · exact (grants_litValue h).map fun _ _ ↦ trivial
  · exact trivial

theorem sited_attributeContent : Sited E (Attribute.Sited E) attributeContent := by
  refine sited_path.bind fun p hp ↦ ?_
  refine (sited_eat (Q := fun g : Group ↦ g.toTree.Sited E) fun _ _ ht hg ↦ ht.of_group? hg).bind
    fun g hg ↦ ?_
  cases g with
  | some g => exact sited_expectEnd.bind fun _ _ ↦ sited_pure ⟨hp, hg⟩
  | none =>
    refine (sited_eatPunct "=").bind fun q _ ↦ ?_
    cases q with
    | none => exact sited_expectEnd.bind fun _ _ ↦ sited_pure ⟨hp, by simp⟩
    | some _ =>
      have hv : Sited E (fun l : Lit ↦ E l.extent) attributeValue :=
        sited_expect fun _ _ ht hl ↦ ht.of_lit? hl
      exact hv.bind fun v hv ↦ (sited_ofExcept (grants_docValue p.1 hv)).bind fun _ _ ↦
        sited_expectEnd.bind fun _ _ ↦ sited_pure ⟨hp, by simp⟩

theorem sited_noInner : Sited E (fun _ ↦ True) noInner := by
  intro c hc
  unfold noInner
  split
  · split
    · exact sited_failHere rfl c hc
    · exact ⟨trivial, hc⟩
  · exact ⟨trivial, hc⟩

theorem sited_docComment {t : Tree} {a : Attribute} (ht : t.Sited E)
    (ha : docComment? t = some a) : a.Sited E := by
  unfold docComment? at ha
  split at ha
  · cases ha
    exact ⟨ht.extent, by simp⟩
  · cases ha

theorem sited_attribute? : Sited E (fun r ↦ ∀ a ∈ r, Attribute.Sited E a) attribute? := by
  refine (sited_eat fun _ _ ht ha ↦ sited_docComment ht ha).bind fun r hr ↦ ?_
  cases r with
  | some a => exact sited_pure hr
  | none =>
    refine (sited_eatPunct "#").bind fun p _ ↦ ?_
    cases p with
    | none => exact sited_pure hr
    | some _ =>
      have hb : Sited E (Attribute.Sited E) attributeBody :=
        sited_noInner.bind fun _ _ ↦ (sited_expectGroup .bracket).bind fun _ hg ↦
          sited_ofExcept (sited_attributeContent.within hg)
      exact hb.bind fun a ha ↦ sited_pure (by simpa using ha)

theorem sited_attributes : Sited E (fun as ↦ ∀ a ∈ as, Attribute.Sited E a) attributes :=
  sited_collect fun _ ↦ sited_attribute?

theorem sited_visibility : Sited E (fun _ ↦ True) visibility := by
  refine (sited_eat (Q := fun _ ↦ True) fun _ _ _ _ ↦ trivial).bind fun i _ ↦ ?_
  cases i with
  | none => exact sited_pure trivial
  | some i =>
    refine (sited_eat (Q := fun _ ↦ True) fun _ _ _ _ ↦ trivial).bind fun g _ ↦ ?_
    cases g with
    | none => exact sited_pure trivial
    | some g => exact sited_pure trivial

/-! ## Fields -/

/-- The attribute of a name among attributes, if there is one, lies at an extent of the kind. -/
theorem sited_find? {as : List Attribute} {p : Attribute → Bool} {a : Attribute}
    (h : ∀ a ∈ as, Attribute.Sited E a) (ha : as.find? p = some a) : a.Sited E :=
  h a (List.mem_of_find?_eq_some ha)

theorem sited_fieldAttributes (s : Settings) :
    Sited E (fun as ↦ ∀ a ∈ as, Attribute.Sited E a) (fieldAttributes s) := by
  refine sited_attributes.bind fun as ha ↦ ?_
  refine (sited_ofExcept (Q := fun _ ↦ True) ?_).bind fun _ _ ↦ sited_pure ha
  unfold refuseNoDisplay
  split
  · next a hf => exact grants_at (sited_find? ha hf).extent rfl
  · exact trivial

theorem sited_typeOfRun {r : AngleRun} (hr : ∀ t ∈ r.run, t.Sited E) :
    Sited E (fun _ ↦ True) (typeOfRun r) := by
  unfold typeOfRun
  split
  · exact sited_failHere rfl
  · exact sited_unexpected _
  · exact sited_pure trivial
  · next t ts _ _ => exact sited_fail (hr t (by simp)).extent rfl

theorem sited_fieldType : Sited E (fun _ ↦ True) fieldType := by
  intro c hc
  refine sited_typeOfRun (fun t ht ↦ hc.rest t ?_) _ (hc.skip _)
  rw [← AngleRun.run_append_rest 0 false c.rest]
  exact List.mem_append_left _ ht

theorem sited_tupleField (s : Settings) (done : List FieldDecl) :
    Sited E (FieldDecl.Sited E) (tupleField s done) :=
  (sited_fieldAttributes s).bind fun _ ha ↦ sited_fieldType.bind fun _ _ ↦
    (sited_eatPunct ",").bind fun _ _ ↦ sited_pure ha

theorem grants_refuseRedeclared (done : List FieldDecl) {name : Ident} (h : E name.extent) :
    Grants E (fun _ ↦ True) (refuseRedeclared done name) := by
  unfold refuseRedeclared
  split
  · exact grants_at h rfl
  · exact trivial

theorem sited_structField (s : Settings) (done : List FieldDecl) :
    Sited E (FieldDecl.Sited E) (structField s done) :=
  (sited_fieldAttributes s).bind fun _ ha ↦ sited_readIdent.bind fun _ hn ↦
    (sited_ofExcept (grants_refuseRedeclared done hn)).bind fun _ _ ↦
      (sited_expectPunct ":").bind fun _ _ ↦ sited_fieldType.bind fun _ _ ↦
        (sited_eatPunct ",").bind fun _ _ ↦ sited_pure ha

theorem grants_fieldDecls (s : Settings) {g : Group} (hg : g.toTree.Sited E) :
    Grants E (fun r ↦ ∀ f ∈ r.2, FieldDecl.Sited E f) (FieldDecl.ofGroup s g) := by
  unfold FieldDecl.ofGroup
  split
  · exact ((sited_many fun _ ↦ sited_tupleField s _).within hg).map fun _ h ↦ h
  · exact ((sited_many fun _ ↦ sited_structField s _).within hg).map fun _ h ↦ h
  · exact grants_at hg.extent rfl

theorem grants_resolve (s : Settings) {variant : Ident} (hv : E variant.extent) (count : Nat)
    (m : CauseMarker) {ms : List (String × Attribute)} (hm : ∀ x ∈ ms, Attribute.Sited E x.2) :
    Grants E (fun _ ↦ True) (FieldDecl.resolve s variant count m ms) := by
  fun_induction FieldDecl.resolve s variant count m ms with
  | case1 => exact trivial
  | case2 => exact grants_at (List.forall_mem_cons.1 hm).1.extent rfl
  | case3 => exact grants_at (List.forall_mem_cons.1 hm).1.extent rfl
  | case4 => exact grants_at hv rfl
  | case5 _ _ _ _ _ _ _ _ ih => exact ih (List.forall_mem_cons.1 hm).2
  | case6 _ _ _ _ _ _ _ ih => exact ih (List.forall_mem_cons.1 hm).2

theorem sited_markers (s : Settings) {fs : List FieldDecl}
    (h : ∀ f ∈ fs, FieldDecl.Sited E f) :
    ∀ x ∈ FieldDecl.markers s fs, Attribute.Sited E x.2 := by
  intro x hx
  obtain ⟨f, hf, hx⟩ := List.mem_flatMap.1 hx
  obtain ⟨a, ha, rfl⟩ := List.mem_map.1 hx
  exact h f hf a (List.mem_filter.1 ha).1

theorem sited_fieldList (s : Settings) {name : Ident} (hn : E name.extent) :
    Sited E (fun _ ↦ True) (fieldList s name) := by
  refine (sited_eat (Q := fun g : Group ↦ g.toTree.Sited E) fun _ _ ht hg ↦
    ht.of_group? (Option.filter_eq_some_iff.1 hg).1).bind fun g hg ↦ ?_
  cases g with
  | none => exact sited_pure trivial
  | some g =>
    exact sited_ofExcept ((grants_fieldDecls s (hg g rfl)).bind fun r hr ↦
      (grants_resolve s hn r.2.length {} (sited_markers s hr)).bind fun _ _ ↦ trivial)

end Parse

/-! ## Messages -/

theorem Attribute.grants_messageText {a : Attribute} (h : a.Sited E) :
    Grants E (fun m : String × Lit ↦ E m.2.extent) a.messageText := by
  unfold messageText
  split
  · next g hg =>
    split
    · refine Parse.Sited.within (Parse.sited_readString.bind fun m hm ↦
        Parse.sited_expectEnd.bind fun _ _ ↦ ?_) (h.args g hg)
      exact Parse.sited_pure (a := m) hm
    · exact grants_at h.extent rfl
  · exact grants_at h.extent rfl

theorem Attribute.grants_messageFrom (s : Settings) {found : Option (String × Lit)}
    {as : List Attribute} (hf : ∀ m ∈ found, E m.2.extent) (ha : ∀ a ∈ as, Attribute.Sited E a) :
    Grants E (fun r ↦ ∀ m ∈ r, E m.2.extent) (messageFrom s found as) := by
  fun_induction messageFrom s found as with
  | case1 => exact hf
  | case2 => exact grants_at (List.forall_mem_cons.1 ha).1.extent rfl
  | case3 a as _ m hm ih =>
    have hg : Grants E (fun m : String × Lit ↦ E m.2.extent) (.ok m) :=
      hm ▸ grants_messageText (List.forall_mem_cons.1 ha).1
    refine ih ?_ (List.forall_mem_cons.1 ha).2
    rintro _ ⟨⟩
    exact hg
  | case4 a as _ r hr =>
    have hg := grants_messageText (List.forall_mem_cons.1 ha).1
    rw [hr] at hg
    exact hg
  | case5 _ _ _ _ ih => exact ih hf (List.forall_mem_cons.1 ha).2

namespace Message

theorem grants_ofTemplate {e : Extent} (he : E e) (template : String) :
    Grants E (fun _ ↦ True) (ofTemplate e.span template) := by
  unfold ofTemplate
  split
  · exact trivial
  · exact grants_at he rfl

theorem grants_ofTuple {e : Extent} (he : E e) (template : String) (count : Nat) :
    Grants E (fun _ ↦ True) (ofTuple e.span template count) := by
  unfold ofTuple
  split
  · exact grants_ofTemplate he _
  · exact grants_at he rfl
  · exact .limit _

theorem grants_ofAttributes (s : Settings) (noDisplay : Bool) {as : List Attribute}
    {name : Ident} (fs : FieldList) (ha : ∀ a ∈ as, Attribute.Sited E a) (hn : E name.extent) :
    Grants E (fun _ ↦ True) (ofAttributes s noDisplay as name fs) := by
  have hf : ∀ m ∈ (none : Option (String × Lit)), E m.2.extent := by simp
  refine (Attribute.grants_messageFrom s hf ha).bind fun r hr ↦ ?_
  cases r with
  | none =>
    cases noDisplay with
    | true => exact trivial
    | false => exact grants_ofTemplate hn _
  | some r =>
    have he := hr r rfl
    cases fs.shape with
    | tuple => exact grants_ofTuple he _ _
    | unit => exact grants_ofTemplate he _
    | struct => exact grants_ofTemplate he _

end Message

/-! ## Items -/

/-- A span that is that of an extent of a kind. -/
def Span.Sited (E : Extent → Prop) (span : Span) : Prop := ∃ e, E e ∧ span = e.span

namespace Parse

theorem grants_refuseOnVariant (s : Settings) {as : List Attribute}
    (ha : ∀ a ∈ as, Attribute.Sited E a) (name : Ident) :
    Grants E (fun _ ↦ True) (refuseOnVariant s as name) := by
  unfold refuseOnVariant
  split
  · next a hf => exact grants_at (sited_find? ha hf).extent rfl
  · exact trivial

theorem sited_variantHead (s : Settings) :
    Sited E (fun h : VariantHead ↦ (∀ a ∈ h.attributes, Attribute.Sited E a) ∧ E h.name.extent)
      (variantHead s) :=
  sited_attributes.bind fun _ ha ↦ sited_readIdent.bind fun name hn ↦
    (sited_ofExcept (grants_refuseOnVariant s ha name)).bind fun _ _ ↦
      (sited_fieldList s hn).bind fun _ _ ↦ (sited_eatPunct ",").bind fun _ _ ↦
        sited_pure ⟨ha, hn⟩

theorem sited_variant (s : Settings) (noDisplay : Bool) :
    Sited E (fun v : Variant ↦ v.span.Sited E) (Parse.variant s noDisplay) := by
  rw [variant_eq]
  refine (sited_variantHead s).bind fun h hh ↦ ?_
  exact (sited_ofExcept (Message.grants_ofAttributes s noDisplay h.fields hh.1 hh.2)).bind
    fun m _ ↦ sited_pure ⟨h.name.extent, hh.2, rfl⟩

theorem sited_variants (s : Settings) (noDisplay : Bool) :
    Sited E (fun vs ↦ ∀ v ∈ vs, Span.Sited E v.span) (variants s noDisplay) :=
  sited_many fun _ ↦ sited_variant s noDisplay

theorem grants_noDisplayFrom (s : Settings) (seen : Bool) {as : List Attribute}
    (ha : ∀ a ∈ as, Attribute.Sited E a) :
    Grants E (fun _ ↦ True) (Attribute.noDisplayFrom s seen as) := by
  fun_induction Attribute.noDisplayFrom s seen as with
  | case1 => exact trivial
  | case2 => exact grants_at (List.forall_mem_cons.1 ha).1.extent rfl
  | case3 => exact grants_at (List.forall_mem_cons.1 ha).1.extent rfl
  | case4 _ _ _ _ _ _ ih => exact ih (List.forall_mem_cons.1 ha).2
  | case5 _ _ _ _ ih => exact ih (List.forall_mem_cons.1 ha).2

theorem sited_itemHead (s : Settings) :
    Sited E (fun h : ItemHead ↦ E h.keyword.extent ∧ h.body.toTree.Sited E) (itemHead s) :=
  sited_attributes.bind fun _ ha ↦
    (sited_ofExcept (grants_noDisplayFrom s false ha)).bind fun _ _ ↦
      sited_visibility.bind fun _ _ ↦ (sited_expectIdent "enum").bind fun _ hk ↦
        sited_readIdent.bind fun _ _ ↦ (sited_expectGroup .brace).bind fun _ hb ↦
          sited_pure ⟨hk, hb⟩

theorem sited_nothingMore : Sited E (fun _ ↦ True) nothingMore := by
  intro c hc
  unfold nothingMore
  split
  · exact ⟨trivial, hc⟩
  · next t ts ht => exact ⟨grants_at (hc.rest t (by simp [ht])).extent rfl, hc⟩

/-- Reads an item, without a check of the messages of its variants. -/
def unchecked (s : Settings) : Parse Definition := do
  let h ← itemHead s
  let vs ← ofExcept (within h.body (variants s h.noDisplay))
  nothingMore
  pure (h.definition vs)

theorem definition_eq_unchecked (s : Settings) :
    Parse.definition s =
      unchecked s >>= fun d ↦
        ofExcept (if d.noDisplay then .ok () else Definition.check d.variants) >>= fun _ ↦
          pure d := by
  simp only [definition_eq, unchecked, bind_assoc, pure_bind]
  rfl

theorem sited_unchecked (s : Settings) :
    Sited E (fun d : Definition ↦ d.span.Sited E ∧ ∀ v ∈ d.variants, v.span.Sited E)
      (unchecked s) :=
  (sited_itemHead s).bind fun h hh ↦
    (sited_ofExcept ((sited_variants s h.noDisplay).within hh.2)).bind fun _ hv ↦
      sited_nothingMore.bind fun _ _ ↦ sited_pure ⟨⟨h.keyword.extent, hh.1, rfl⟩, hv⟩

end Parse

namespace Definition

variable {vs : List Variant} {r : Refusal}

theorem checkMessages_eq_error (h : checkMessages vs = .error r) :
    ∃ v ∈ vs, ∃ cause, cause.concernsMessages = true ∧ r = .at v.span cause := by
  unfold checkMessages at h
  split at h
  · cases h
  · next v more hf =>
    cases h
    have hv : v ∈ vs.filter (·.template.isEmpty) := by simp [hf]
    exact ⟨v, (List.mem_filter.1 hv).1, _, rfl, rfl⟩

theorem checkNames_eq_error (h : checkNames vs = .error r) :
    ∃ v ∈ vs, ∃ cause, cause.concernsMessages = true ∧ r = .at v.span cause := by
  fun_induction checkNames vs with
  | case1 => cases h
  | case2 v vs name hn =>
    cases h
    refine ⟨v, by simp, _, ?_, rfl⟩
    unfold strangeCause
    split
    · rfl
    · rfl
  | case3 v vs hn ih =>
    obtain ⟨w, hw, hr⟩ := ih h
    exact ⟨w, List.mem_cons_of_mem v hw, hr⟩

/-- The check of messages is refused at a variant, for a cause that concerns messages. -/
theorem check_eq_error (h : check vs = .error r) :
    ∃ v ∈ vs, ∃ cause, cause.concernsMessages = true ∧ r = .at v.span cause := by
  rcases Except.bind_eq_error_iff.1 h with h | ⟨_, -, h⟩
  · exact checkMessages_eq_error h
  · exact checkNames_eq_error h

/-- What a source text is read as before the messages of its variants are checked. -/
def draft (s : Settings) (label : Option String) (source : String) : Except Refusal Definition :=
  match Tree.read label source with
  | .ok trees => (Parse.unchecked s (Cursor.ofSource label source trees)).1
  | .error u => .error u.refusal

/-- A definition is a draft that passes the check. -/
theorem parse_eq (s : Settings) (label : Option String) (source : String) :
    parse s label source =
      draft s label source >>= fun d ↦
        (if d.noDisplay then .ok () else check d.variants) >>= fun _ ↦ .ok d := by
  unfold parse draft
  cases Tree.read label source with
  | error u => rfl
  | ok ts =>
    simp only [Parse.definition_eq_unchecked, Parse.bind_apply, Parse.ofExcept]
    rcases Parse.unchecked s (Cursor.ofSource label source ts) with ⟨r | d, e⟩
    · rfl
    · change _ = ((if d.noDisplay then .ok () else check d.variants) >>= fun _ ↦ .ok d)
      simp only
      generalize (if d.noDisplay then Except.ok () else check d.variants) = x
      cases x with
      | error r => rfl
      | ok _ => rfl

theorem draft_of_parse {s : Settings} {label : Option String} {source : String} {d : Definition}
    (h : parse s label source = .ok d) : draft s label source = .ok d := by
  rw [parse_eq] at h
  obtain ⟨x, hx, h⟩ := Except.bind_eq_ok_iff.1 h
  obtain ⟨_, -, h⟩ := Except.bind_eq_ok_iff.1 h
  cases h
  exact hx

end Definition

end ErrorDerive
