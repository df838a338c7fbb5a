import ErrorDerive.Item.Definition
import ErrorDerive.Proofs.Parsing.Steps

/-!
# What an item is read from

An item that is read has a head, and a run of the loop over the trees of its body yields its
variants; a variant has a head and a message.  The heads are steps of their own here, so that what
is read before a message can be told from the message.
-/

namespace ErrorDerive

/-- What is read of a variant before its message is looked at. -/
structure VariantHead where
  attributes : List Attribute
  name : Ident
  fields : FieldList

/-- What is read of an item before its variants. -/
structure ItemHead where
  noDisplay : Bool
  keyword : Ident
  name : Ident
  body : Group

namespace Parse

/-- Reads the head of a variant. -/
def variantHead (s : Settings) : Parse VariantHead := do
  let as ← attributes
  let name ← readIdent
  ofExcept (refuseOnVariant s as name)
  let fs ← fieldList s name
  let _ ← eatPunct ","
  pure ⟨as, name, fs⟩

/-- Reads the head of an item. -/
def itemHead (s : Settings) : Parse ItemHead := do
  let as ← attributes
  let noDisplay ← ofExcept (Attribute.noDisplay s as)
  let _ ← visibility
  let keyword ← expectIdent "enum"
  let name ← readIdent
  let body ← expectGroup .brace
  pure ⟨noDisplay, keyword, name, body⟩

/-- Reads the head of an item from behind its attributes. -/
def itemRest (noDisplay : Bool) : Parse ItemHead := do
  let _ ← visibility
  let keyword ← expectIdent "enum"
  let name ← readIdent
  let body ← expectGroup .brace
  pure ⟨noDisplay, keyword, name, body⟩

end Parse

namespace VariantHead

/-- The message of a variant with a head. -/
def message (s : Settings) (noDisplay : Bool) (h : VariantHead) : Except Refusal Message :=
  Message.ofAttributes s noDisplay h.attributes h.name h.fields

/-- The variant of a head and a message. -/
def variant (h : VariantHead) (m : Message) : Variant where
  name := h.name.text
  shape := h.fields.shape
  fields := h.fields.fields
  template := m.template
  displayFields := m.names
  cause := h.fields.cause
  span := h.name.extent.span

end VariantHead

/-- The definition of a head and variants. -/
def ItemHead.definition (h : ItemHead) (vs : List Variant) : Definition where
  name := h.name.text
  variants := vs
  span := h.keyword.extent.span
  noDisplay := h.noDisplay

namespace Tree

theorem ident?_eq_some_iff {t : Tree} {i : Ident} : t.ident? = some i ↔ t = i.toTree := by
  constructor
  · intro h
    unfold ident? at h
    split at h
    · cases h; rfl
    · cases h
  · rintro rfl
    rfl

theorem punct?_eq_some_iff {t : Tree} {p : Punct} : t.punct? = some p ↔ t = p.toTree := by
  constructor
  · intro h
    unfold punct? at h
    split at h
    · cases h; rfl
    · cases h
  · rintro rfl
    rfl

theorem group?_eq_some_iff {t : Tree} {g : Group} : t.group? = some g ↔ t = g.toTree := by
  constructor
  · intro h
    unfold group? at h
    split at h
    · cases h; rfl
    · cases h
  · rintro rfl
    rfl

end Tree

namespace Parse

variable {s : Settings} {noDisplay : Bool} {c d : Cursor}

theorem brackets?_eq_some_iff {delimiter : Delimiter} {t : Tree} {g : Group} :
    brackets? delimiter t = some g ↔ t = g.toTree ∧ g.delimiter = delimiter := by
  rw [brackets?, Option.filter_eq_some_iff, Tree.group?_eq_some_iff, beq_iff_eq]

theorem mark?_eq_some_iff {mark : String} {t : Tree} {p : Punct} :
    mark? mark t = some p ↔ t = .leaf p.extent (.punct mark p.joint) ∧ p.mark = mark := by
  rw [mark?, Option.filter_eq_some_iff, Tree.punct?_eq_some_iff, beq_iff_eq]
  refine and_congr_left fun h ↦ ?_
  rw [Punct.toTree, h]

theorem fieldGroup?_eq_some_iff {t : Tree} {g : Group} :
    fieldGroup? t = some g ↔
      t = g.toTree ∧ (g.delimiter = .paren ∨ g.delimiter = .brace) := by
  rw [fieldGroup?, Option.filter_eq_some_iff, Tree.group?_eq_some_iff, Bool.or_eq_true,
    beq_iff_eq, beq_iff_eq]

theorem forward_visibility : Forward visibility := by
  apply (forward_eat _).bind
  intro i
  cases i with
  | none => exact forward_pure _
  | some i =>
    apply (forward_eat _).bind
    intro g
    cases g with
    | none => exact forward_pure _
    | some g => exact forward_pure _

theorem variant_eq (s : Settings) (noDisplay : Bool) :
    Parse.variant s noDisplay =
      variantHead s >>= fun h ↦
        ofExcept (h.message s noDisplay) >>= fun m ↦ pure (h.variant m) := by
  simp only [Parse.variant, variantHead, bind_assoc, pure_bind]
  rfl

theorem definition_eq (s : Settings) :
    Parse.definition s =
      itemHead s >>= fun h ↦
        ofExcept (within h.body (variants s h.noDisplay)) >>= fun vs ↦
          nothingMore >>= fun _ ↦
            ofExcept (if h.noDisplay then .ok () else Definition.check vs) >>= fun _ ↦
              pure (h.definition vs) := by
  simp only [Parse.definition, itemHead, bind_assoc, pure_bind]
  rfl

theorem itemHead_eq (s : Settings) :
    itemHead s = attributes >>= fun as ↦ ofExcept (Attribute.noDisplay s as) >>= itemRest := rfl

/-! ## Variants -/

theorem variant_eq_ok_iff {v : Variant} :
    Parse.variant s noDisplay c = (.ok v, d) ↔
      ∃ h m, variantHead s c = (.ok h, d) ∧ h.message s noDisplay = .ok m ∧ h.variant m = v := by
  rw [variant_eq, bind_eq_ok_iff]
  constructor
  · rintro ⟨h, e, hh, hx⟩
    obtain ⟨m, f, hx, hv⟩ := bind_eq_ok_iff.1 hx
    obtain ⟨hm, rfl⟩ := ofExcept_eq_iff.1 hx
    obtain ⟨rfl, rfl⟩ := pure_eq_ok_iff.1 hv
    exact ⟨h, m, hh, hm, rfl⟩
  · rintro ⟨h, m, hh, hm, rfl⟩
    exact ⟨h, d, hh, bind_eq_ok_iff.2 ⟨m, d, ofExcept_eq_iff.2 ⟨hm, rfl⟩, rfl⟩⟩

theorem variant_eq_error_iff {r : Refusal} :
    Parse.variant s noDisplay c = (.error r, d) ↔
      variantHead s c = (.error r, d) ∨
        ∃ h, variantHead s c = (.ok h, d) ∧ h.message s noDisplay = .error r := by
  rw [variant_eq, bind_eq_error_iff]
  refine or_congr_right ?_
  constructor
  · rintro ⟨h, e, hh, hx⟩
    rcases bind_eq_error_iff.1 hx with hx | ⟨m, f, -, hv⟩
    · obtain ⟨hm, rfl⟩ := ofExcept_eq_iff.1 hx
      exact ⟨h, hh, hm⟩
    · cases hv
  · rintro ⟨h, hh, hm⟩
    exact ⟨h, d, hh, bind_eq_error_iff.2 (.inl (ofExcept_eq_iff.2 ⟨hm, rfl⟩))⟩

/-- The name of a variant stands behind its attributes, and its fields in the group behind the
name. -/
theorem variantHead_eq_ok {h : VariantHead} (hh : variantHead s c = (.ok h, d)) :
    ∃ e, c.Before e ∧
      ((h.fields = ⟨.unit, [], {}⟩ ∧ ∃ ts, e.rest = h.name.toTree :: ts) ∨
        ∃ g ts, e.rest = h.name.toTree :: g.toTree :: ts ∧
          FieldList.ofGroup s h.name g = .ok h.fields) := by
  obtain ⟨as, e, h₁, hh⟩ := bind_eq_ok_iff.1 hh
  obtain ⟨name, e₂, h₂, hh⟩ := bind_eq_ok_iff.1 hh
  obtain ⟨_, e₃, h₃, hh⟩ := bind_eq_ok_iff.1 hh
  obtain ⟨fs, e₄, h₄, hh⟩ := bind_eq_ok_iff.1 hh
  obtain ⟨_, _, -, hh⟩ := bind_eq_ok_iff.1 hh
  cases hh
  obtain ⟨-, rfl⟩ := ofExcept_eq_iff.1 h₃
  obtain ⟨⟨t, ts, ht, hi⟩, rfl⟩ := expect_eq_ok_iff.1 h₂
  obtain rfl := Tree.ident?_eq_some_iff.1 hi
  have hb := forward_attributes c
  rw [h₁] at hb
  refine ⟨e, hb, ?_⟩
  obtain ⟨r, e₅, h₅, h₄⟩ := bind_eq_ok_iff.1 h₄
  cases r with
  | none =>
    cases h₄
    exact .inl ⟨rfl, ts, ht⟩
  | some g =>
    obtain ⟨⟨u, us, hu, hg⟩, rfl⟩ := eat_eq_some_iff.1 h₅
    obtain ⟨rfl, -⟩ := fieldGroup?_eq_some_iff.1 hg
    have hts : ts = g.toTree :: us := by simpa [Cursor.skip, ht] using hu
    exact .inr ⟨g, us, by rw [ht, hts], (ofExcept_eq_iff.1 h₄).1⟩

/-- The runs of the loop over the variants in a body. -/
abbrev VariantRun (s : Settings) (noDisplay : Bool) (body : Group) :
    List Variant → Cursor → Prop :=
  Run (fun _ ↦ ifMore (Parse.variant s noDisplay)) (Cursor.ofGroup body)

theorem variants_eq_ok_iff {body : Group} {vs : List Variant} :
    within body (variants s noDisplay) = .ok vs ↔
      ∃ c, VariantRun s noDisplay body vs c ∧ c.rest = [] := by
  simp only [within_eq_iff, variants, many_eq_ok_iff]

theorem variants_eq_error_iff {body : Group} {r : Refusal} :
    within body (variants s noDisplay) = .error r ↔
      ∃ vs c d, VariantRun s noDisplay body vs c ∧ c.rest ≠ [] ∧
        Parse.variant s noDisplay c = (.error r, d) := by
  simp only [within_eq_iff, variants, many_eq_error_iff]
  constructor
  · rintro ⟨d, vs, c, hv⟩
    exact ⟨vs, c, d, hv⟩
  · rintro ⟨vs, c, d, hv⟩
    exact ⟨d, vs, c, hv⟩

/-- Each variant that a run collects was read from a head behind the start of the body. -/
theorem VariantRun.exists_head {body : Group} {vs : List Variant}
    (hr : VariantRun s noDisplay body vs c) {v : Variant} (hv : v ∈ vs) :
    ∃ h m e f, (Cursor.ofGroup body).Before e ∧ variantHead s e = (.ok h, f) ∧
      h.message s noDisplay = .ok m ∧ h.variant m = v := by
  obtain ⟨-, e, f, hb, hs⟩ := hr.exists_step
    (fun _ ↦ forward_ifMore (forward_variant s noDisplay)) hv
  obtain ⟨-, hs⟩ := ifMore_eq_some_iff.1 hs
  obtain ⟨h, m, hh, hm, hv⟩ := variant_eq_ok_iff.1 hs
  exact ⟨h, m, e, f, hb, hh, hm, hv⟩

/-! ## Items -/

theorem nothingMore_eq_ok_iff {u : Unit} :
    nothingMore c = (.ok u, d) ↔ c.rest = [] ∧ c = d := by
  unfold nothingMore
  rcases hc : c.rest with _ | ⟨t, ts⟩ <;> simp

/-- The name and the body of an item are among its trees. -/
theorem itemHead_eq_ok {h : ItemHead} (hh : itemHead s c = (.ok h, d)) :
    h.name.toTree ∈ c.rest ∧ h.body.toTree ∈ c.rest := by
  obtain ⟨as, e₁, h₁, hh⟩ := bind_eq_ok_iff.1 hh
  obtain ⟨_, e₂, h₂, hh⟩ := bind_eq_ok_iff.1 hh
  obtain ⟨_, e₃, h₃, hh⟩ := bind_eq_ok_iff.1 hh
  obtain ⟨_, e₄, h₄, hh⟩ := bind_eq_ok_iff.1 hh
  obtain ⟨name, e₅, h₅, hh⟩ := bind_eq_ok_iff.1 hh
  obtain ⟨body, e₆, h₆, hh⟩ := bind_eq_ok_iff.1 hh
  cases hh
  obtain ⟨-, rfl⟩ := ofExcept_eq_iff.1 h₂
  have hs₄ : e₄.rest <:+ c.rest :=
    ((forward_expect _ _).suffix h₄).trans
      ((forward_visibility.suffix h₃).trans (forward_attributes.suffix h₁))
  have hs₅ : e₅.rest <:+ c.rest := ((forward_expect _ _).suffix h₅).trans hs₄
  obtain ⟨⟨t, ts, ht, hi⟩, -⟩ := expect_eq_ok_iff.1 h₅
  obtain ⟨⟨u, us, hu, hg⟩, -⟩ := expect_eq_ok_iff.1 h₆
  obtain rfl := Tree.ident?_eq_some_iff.1 hi
  obtain ⟨rfl, -⟩ := brackets?_eq_some_iff.1 hg
  exact ⟨hs₄.subset (by simp [ht]), hs₅.subset (by simp [hu])⟩

theorem definition_eq_ok_iff {x : Definition} :
    Parse.definition s c = (.ok x, d) ↔
      ∃ h vs, itemHead s c = (.ok h, d) ∧ within h.body (variants s h.noDisplay) = .ok vs ∧
        d.rest = [] ∧ (h.noDisplay = false → Definition.check vs = .ok ()) ∧
          h.definition vs = x := by
  rw [definition_eq, bind_eq_ok_iff]
  constructor
  · rintro ⟨h, e, hh, hx⟩
    obtain ⟨vs, e₁, h₁, hx⟩ := bind_eq_ok_iff.1 hx
    obtain ⟨hv, rfl⟩ := ofExcept_eq_iff.1 h₁
    obtain ⟨⟨⟩, e₂, h₂, hx⟩ := bind_eq_ok_iff.1 hx
    obtain ⟨hn, rfl⟩ := nothingMore_eq_ok_iff.1 h₂
    obtain ⟨⟨⟩, e₃, h₃, hx⟩ := bind_eq_ok_iff.1 hx
    obtain ⟨hc, rfl⟩ := ofExcept_eq_iff.1 h₃
    obtain ⟨rfl, rfl⟩ := pure_eq_ok_iff.1 hx
    exact ⟨h, vs, hh, hv, hn, fun hd ↦ by simpa [hd] using hc, rfl⟩
  · rintro ⟨h, vs, hh, hv, hn, hc, rfl⟩
    refine ⟨h, d, hh, bind_eq_ok_iff.2 ⟨vs, d, ofExcept_eq_iff.2 ⟨hv, rfl⟩,
      bind_eq_ok_iff.2 ⟨(), d, nothingMore_eq_ok_iff.2 ⟨hn, rfl⟩,
        bind_eq_ok_iff.2 ⟨(), d, ofExcept_eq_iff.2 ⟨?_, rfl⟩, rfl⟩⟩⟩⟩
    cases hd : h.noDisplay with
    | true => rfl
    | false => simpa using hc hd

end Parse

/-- A definition is read from a text with a head, and with variants in the head's body. -/
theorem Definition.parse_eq_ok_iff {s : Settings} {label : Option String} {source : String}
    {x : Definition} :
    Definition.parse s label source = .ok x ↔
      ∃ ts h e vs, Tree.read label source = .ok ts ∧
        Parse.itemHead s (Cursor.ofSource label source ts) = (.ok h, e) ∧
          Parse.within h.body (Parse.variants s h.noDisplay) = .ok vs ∧ e.rest = [] ∧
            (h.noDisplay = false → Definition.check vs = .ok ()) ∧ h.definition vs = x := by
  unfold Definition.parse
  cases Tree.read label source with
  | error u => simp
  | ok ts =>
    rcases hd : Parse.definition s (Cursor.ofSource label source ts) with ⟨y, d⟩
    simp only [Except.ok.injEq, hd]
    constructor
    · rintro rfl
      obtain ⟨h, vs, hx⟩ := Parse.definition_eq_ok_iff.1 hd
      exact ⟨ts, h, d, vs, rfl, hx⟩
    · rintro ⟨_, h, e, vs, rfl, hx⟩
      have := Parse.definition_eq_ok_iff.2 ⟨h, vs, hx⟩
      cases hd.symm.trans this
      rfl

end ErrorDerive
