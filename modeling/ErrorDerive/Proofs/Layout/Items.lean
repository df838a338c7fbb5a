import ErrorDerive.Item.Definition
import ErrorDerive.Proofs.Layout.Steps

/-!
# Items of like trees

Two runs over like trees read the same fields, variants and definitions but for their spans, or
refuse them for the same cause.
-/

namespace ErrorDerive

open List (Forall₂)

theorem rel_find? {α : Type} {R : α → α → Prop} {p : α → Bool} {xs xs' : List α}
    (h : Forall₂ R xs xs') (hp : ∀ a a', R a a' → p a = p a') :
    Option.Rel R (xs.find? p) (xs'.find? p) := by
  induction h with
  | nil => exact .none
  | @cons a a' _ _ ha _ ih =>
    rw [List.find?_cons, List.find?_cons, hp a a' ha]
    split
    · exact .some ha
    · exact ih

theorem map_eq_iff_forall₂ {α β : Type} {f : α → β} {xs xs' : List α} :
    xs.map f = xs'.map f ↔ Forall₂ (fun a a' ↦ f a = f a') xs xs' := by
  rw [← List.forall₂_eq_eq_eq, List.forall₂_map_left_iff, List.forall₂_map_right_iff]

/-! ## Fields -/

/-- Declarations that differ in their places only. -/
structure FieldDecl.Alike (f f' : FieldDecl) : Prop where
  key : f.key = f'.key
  type : f.type.text = f'.type.text
  attributes : Forall₂ Attribute.Alike f.attributes f'.attributes

namespace Parse

variable {s : Settings} {as as' : List Attribute} {fs fs' : List FieldDecl} {i i' : Ident}

theorem agree_refuseNoDisplay (h : Forall₂ Attribute.Alike as as') :
    ErrorDerive.Agree Eq (refuseNoDisplay s as) (refuseNoDisplay s as') := by
  have hf := rel_find? (p := fun a ↦ a.name == s.noDisplayName) h fun _ _ ha ↦ by rw [ha.name]
  unfold refuseNoDisplay
  generalize as.find? _ = x at hf
  generalize as'.find? _ = x' at hf
  cases hf with
  | none => exact .ok rfl
  | some ha =>
    simp only [ha.name]
    exact .errorAt _ _ _

theorem agree_fieldAttributes :
    Agree (Forall₂ Attribute.Alike) (fieldAttributes s) (fieldAttributes s) :=
  agree_attributes.bind fun _ _ ha ↦
    (agree_ofExcept (agree_refuseNoDisplay ha)).bind fun _ _ _ ↦ agree_pure ha

theorem agree_tupleField (h : Forall₂ FieldDecl.Alike fs fs') :
    Agree FieldDecl.Alike (tupleField s fs) (tupleField s fs') := by
  refine agree_fieldAttributes.bind fun as as' ha ↦ agree_fieldType.bind fun t t' ht ↦ ?_
  refine (agree_eat (agreeOn_mark? ",")).bind fun _ _ _ ↦ agree_pure ⟨?_, ht, ha⟩
  rw [h.length_eq]

theorem agree_refuseRedeclared (h : Forall₂ FieldDecl.Alike fs fs') (hi : i.Alike i') :
    ErrorDerive.Agree Eq (refuseRedeclared fs i) (refuseRedeclared fs' i') := by
  have ha : fs.any (·.key == i.text) = fs'.any (·.key == i'.text) := by
    rw [hi]
    induction h with
    | nil => rfl
    | cons hf _ ih => rw [List.any_cons, List.any_cons, hf.key, ih]
  unfold refuseRedeclared
  rw [ha, hi]
  split
  · exact .errorAt _ _ _
  · exact .ok rfl

theorem agree_structField (h : Forall₂ FieldDecl.Alike fs fs') :
    Agree FieldDecl.Alike (structField s fs) (structField s fs') := by
  refine agree_fieldAttributes.bind fun as as' ha ↦ agree_readIdent.bind fun i i' hi ↦ ?_
  refine (agree_ofExcept (agree_refuseRedeclared h hi)).bind fun _ _ _ ↦ ?_
  refine (agree_expect (agreeOn_mark? ":") _).bind fun _ _ _ ↦ agree_fieldType.bind fun t t' ht ↦ ?_
  exact (agree_eat (agreeOn_mark? ",")).bind fun _ _ _ ↦ agree_pure ⟨hi, ht, ha⟩

end Parse

namespace FieldDecl

variable {s : Settings} {fs fs' : List FieldDecl} {i i' : Ident} {g g' : Group}

/-- Markers that differ in their places only. -/
def MarkerAlike (x x' : String × Attribute) : Prop := x.1 = x'.1 ∧ x.2.Alike x'.2

theorem markers_alike (h : Forall₂ Alike fs fs') :
    Forall₂ MarkerAlike (markers s fs) (markers s fs') := by
  induction h with
  | nil => exact .nil
  | @cons f f' _ _ hf _ ih =>
    unfold markers at ih ⊢
    rw [List.flatMap_cons, List.flatMap_cons]
    refine List.rel_append ?_ ih
    have ha : Forall₂ Attribute.Alike (f.attributes.filter (s.causeNames.contains ·.name))
        (f'.attributes.filter (s.causeNames.contains ·.name)) :=
      List.rel_filter (fun a a' ha ↦ by simp only [ha.name]) hf.attributes
    exact List.rel_map (fun a a' ha ↦ ⟨hf.key, ha⟩) ha

theorem agree_resolve {ms ms' : List (String × Attribute)} (h : Forall₂ MarkerAlike ms ms')
    (count : Nat) (m : CauseMarker) :
    Agree Eq (resolve s i count m ms) (resolve s i' count m ms') := by
  induction h generalizing m with
  | nil => exact .ok rfl
  | @cons x x' _ _ hx _ ih =>
    obtain ⟨key, a⟩ := x
    obtain ⟨key', a'⟩ := x'
    obtain ⟨hk, ha⟩ := hx
    obtain rfl : key = key' := hk
    have ha : a.Alike a' := ha
    rw [resolve, resolve]
    split
    · exact .errorAt _ _ _
    · rw [ha.isBare, ha.name]
      split
      · exact .errorAt _ _ _
      · split
        · split
          · exact .errorAt _ _ _
          · exact ih _
        · exact ih _

theorem agree_cause (h : Forall₂ Alike fs fs') : Agree Eq (cause s i fs) (cause s i' fs') := by
  unfold cause
  rw [h.length_eq]
  exact agree_resolve (markers_alike h) _ _

theorem table_eq_of_alike (h : Forall₂ Alike fs fs') : table fs = table fs' := by
  refine congrArg Keyed.ofPairs (map_eq_iff_forall₂.2 (h.imp fun f f' hf ↦ ?_))
  rw [hf.key, hf.type]

theorem agree_ofGroup (h : g.Alike g') :
    Agree (fun x x' ↦ x.1 = x'.1 ∧ Forall₂ Alike x.2 x'.2) (ofGroup s g) (ofGroup s g') := by
  unfold ofGroup
  rw [h.delimiter]
  split
  · exact ((Parse.agree_many fun _ _ hd ↦ Parse.agree_tupleField hd).within h).map
      fun _ _ hf ↦ ⟨rfl, hf⟩
  · exact ((Parse.agree_many fun _ _ hd ↦ Parse.agree_structField hd).within h).map
      fun _ _ hf ↦ ⟨rfl, hf⟩
  · exact .errorAt _ _ _

end FieldDecl

theorem FieldList.agree_ofGroup {s : Settings} {i i' : Ident} {g g' : Group} (h : g.Alike g') :
    Agree Eq (ofGroup s i g) (ofGroup s i' g') := by
  refine (FieldDecl.agree_ofGroup h).bind fun ⟨shape, fs⟩ ⟨shape', fs'⟩ hx ↦ ?_
  obtain ⟨rfl, hf⟩ : shape = shape' ∧ Forall₂ FieldDecl.Alike fs fs' := hx
  refine (FieldDecl.agree_cause hf).bind fun m m' hm ↦ .ok ?_
  rw [FieldDecl.table_eq_of_alike hf, hm]

/-! ## Messages -/

namespace Attribute

variable {s : Settings} {as as' : List Attribute} {a a' : Attribute}

/-- Texts of messages that differ in their places only. -/
def TextAlike (x x' : String × Lit) : Prop := x.1 = x'.1 ∧ x.2.Alike x'.2

theorem agree_messageText (h : a.Alike a') :
    Agree TextAlike a.messageText a'.messageText := by
  unfold messageText
  have hg := h.args
  generalize a.args = x at hg
  generalize a'.args = x' at hg
  cases hg with
  | none =>
    rw [h.name]
    exact .errorAt _ _ _
  | some hg =>
    simp only [hg.delimiter, h.name]
    split
    · exact (Parse.agree_readString.bind fun _ _ hm ↦
        Parse.agree_expectEnd.bind fun _ _ _ ↦ Parse.agree_pure hm).within hg
    · exact .errorAt _ _ _

theorem agree_messageFrom (h : Forall₂ Alike as as') {found found' : Option (String × Lit)}
    (hf : Option.Rel TextAlike found found') :
    Agree (Option.Rel TextAlike) (messageFrom s found as) (messageFrom s found' as') := by
  induction h generalizing found found' with
  | nil => exact .ok hf
  | @cons a a' _ _ ha _ ih =>
    rw [messageFrom.eq_def, messageFrom.eq_def s found']
    simp only [ha.name]
    split
    · cases hf with
      | some _ => exact .errorAt _ _ _
      | none =>
        have hm := agree_messageText ha
        simp only
        generalize a.messageText = x at hm
        generalize a'.messageText = x' at hm
        cases hm with
        | ok hm => exact ih (.some hm)
        | error hr => exact .error hr
    · exact ih hf

theorem docs_eq (h : Forall₂ Alike as as') :
    (as.filter (·.name == "doc")).filterMap doc = (as'.filter (·.name == "doc")).filterMap doc := by
  induction h with
  | nil => rfl
  | cons ha _ ih =>
    rw [List.filter_cons, List.filter_cons, ha.name]
    split
    · rw [List.filterMap_cons, List.filterMap_cons, ha.doc, ih]
    · exact ih

theorem documentation_eq (h : Forall₂ Alike as as') : documentation as = documentation as' := by
  rw [documentation, documentation, docs_eq h]

theorem agree_noDisplayFrom (h : Forall₂ Alike as as') (seen : Bool) :
    Agree Eq (noDisplayFrom s seen as) (noDisplayFrom s seen as') := by
  induction h generalizing seen with
  | nil => exact .ok rfl
  | cons ha _ ih =>
    rw [noDisplayFrom, noDisplayFrom, ha.name, ha.isBare]
    split
    · split
      · exact .errorAt _ _ _
      · split
        · exact .errorAt _ _ _
        · exact ih _
    · exact ih _

end Attribute

namespace Message

theorem agree_ofTemplate (span span' : Span) (template : String) :
    Agree Eq (ofTemplate span template) (ofTemplate span' template) := by
  unfold ofTemplate
  split
  · exact .ok rfl
  · exact .errorAt _ _ _

theorem agree_ofTuple (span span' : Span) (template : String) (count : Nat) :
    Agree Eq (ofTuple span template count) (ofTuple span' template count) := by
  unfold ofTuple
  split
  · exact agree_ofTemplate _ _ _
  · exact .errorAt _ _ _
  · exact .error (.limit _)

theorem agree_ofAttributes {s : Settings} {noDisplay : Bool} {as as' : List Attribute}
    {i i' : Ident} {fs : FieldList} (h : Forall₂ Attribute.Alike as as') :
    Agree Eq (ofAttributes s noDisplay as i fs) (ofAttributes s noDisplay as' i' fs) := by
  refine (Attribute.agree_messageFrom h .none).bind fun m m' hm ↦ ?_
  cases hm with
  | none =>
    simp only [Attribute.documentation_eq h]
    split
    · exact .ok rfl
    · exact agree_ofTemplate _ _ _
  | @some x x' hx =>
    obtain ⟨text, lit⟩ := x
    obtain ⟨text', lit'⟩ := x'
    obtain rfl : text = text' := hx.1
    simp only
    split
    · exact agree_ofTuple _ _ _ _
    · exact agree_ofTemplate _ _ _

end Message

/-! ## Variants and definitions -/

/-- A variant without its place. -/
def Variant.unplaced (v : Variant) : Variant := { v with span := {} }

/-- A definition without its places. -/
def Definition.unplaced (d : Definition) : Definition :=
  { d with variants := d.variants.map Variant.unplaced, span := {} }

/-- Variants that differ in their places only. -/
def Variant.Alike (v v' : Variant) : Prop := v.unplaced = v'.unplaced

namespace Variant.Alike

variable {v v' : Variant}

/-- Whatever does not look at the span is the same. -/
theorem eq {β : Type} (h : v.Alike v') (f : Variant → β) (hf : ∀ v, f v.unplaced = f v) :
    f v = f v' := by
  rw [← hf v, ← hf v', h]

theorem name (h : v.Alike v') : v.name = v'.name := h.eq Variant.name fun _ ↦ rfl

theorem template (h : v.Alike v') : v.template = v'.template := h.eq Variant.template fun _ ↦ rfl

theorem displayFields (h : v.Alike v') : v.displayFields = v'.displayFields :=
  h.eq Variant.displayFields fun _ ↦ rfl

theorem displayNames (h : v.Alike v') : v.displayNames = v'.displayNames :=
  h.eq Variant.displayNames fun _ ↦ rfl

end Variant.Alike

namespace Parse

variable {s : Settings} {as as' : List Attribute} {i i' : Ident}

theorem agree_refuseOnVariant (h : Forall₂ Attribute.Alike as as') (hi : i.Alike i') :
    ErrorDerive.Agree Eq (refuseOnVariant s as i) (refuseOnVariant s as' i') := by
  have hf := rel_find? (p := fun a ↦ a.name == s.noDisplayName) h fun _ _ ha ↦ by rw [ha.name]
  unfold refuseOnVariant
  rw [hi]
  generalize as.find? _ = x at hf
  generalize as'.find? _ = x' at hf
  cases hf with
  | none => exact .ok rfl
  | some ha =>
    simp only [ha.name]
    exact .errorAt _ _ _

theorem agreeOn_fieldGroup? : AgreeOn Group.Alike fieldGroup? :=
  agreeOn_group?.filter fun g g' h ↦ by rw [h.delimiter]

theorem agree_fieldList : Agree Eq (fieldList s i) (fieldList s i') := by
  refine (agree_eat agreeOn_fieldGroup?).bind fun g g' hg ↦ ?_
  cases hg with
  | none => exact agree_pure rfl
  | some hg => exact agree_ofExcept (FieldList.agree_ofGroup hg)

theorem agree_variant (noDisplay : Bool) :
    Agree Variant.Alike (variant s noDisplay) (variant s noDisplay) := by
  refine agree_attributes.bind fun as as' ha ↦ agree_readIdent.bind fun i i' hi ↦ ?_
  refine (agree_ofExcept (agree_refuseOnVariant ha hi)).bind fun _ _ _ ↦ ?_
  refine agree_fieldList.bind fun fs fs' hf ↦ ?_
  obtain rfl : fs = fs' := hf
  refine (agree_eat (agreeOn_mark? ",")).bind fun _ _ _ ↦ ?_
  refine (agree_ofExcept (Message.agree_ofAttributes ha)).bind fun m m' hm ↦ agree_pure ?_
  obtain rfl : m = m' := hm
  have hi : i.text = i'.text := hi
  simp only [Variant.Alike, Variant.unplaced, hi]

theorem agree_nothingMore : Agree Eq nothingMore nothingMore := by
  intro c c' hc
  unfold nothingMore
  rcases Tree.Alike.cases hc with ⟨h, h'⟩ | ⟨t, ts, t', ts', h, h', hm, -⟩
  · rw [h, h']
    exact .ok rfl hc
  · rw [h, h']
    simp only [hm.describe]
    exact .error (.at _ _ _)

end Parse

namespace Definition

variable {vs vs' : List Variant}

theorem agree_checkMessages (h : Forall₂ Variant.Alike vs vs') :
    Agree Eq (checkMessages vs) (checkMessages vs') := by
  have hf : Forall₂ Variant.Alike (vs.filter (·.template.isEmpty))
      (vs'.filter (·.template.isEmpty)) :=
    List.rel_filter (fun v v' hv ↦ by simp only [hv.template]) h
  unfold checkMessages
  generalize vs.filter _ = xs at hf
  generalize vs'.filter _ = xs' at hf
  cases hf with
  | nil => exact .ok rfl
  | cons hv hs =>
    have hn := map_eq_iff_forall₂.2 (hs.imp fun _ _ hv ↦ Variant.Alike.name hv)
    simp only [hv.name, hn]
    exact .errorAt _ _ _

theorem agree_checkNames (h : Forall₂ Variant.Alike vs vs') :
    Agree Eq (checkNames vs) (checkNames vs') := by
  induction h with
  | nil => exact .ok rfl
  | @cons v v' _ _ hv _ ih =>
    have hs : strangeName? v = strangeName? v' := by
      rw [strangeName?, strangeName?, hv.displayFields, hv.displayNames]
    rw [checkNames, checkNames, hs]
    split
    · rw [strangeCause, strangeCause, hv.name]
      exact .errorAt _ _ _
    · exact ih

theorem agree_check (h : Forall₂ Variant.Alike vs vs') : Agree Eq (check vs) (check vs') :=
  (agree_checkMessages h).bind fun _ _ _ ↦ agree_checkNames h

end Definition

/-- Two runs over like trees read the same definition, but for its places. -/
theorem Parse.agree_definition (s : Settings) :
    Agree (fun d d' ↦ d.unplaced = d'.unplaced) (definition s) (definition s) := by
  refine agree_attributes.bind fun as as' ha ↦ ?_
  refine (agree_ofExcept (Attribute.agree_noDisplayFrom ha false)).bind fun n n' hn ↦ ?_
  obtain rfl : n = n' := hn
  refine agree_visibility.bind fun _ _ _ ↦ (agree_expect (agreeOn_word? "enum") _).bind fun k k' _ ↦ ?_
  refine agree_readIdent.bind fun i i' hi ↦ ?_
  refine (agree_expect (agreeOn_brackets? .brace) _).bind fun b b' hb ↦ ?_
  have hv : ErrorDerive.Agree (Forall₂ Variant.Alike) (within b (variants s n))
      (within b' (variants s n)) := (agree_many fun _ _ _ ↦ agree_variant n).within hb
  refine (agree_ofExcept hv).bind fun vs vs' hv ↦ agree_nothingMore.bind fun _ _ _ ↦ ?_
  have hc : ErrorDerive.Agree Eq (if n then .ok () else Definition.check vs)
      (if n then .ok () else Definition.check vs') := by
    split
    · exact .ok rfl
    · exact Definition.agree_check hv
  refine (agree_ofExcept hc).bind fun _ _ _ ↦ agree_pure ?_
  have hi : i.text = i'.text := hi
  simp only [Definition.unplaced, hi, map_eq_iff_forall₂.2 hv]

end ErrorDerive
