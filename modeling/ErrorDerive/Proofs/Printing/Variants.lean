import ErrorDerive.Item.Variant
import ErrorDerive.Proofs.Invariants
import ErrorDerive.Proofs.Printing.Drafts
import ErrorDerive.Proofs.Templates.Pieces

/-!
# Reading drafts

Trees of the form of a draft are read as the variant that the draft describes: fields one by one,
then their cause, then the message (`Parse.reaches_variant`).
-/

namespace ErrorDerive

open List (Forall₂)
open ErrorDerive.Tree (Has Comma)

/-! ## Types -/

theorem Form.Spells.exists_blunt {p : Option Nat} {us : List Tree} {s : String}
    (h : Form.Spells 0 0 s (Tree.outlines p us)) : ∃ t ts, us = t :: ts ∧ Parse.Blunt t := by
  obtain ⟨o, ps, ho, -⟩ := h.text
  have hd := h.depth 0
  cases us with
  | nil => simp at ho
  | cons t ts =>
    refine ⟨t, ts, rfl, ?_⟩
    rw [Tree.outlines_cons, ← List.singleton_append, Outline.angles_append] at hd
    obtain ⟨e, he, -⟩ := Option.bind_eq_some_iff.1 hd
    rw [Outline.angles_singleton] at he
    cases t with
    | group => simp [Outline.angle] at he
    | leaf x l =>
      cases l with
      | ident n => exact Parse.blunt_ident x n
      | punct m joint =>
        have hm : m ≠ "#" := by
          rintro rfl
          simp [Outline.angle] at he
        exact ⟨rfl, by simp [Parse.mark?, Tree.punct?, hm]⟩
      | _ => simp [Outline.angle] at he

/-! ## Fields -/

/-- A declaration of a field of a draft. -/
structure FieldDecl.IsOf (d : Draft) (f : String × String) (x : FieldDecl) : Prop where
  key : x.key = f.1
  type : x.type.text = f.2
  markers : x.attributes.map Attribute.name = (d.marker? f.1).toList
  bare : ∀ a ∈ x.attributes, a.isBare = true

namespace Parse

variable {c : Cursor} {us rest rest' : List Tree} {d : Draft} {f : String × String}
  {done : List FieldDecl}

theorem reaches_fieldType {s : String} (hc : c.rest = us ++ rest)
    (h : Has (Form.Spells 0 0 s) us) (hr : Comma rest rest') :
    Reaches fieldType c (·.text = s) rest := by
  obtain ⟨p, h⟩ := h
  refine fieldType_of_spells hc h ?_
  cases hr with
  | none => simp
  | some => simp [Tree.isMark]

theorem reaches_fieldAttributes (hc : c.rest = us ++ rest)
    (h : Has (Form.marker (d.marker? f.1)) us) (hr : ∀ t ∈ rest.head?, Blunt t) :
    Reaches (fieldAttributes {}) c (fun as ↦
      as.map Attribute.name = (d.marker? f.1).toList ∧ ∀ a ∈ as, a.isBare = true) rest := by
  refine (reaches_marker hc h hr).bind fun as e ha he ↦ ?_
  have hn : refuseNoDisplay {} as = .ok () := by
    refine refuseNoDisplay_eq_ok_iff.2 fun a hm hn ↦ ?_
    have ha : a.name ∈ (d.marker? f.1).toList := ha.1 ▸ List.mem_map_of_mem hm
    have hc := Draft.mem_of_marker? (Option.mem_toList.1 ha)
    rw [hn] at hc
    exact absurd hc (by decide)
  refine (reaches_ofExcept he hn).bind fun _ k _ hk ↦ ?_
  exact reaches_pure hk ha

/-- A field of a tuple draft is read behind as many as its index says. -/
theorem reaches_tupleField (hs : d.shape = .tuple) (hk : f.1 = toString done.length)
    (hc : c.rest = us ++ rest) (h : Has (Form.field d f) us) (hr : Comma rest rest') :
    Reaches (tupleField {} done) c (FieldDecl.IsOf d f) rest' := by
  obtain ⟨xs, ys, rfl, hx, hy⟩ := h.exists_append
  rw [hs] at hy
  obtain ⟨t, ts, rfl, ht⟩ := (show Has (Form.Spells 0 0 f.2) ys from hy).elim fun p h ↦ h.exists_blunt
  rw [List.append_assoc] at hc
  refine (reaches_fieldAttributes hc hx (by simpa using ht)).bind fun as e ha he ↦ ?_
  refine (reaches_fieldType he hy hr).bind fun type k hty hk' ↦ ?_
  refine (reaches_comma (hk' ▸ hr)).bind fun _ l _ hl ↦ ?_
  exact reaches_pure hl ⟨hk.symm, hty, ha.1, ha.2⟩

/-- A field of a struct draft is read behind others with other keys. -/
theorem reaches_structField (hs : d.shape = .struct) (hk : f.1 ∉ done.map FieldDecl.key)
    (hc : c.rest = us ++ rest) (h : Has (Form.field d f) us) (hr : Comma rest rest') :
    Reaches (structField {} done) c (FieldDecl.IsOf d f) rest' := by
  obtain ⟨xs, ys, rfl, hx, hy⟩ := h.exists_append
  rw [hs] at hy
  obtain ⟨ws, zs, rfl, hw, hz⟩ := hy.exists_append
  obtain ⟨e, rfl⟩ := hw.exists_leaf
  obtain ⟨ws, us, rfl, hw, hu⟩ := hz.exists_append
  obtain ⟨e', joint, rfl⟩ := hw.exists_mark
  simp only [List.append_assoc, List.cons_append, List.nil_append] at hc
  refine (reaches_fieldAttributes hc hx (by simpa using blunt_ident e f.1)).bind fun as k ha hk' ↦ ?_
  have hv : Tree.ident? (.leaf e (.ident f.1)) = some ⟨e, f.1⟩ := rfl
  refine (reaches_expect hk' hv).bind fun i l hi hl ↦ ?_
  rw [hi]
  have hn : refuseRedeclared done ⟨e, f.1⟩ = .ok () := refuseRedeclared_eq_ok_iff.2 hk
  refine (reaches_ofExcept hl hn).bind fun _ m _ hm ↦ ?_
  have hv' : mark? ":" (.leaf e' (.punct ":" joint)) = some ⟨e', ":", joint⟩ := rfl
  refine (reaches_expect hm hv').bind fun _ m _ hm ↦ ?_
  refine (reaches_fieldType hm hu hr).bind fun type n hty hn ↦ ?_
  refine (reaches_comma (hn ▸ hr)).bind fun _ o _ ho ↦ ?_
  exact reaches_pure ho ⟨rfl, hty, ha.1, ha.2⟩

end Parse

namespace Draft

variable {d : Draft}

theorem Proper.nodup_keys (h : d.Proper) : d.fields.keys.Nodup := by
  have hk := h.keys
  cases hs : d.shape with
  | unit =>
    rw [hs] at hk
    rw [show d.fields.keys = [] from hk]
    exact List.nodup_nil
  | tuple =>
    rw [hs] at hk
    rw [show d.fields.keys = _ from hk]
    exact List.nodup_range.map Text.toString_injective
  | struct =>
    rw [hs] at hk
    exact hk.1

theorem keys_of_forall₂ {fields : Fields} {fs : List FieldDecl}
    (h : Forall₂ (FieldDecl.IsOf d) fields fs) : fs.map FieldDecl.key = fields.keys := by
  induction h with
  | nil => rfl
  | cons hx _ ih => simpa [Keyed.keys, hx.key] using ih

theorem table_of_forall₂ {fs : List FieldDecl} (hp : d.Proper)
    (h : Forall₂ (FieldDecl.IsOf d) d.fields fs) : FieldDecl.table fs = d.fields := by
  rw [FieldDecl.table_eq (keys_of_forall₂ h ▸ hp.nodup_keys)]
  generalize d.fields = fields at h
  induction h with
  | nil => rfl
  | cons hx _ ih => simp [ih, hx.key, hx.type]

end Draft

namespace Parse

variable {d : Draft} {c : Cursor}

theorem reaches_tupleFields (hp : d.Proper) (hs : d.shape = .tuple)
    (hc : Has (Form.row (Form.field d) d.fields) c.rest) :
    Reaches (tupleFields {}) c (Forall₂ (FieldDecl.IsOf d) d.fields) [] := by
  refine reaches_many (fun before f behind done c us rest rest' hi hd hc hu hr ↦ ?_) hc
  refine reaches_tupleField hs ?_ hc hu hr
  have hk := hp.keys
  rw [hs] at hk
  have hn : d.fields.keys[before.length]? = some f.1 := by
    simp [Keyed.keys, hi]
  rw [show d.fields.keys = _ from hk, List.getElem?_map] at hn
  obtain ⟨i, hi, hf⟩ := Option.map_eq_some_iff.1 hn
  obtain ⟨_, rfl⟩ := List.getElem?_eq_some_iff.1 hi
  rw [← hf, List.getElem_range, hd.length_eq]

theorem reaches_structFields (hp : d.Proper) (hs : d.shape = .struct)
    (hc : Has (Form.row (Form.field d) d.fields) c.rest) :
    Reaches (structFields {}) c (Forall₂ (FieldDecl.IsOf d) d.fields) [] := by
  refine reaches_many (fun before f behind done c us rest rest' hi hd hc hu hr ↦ ?_) hc
  refine reaches_structField hs ?_ hc hu hr
  have hn := hp.nodup_keys
  rw [hi, Keyed.keys, List.map_append, List.map_cons] at hn
  rw [Draft.keys_of_forall₂ hd]
  exact fun hm ↦ List.disjoint_of_nodup_append hn hm (by simp)

end Parse

namespace FieldDecl

variable {d : Draft} {fields : Fields} {fs : List FieldDecl} {f : String × String} {x : FieldDecl}

theorem markers_cons (s : Settings) (x : FieldDecl) (xs : List FieldDecl) :
    markers s (x :: xs) = markers s [x] ++ markers s xs := by
  simp [markers]

theorem IsOf.markers_eq_nil (h : IsOf d f x) (hm : d.marker? f.1 = none) :
    FieldDecl.markers {} [x] = [] := by
  have ha := h.markers
  rw [hm] at ha
  simp [FieldDecl.markers, List.map_eq_nil_iff.1 ha]

theorem IsOf.exists_markers_eq {n : String} (h : IsOf d f x) (hm : d.marker? f.1 = some n) :
    ∃ a, FieldDecl.markers {} [x] = [(f.1, a)] ∧ a.name = n ∧ a.isBare = true := by
  have ha := h.markers
  rw [hm] at ha
  obtain ⟨a, hx, rfl⟩ := List.map_eq_singleton_iff.1 ha
  refine ⟨a, ?_, rfl, h.bare a (by simp [hx])⟩
  have hc : a.name ∈ ({} : Settings).causeNames := Draft.mem_of_marker? hm
  simp [FieldDecl.markers, hx, h.key, hc]

theorem markers_of_forall₂ (h : Forall₂ (IsOf d) fields fs)
    (hm : ∀ f ∈ fields, d.marker? f.1 = none) : markers {} fs = [] := by
  induction h with
  | nil => rfl
  | cons hx _ ih =>
    obtain ⟨hf, hs⟩ := List.forall_mem_cons.1 hm
    rw [markers_cons, hx.markers_eq_nil hf, ih hs]
    rfl

/-- Of fields with distinct keys, the marked one has the only marker. -/
theorem exists_markers_of_forall₂ {k n : String} (h : Forall₂ (IsOf d) fields fs)
    (hn : fields.keys.Nodup) (hk : k ∈ fields.keys) (hm : d.marker? k = some n) :
    ∃ a, markers {} fs = [(k, a)] ∧ a.name = n ∧ a.isBare = true := by
  induction h with
  | nil => cases hk
  | @cons f x fields fs hx hs ih =>
    obtain ⟨hf, hn⟩ := List.nodup_cons.1 hn
    rw [markers_cons]
    by_cases he : f.1 = k
    · subst he
      obtain ⟨a, ha, hna⟩ := hx.exists_markers_eq hm
      refine ⟨a, ?_, hna⟩
      rw [ha, markers_of_forall₂ hs fun g hg ↦ Draft.marker?_of_ne hm fun e ↦ ?_]
      · rfl
      · exact hf (e ▸ List.mem_map_of_mem hg)
    · rw [hx.markers_eq_nil (Draft.marker?_of_ne hm he), List.nil_append]
      refine ih hn ?_
      simpa [Keyed.keys, Ne.symm he] using hk

/-- The cause that the declarations of a draft mark is that of the draft. -/
theorem cause_of_forall₂ (hp : d.Proper) (h : Forall₂ (IsOf d) d.fields fs) (variant : Ident) :
    cause {} variant fs = .ok d.cause := by
  unfold cause
  rcases hp.cause with hc | ⟨k, hk, hc⟩ | ⟨k, hk, hl, hc⟩
  · rw [markers_of_forall₂ h fun f _ ↦ by simp [Draft.marker?, hc], hc]
    rfl
  · obtain ⟨a, ha, hn, hb⟩ := exists_markers_of_forall₂ (n := "source") h hp.nodup_keys hk
      (by simp [Draft.marker?, hc, CauseMarker.sourceOnly, CauseKind.attribute?])
    simp [ha, hc, resolve, hn, hb]
  · obtain ⟨a, ha, hn, hb⟩ := exists_markers_of_forall₂ (n := "from") h hp.nodup_keys hk
      (by simp [Draft.marker?, hc, CauseMarker.conversion, CauseKind.attribute?])
    simp [ha, hc, resolve, hn, hb, ← h.length_eq, hl]

end FieldDecl

/-! ## Field lists -/

namespace Draft

variable {d : Draft}

/-- The field list that a draft describes. -/
def fieldList (d : Draft) : FieldList := ⟨d.shape, d.fields, d.cause⟩

theorem Proper.fieldList_of_unit (h : d.Proper) (hs : d.shape = .unit) :
    d.fieldList = ⟨.unit, [], {}⟩ := by
  have hk := h.keys
  rw [hs] at hk
  have hk : d.fields.keys = [] := hk
  have hf : d.fields = [] := List.map_eq_nil_iff.1 hk
  have hc : d.cause = {} := by
    rcases h.cause with hc | ⟨k, hm, -⟩ | ⟨k, hm, -⟩
    · exact hc
    · simp [hk] at hm
    · simp [hk] at hm
  rw [fieldList, hs, hf, hc]

/-- The fields of a draft in the brackets of its shape. -/
theorem Proper.ofGroup_eq (h : d.Proper) {g : Group} (hg : d.shape.delimiter? = some g.delimiter)
    (ht : Has (Form.row (Form.field d) d.fields) g.trees) (variant : Ident) :
    FieldList.ofGroup {} variant g = .ok d.fieldList := by
  obtain ⟨fs, hfs, hf⟩ : ∃ fs, FieldDecl.ofGroup {} g = .ok (d.shape, fs) ∧
      Forall₂ (FieldDecl.IsOf d) d.fields fs := by
    cases hs : d.shape with
    | unit => simp [hs, Shape.delimiter?] at hg
    | tuple =>
      have hd : g.delimiter = .paren := by simpa [hs, Shape.delimiter?, eq_comm] using hg
      obtain ⟨fs, hw, hf⟩ := (Parse.reaches_tupleFields h hs ht).within
      exact ⟨fs, FieldDecl.ofGroup_eq_ok_iff.2 (.inl ⟨hd, rfl, hw⟩), hf⟩
    | struct =>
      have hd : g.delimiter = .brace := by simpa [hs, Shape.delimiter?, eq_comm] using hg
      obtain ⟨fs, hw, hf⟩ := (Parse.reaches_structFields h hs ht).within
      exact ⟨fs, FieldDecl.ofGroup_eq_ok_iff.2 (.inr ⟨hd, rfl, hw⟩), hf⟩
  exact FieldList.ofGroup_eq_ok_iff.2
    ⟨fs, hfs, (table_of_forall₂ h hf).symm, FieldDecl.cause_of_forall₂ h hf variant⟩

end Draft

/-- The fields of a draft are read back as they were printed. -/
theorem Parse.reaches_fieldList {d : Draft} {c : Cursor} {us rest rest' : List Tree}
    (hp : d.Proper) (hc : c.rest = us ++ rest) (h : Has (Form.fields d) us) (hr : Comma rest rest')
    (name : Ident) : Reaches (fieldList {} name) c (· = d.fieldList) rest := by
  unfold Form.fields at h
  cases hs : d.shape.delimiter? with
  | none =>
    rw [hs] at h
    rw [Has.eq_nil h, List.nil_append] at hc
    have hu : d.shape = .unit := by
      cases hd : d.shape <;> simp [hd, Shape.delimiter?] at hs ⊢
    refine (reaches_eat_none hc ?_).bind fun r e hr he ↦ ?_
    · cases hr with
      | none => simp
      | some => simp [fieldGroup?, Tree.group?]
    · rw [hr]
      exact reaches_pure he (hp.fieldList_of_unit hu).symm
  | some b =>
    rw [hs] at h
    obtain ⟨e, ts, x, rfl, ht⟩ := h.exists_group
    rw [List.singleton_append] at hc
    have hv : fieldGroup? (.group e b ts x) = some ⟨e, b, ts, x⟩ := by
      cases hd : d.shape <;> simp [hd, Shape.delimiter?] at hs <;> subst hs <;> rfl
    refine (reaches_eat hc hv).bind fun r k hr hk ↦ ?_
    rw [hr]
    exact reaches_ofExcept hk (hp.ofGroup_eq (g := ⟨e, b, ts, x⟩) hs ht name)

/-! ## Messages -/

namespace Draft

/-- A variant as a draft describes it. -/
structure Describes (d : Draft) (v : Variant) : Prop where
  name : v.name = d.name
  shape : v.shape = d.shape
  fields : v.fields = d.fields
  cause : v.cause = d.cause
  template : d.template = .ok v.template
  displayFields : Template.names v.template = .ok v.displayFields

variable {d : Draft}

/-- The template of a draft can be read. -/
theorem Proper.exists_names (h : d.Proper) :
    ∃ t ns, d.template = .ok t ∧ Template.names t = .ok ns := by
  obtain ⟨t, ht, -⟩ := h.template
  obtain ⟨ps, hps⟩ : ∃ ps, Template.pieces t = .ok ps := by
    cases hs : d.shape with
    | tuple =>
      rw [Draft.template, hs] at ht
      exact Template.exists_pieces_of_bindIndices ht
    | _ =>
      rw [Draft.template, hs] at ht
      cases ht
      exact h.message
  exact ⟨t, _, ht, by rw [Template.names, hps]; rfl⟩

end Draft

theorem Parse.reaches_readString {c : Cursor} {rest : List Tree} {e : Extent} {text : String}
    (hc : c.rest = .leaf e (.literal .string (Literal.quote text)) :: rest) :
    Reaches readString c (· = (text, ⟨e, .string, Literal.quote text⟩)) rest := by
  have hv : litValue ⟨e, .string, Literal.quote text⟩ = .ok text := by
    rw [litValue, Lit.value, Literal.value_quote]
    rfl
  have hp : c.peek.bind stringLit? = some ⟨e, .string, Literal.quote text⟩ := by
    rw [Cursor.peek, hc]
    rfl
  exact ⟨_, c.skip 1, by simp only [readString, hp, hv], rfl, by simp [Cursor.skip, hc]⟩

theorem Attribute.message_of_quote {a : Attribute} {e x y : Extent} {text : String}
    (hn : a.name = "error")
    (ha : a.args = some ⟨e, .paren, [.leaf y (.literal .string (Literal.quote text))], x⟩) :
    Attribute.message {} [a] =
      .ok (some (text, ⟨y, .string, Literal.quote text⟩)) := by
  have hm : a.messageText = .ok (text, ⟨y, .string, Literal.quote text⟩) := by
    rw [messageText, ha]
    have hr : Parse.Reaches
        (do let m ← Parse.readString
            Parse.expectEnd
            pure m)
        (Cursor.ofGroup ⟨e, .paren, [.leaf y (.literal .string (Literal.quote text))], x⟩)
        (· = (text, ⟨y, .string, Literal.quote text⟩)) [] :=
      (Parse.reaches_readString rfl).bind fun m k hm hk ↦
        (Parse.reaches_expectEnd hk).bind fun _ l _ hl ↦ Parse.reaches_pure hl hm
    obtain ⟨m, hw, rfl⟩ := hr.within
    exact hw
  simp [message, messageFrom, hn, hm]

theorem Message.ofAttributes_of_message {d : Draft} {as : List Attribute} {lit : Lit} {t : String}
    {ns : List String} (hm : Attribute.message {} as = .ok (some (d.message, lit)))
    (ht : d.template = .ok t) (hn : Template.names t = .ok ns) (name : Ident) :
    ofAttributes {} false as name d.fieldList = .ok ⟨t, ns⟩ := by
  refine Except.bind_eq_ok_iff.2 ⟨_, hm, ?_⟩
  have ho : ofTemplate lit.extent.span t = .ok ⟨t, ns⟩ := ofTemplate_eq_ok_iff.2 ⟨rfl, hn⟩
  obtain ⟨_, shape, fields, _, text⟩ := d
  cases shape with
  | tuple =>
    have hb : Template.bindIndices text fields.length = .ok t := ht
    change ofTuple lit.extent.span text fields.length = _
    simp only [ofTuple, hb, ho]
  | _ =>
    cases ht
    exact ho

namespace Parse

/-- A draft is read as the variant that it describes. -/
theorem reaches_variant {d : Draft} {c : Cursor} {us rest rest' : List Tree} (hp : d.Proper)
    (hc : c.rest = us ++ rest) (h : Has (Form.draft d) us) (hr : Comma rest rest') :
    Reaches (variant {} false) c d.Describes rest' := by
  obtain ⟨xs, ys, rfl, hx, hy⟩ := h.exists_append
  obtain ⟨zs, us, rfl, hz, hu⟩ := hy.exists_append
  obtain ⟨e, rfl⟩ := hz.exists_leaf
  obtain ⟨e₁, joint, e₂, e₃, ts, x, rfl, ht⟩ := hx.exists_attribute
  obtain ⟨e₄, ws, x', rfl, hw⟩ := ht.exists_group
  obtain ⟨e₅, rfl⟩ := hw.exists_leaf
  simp only [List.cons_append, List.nil_append] at hc
  refine (reaches_attributes_one (reaches_attribute? hc (reaches_attributeContent_args rfl))
    (by simpa using blunt_ident e d.name)).bind fun as k ha hk ↦ ?_
  obtain ⟨a, rfl, hn, ha⟩ := ha
  have hv : Tree.ident? (.leaf e (.ident d.name)) = some ⟨e, d.name⟩ := rfl
  refine (reaches_expect hk hv).bind fun name k hi hk ↦ ?_
  have hd : refuseOnVariant {} [a] name = .ok () := by
    simp [refuseOnVariant, hn]
  refine (reaches_ofExcept hk hd).bind fun _ k _ hk ↦ ?_
  refine (reaches_fieldList hp hk hu hr name).bind fun fs k hf hk ↦ ?_
  refine (reaches_comma (hk ▸ hr)).bind fun _ k _ hk ↦ ?_
  obtain ⟨t, ns, ht, hns⟩ := hp.exists_names
  have hm := Message.ofAttributes_of_message (Attribute.message_of_quote hn ha) ht hns name
  rw [hf]
  refine (reaches_ofExcept hk hm).bind fun m k hm hk ↦ ?_
  rw [hi, hm]
  exact reaches_pure hk ⟨rfl, rfl, rfl, rfl, ht, hns⟩

end Parse

end ErrorDerive
