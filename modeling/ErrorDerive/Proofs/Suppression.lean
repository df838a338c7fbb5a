import ErrorDerive.Generated.Code
import ErrorDerive.Proofs.Invariants
import ErrorDerive.Proofs.Layout.Items
import ErrorDerive.Proofs.Printing.Drafts
import ErrorDerive.Proofs.Printing.Preceding
import ErrorDerive.Proofs.Sites.Grammar

/-!
# Going without messages

A text that is read as a draft with messages, whether they pass the check or not, is accepted when
the attribute that suppresses messages is put in front of it, and its variants are built as before
(`Definition.parse_suppressed`).  Two runs are compared for this: one over the same trees with the
flag on and off, and one over like trees behind the attribute.
-/

namespace ErrorDerive

open List (Forall₂)

/-! ## Variants with and without messages -/

/-- Variants that agree in all that is built from them; only the names that their messages are
found to refer to, and their places, may differ. -/
structure Variant.BuiltAs (v v' : Variant) : Prop where
  name : v.name = v'.name
  shape : v.shape = v'.shape
  fields : v.fields = v'.fields
  template : v.template = v'.template
  cause : v.cause = v'.cause

namespace Variant.BuiltAs

variable {v v' w : Variant}

theorem trans (h : v.BuiltAs v') (h' : v'.BuiltAs w) : v.BuiltAs w :=
  ⟨h.name.trans h'.name, h.shape.trans h'.shape, h.fields.trans h'.fields,
    h.template.trans h'.template, h.cause.trans h'.cause⟩

/-- Whatever looks at neither of these is the same. -/
theorem eq {β : Type} (h : v.BuiltAs v') (f : Variant → β)
    (hf : ∀ v names span, f { v with displayFields := names, span := span } = f v) : f v = f v' := by
  obtain ⟨n, s, fs, t, _, c, _⟩ := v
  obtain ⟨n', s', fs', t', _, c', _⟩ := v'
  obtain ⟨rfl, rfl, rfl, rfl, rfl⟩ := h
  exact hf ⟨n, s, fs, t, _, c, _⟩ _ _ |>.symm

end Variant.BuiltAs

theorem Variant.Alike.builtAs {v v' : Variant} (h : v.Alike v') : v.BuiltAs v' :=
  ⟨h.name, h.eq Variant.shape fun _ ↦ rfl, h.eq Variant.fields fun _ ↦ rfl, h.template,
    h.eq Variant.cause fun _ ↦ rfl⟩

theorem Variant.builtAs_of_alike {us vs ws : List Variant} (h : Forall₂ BuiltAs us vs)
    (h' : Forall₂ Variant.Alike vs ws) : Forall₂ BuiltAs us ws := by
  induction h generalizing ws with
  | nil =>
    cases h'
    exact .nil
  | cons h _ ih =>
    cases h' with
    | cons hv hs => exact .cons (h.trans hv.builtAs) (ih hs)

/-- A message that is read where messages are asked for is read where they are not, with the same
template. -/
theorem VariantHead.exists_message {s : Settings} {h : VariantHead} {m : Message}
    (hm : h.message s false = .ok m) :
    ∃ m', h.message s true = .ok m' ∧ m.template = m'.template := by
  obtain ⟨r, hr, hm⟩ := Except.bind_eq_ok_iff.1 hm
  cases r with
  | none =>
    refine ⟨⟨Attribute.documentation h.attributes, []⟩, ?_, (Message.ofTemplate_eq_ok_iff.1 hm).1⟩
    exact Except.bind_eq_ok_iff.2 ⟨none, hr, rfl⟩
  | some r => exact ⟨m, Except.bind_eq_ok_iff.2 ⟨some r, hr, hm⟩, rfl⟩

namespace Parse

variable {s : Settings} {body body' : Group} {c c' d : Cursor} {vs : List Variant}

theorem variant_suppressed {v : Variant} (h : Parse.variant s false c = (.ok v, d)) :
    ∃ v', Parse.variant s true c = (.ok v', d) ∧ v.BuiltAs v' := by
  obtain ⟨head, m, hh, hm, rfl⟩ := variant_eq_ok_iff.1 h
  obtain ⟨m', hm', ht⟩ := head.exists_message hm
  exact ⟨head.variant m', variant_eq_ok_iff.2 ⟨head, m', hh, hm', rfl⟩, rfl, rfl, rfl, ht, rfl⟩

/-- The loop over variants goes the same way with and without messages. -/
theorem VariantRun.suppressed (h : VariantRun s false body vs c) :
    ∃ ws, VariantRun s true body ws c ∧ Forall₂ Variant.BuiltAs vs ws := by
  induction h with
  | start => exact ⟨[], .start, .nil⟩
  | next _ hs ih =>
    obtain ⟨ws, hr, hw⟩ := ih
    obtain ⟨hc, hv⟩ := ifMore_eq_some_iff.1 hs
    obtain ⟨v', hv', hb⟩ := variant_suppressed hv
    exact ⟨ws ++ [v'], hr.next (ifMore_eq_some_iff.2 ⟨hc, hv'⟩),
      List.rel_append hw (.cons hb .nil)⟩

/-- Variants that are read with messages from a body are read without them from a like one. -/
theorem variants_suppressed (hb : body.Alike body')
    (h : within body (variants s false) = .ok vs) :
    ∃ ws, within body' (variants s true) = .ok ws ∧ Forall₂ Variant.BuiltAs vs ws := by
  obtain ⟨c, hr, hc⟩ := variants_eq_ok_iff.1 h
  obtain ⟨us, hr, hu⟩ := hr.suppressed
  have ha : ErrorDerive.Agree (Forall₂ Variant.Alike) (within body (variants s true))
      (within body' (variants s true)) := (agree_many fun _ _ _ ↦ agree_variant true).within hb
  rw [variants_eq_ok_iff.2 ⟨c, hr, hc⟩] at ha
  generalize within body' (variants s true) = x at ha
  cases ha with
  | ok hw => exact ⟨_, rfl, Variant.builtAs_of_alike hu hw⟩

/-! ## The attribute in front -/

/-- Attributes behind a bare one are read as without it. -/
theorem attributes_suppressed {us ts : List Tree} {n : String} {as : List Attribute}
    (hu : Tree.Has (Form.attribute n Form.nothing) us) (hc' : c'.rest = us ++ ts)
    (hc : Tree.Alike c.rest ts) (h : attributes c = (.ok as, d)) :
    ∃ a as' d', attributes c' = (.ok (a :: as'), d') ∧ (a.name = n ∧ a.isBare = true) ∧
      Forall₂ Attribute.Alike as as' ∧ d.Alike d' := by
  obtain ⟨e, joint, e', e'', vs, x, rfl, hv⟩ := hu.exists_attribute
  obtain rfl := hv.eq_nil
  exact attributes_before (reaches_attribute? hc' (reaches_attributeContent_bare rfl)) hc h

end Parse

namespace Attribute

variable {s : Settings} {seen : Bool} {as : List Attribute}

theorem noDisplayFrom_eq_false_iff :
    noDisplayFrom s seen as = .ok false ↔
      seen = false ∧ ∀ a ∈ as, a.name ≠ s.noDisplayName := by
  fun_induction noDisplayFrom s seen as with
  | case1 => simp
  | case2 => simp_all
  | case3 => simp_all
  | case4 => simp_all
  | case5 => simp_all

theorem noDisplayFrom_of_forall_ne (h : ∀ a ∈ as, a.name ≠ s.noDisplayName) :
    noDisplayFrom s seen as = .ok seen := by
  induction as with
  | nil => rfl
  | cons a as ih =>
    obtain ⟨ha, hs⟩ := List.forall_mem_cons.1 h
    rw [noDisplayFrom, if_neg (by simpa using ha), ih hs]

/-- The attribute in front is the only one of its name, if there was none before. -/
theorem noDisplay_suppressed {a : Attribute} {as' : List Attribute}
    (hn : a.name = s.noDisplayName) (hb : a.isBare = true) (ha : Forall₂ Alike as as')
    (h : noDisplay s as = .ok false) : noDisplay s (a :: as') = .ok true := by
  have hs : ∀ b ∈ as', b.name ≠ s.noDisplayName := by
    have hs := (noDisplayFrom_eq_false_iff.1 h).2
    clear h
    induction ha with
    | nil => simp
    | cons hb _ ih =>
      obtain ⟨hc, hs⟩ := List.forall_mem_cons.1 hs
      exact List.forall_mem_cons.2 ⟨hb.name ▸ hc, ih hs⟩
  rw [noDisplay, noDisplayFrom, if_pos (by simpa using hn), if_neg (by simp), if_neg (by simp [hb])]
  exact noDisplayFrom_of_forall_ne hs

end Attribute

namespace Parse

/-- Heads with given flags, the same name and like bodies. -/
structure HeadsAlike (noDisplay noDisplay' : Bool) (h h' : ItemHead) : Prop where
  left : h.noDisplay = noDisplay
  right : h'.noDisplay = noDisplay'
  name : h.name.text = h'.name.text
  body : h.body.Alike h'.body

theorem agree_itemRest (noDisplay noDisplay' : Bool) :
    Agree (HeadsAlike noDisplay noDisplay') (itemRest noDisplay) (itemRest noDisplay') :=
  agree_visibility.bind fun _ _ _ ↦ (agree_expect (agreeOn_word? "enum") _).bind fun _ _ _ ↦
    agree_readIdent.bind fun _ _ hi ↦ (agree_expect (agreeOn_brackets? .brace) _).bind
      fun _ _ hb ↦ agree_pure ⟨rfl, rfl, hi, hb⟩

variable {s : Settings} {c c' d : Cursor}

/-- The head of an item behind the attribute is that of the item, but for the flag. -/
theorem itemHead_suppressed {us ts : List Tree} {h : ItemHead}
    (hu : Tree.Has (Form.attribute s.noDisplayName Form.nothing) us) (hc' : c'.rest = us ++ ts)
    (hc : Tree.Alike c.rest ts) (hh : itemHead s c = (.ok h, d)) (hn : h.noDisplay = false) :
    ∃ h' d', itemHead s c' = (.ok h', d') ∧ HeadsAlike false true h h' ∧ d.Alike d' := by
  rw [itemHead_eq] at hh ⊢
  obtain ⟨as, e, h₁, hh⟩ := bind_eq_ok_iff.1 hh
  obtain ⟨n, e₂, hx, hh⟩ := bind_eq_ok_iff.1 hh
  obtain ⟨h₂, rfl⟩ := ofExcept_eq_iff.1 hx
  obtain ⟨a, as', e', h₁', ⟨ha, hb⟩, hs, he⟩ := attributes_suppressed hu hc' hc h₁
  have hr := agree_itemRest n true he
  rw [hh] at hr
  rcases hy : itemRest true e' with ⟨y, d'⟩
  rw [hy] at hr
  cases hr with
  | ok hr hd =>
    obtain rfl : n = false := hr.left.symm.trans hn
    refine ⟨_, d', ?_, hr, hd⟩
    rw [bind_of_ok h₁', Attribute.noDisplay_suppressed ha hb hs h₂]
    exact hy

/-- An item behind the attribute is read without a check, and passes it. -/
theorem definition_suppressed {us ts : List Tree} {x : Definition}
    (hu : Tree.Has (Form.attribute s.noDisplayName Form.nothing) us) (hc' : c'.rest = us ++ ts)
    (hc : Tree.Alike c.rest ts) (hx : unchecked s c = (.ok x, d)) (hn : x.noDisplay = false) :
    ∃ y d', Parse.definition s c' = (.ok y, d') ∧ y.noDisplay = true ∧ x.name = y.name ∧
      Forall₂ Variant.BuiltAs x.variants y.variants := by
  obtain ⟨h, e, hh, hx⟩ := bind_eq_ok_iff.1 hx
  obtain ⟨vs, e₂, h₂, hx⟩ := bind_eq_ok_iff.1 hx
  obtain ⟨hv, rfl⟩ := ofExcept_eq_iff.1 h₂
  obtain ⟨_, e₃, h₃, hx⟩ := bind_eq_ok_iff.1 hx
  obtain ⟨he, rfl⟩ := nothingMore_eq_ok_iff.1 h₃
  obtain ⟨rfl, rfl⟩ := pure_eq_ok_iff.1 hx
  obtain ⟨h', d', hh', ha, hd⟩ := itemHead_suppressed hu hc' hc hh hn
  rw [ha.left] at hv
  obtain ⟨ws, hw, hb⟩ := variants_suppressed ha.body hv
  have hd' : d'.rest = [] := by
    rcases Tree.Alike.cases hd with ⟨-, h⟩ | ⟨t, _, _, _, h, -⟩
    · exact h
    · cases h.symm.trans he
  refine ⟨h'.definition ws, d', definition_eq_ok_iff.2 ⟨h', ws, hh', ?_, hd', ?_, rfl⟩, ha.right,
    ha.name, hb⟩
  · rw [ha.right]
    exact hw
  · rw [ha.right]
    intro h
    cases h

end Parse

theorem Phrase.noDisplay :
    Phrase .word .solid (Form.attribute "no_display" Form.nothing) "#[no_display]" := by
  have hi : Phrase .word .word (Form.leaf (.ident "no_display")) "no_display" :=
    Phrase.ident (by decide)
  have he : "#[" ++ "no_display" ++ "]" = "#[no_display]" := by decide
  exact he ▸ hi.before_nothing.attributed

/-! ## Generated code -/

namespace Definition

section BuiltAs

variable {d d' : Definition} (hn : d.name = d'.name)
  (hv : Forall₂ Variant.BuiltAs d.variants d'.variants)
include hn hv

theorem errorImpl_of_builtAs (l : Library) : d.errorImpl l = d'.errorImpl l := by
  have hm : d.variants.map Variant.causeArm? = d'.variants.map Variant.causeArm? :=
    map_eq_iff_forall₂.2 (hv.imp fun _ _ h ↦ h.eq Variant.causeArm? fun _ _ _ ↦ rfl)
  have hf : d.variants.filterMap Variant.causeArm? = d'.variants.filterMap Variant.causeArm? := by
    simpa using congrArg (List.filterMap id) hm
  rw [errorImpl, errorImpl, causeArms, causeArms, hn, hf, hv.length_eq]

theorem conversionImpls_of_builtAs (l : Library) :
    d.conversionImpls l = d'.conversionImpls l := by
  have hf : Forall₂ Variant.BuiltAs (d.variants.filter (·.cause.kind == .conversion))
      (d'.variants.filter (·.cause.kind == .conversion)) :=
    List.rel_filter (fun v v' h ↦ by simp only [h.cause]) hv
  unfold conversionImpls
  generalize d.variants.filter _ = xs at hf
  generalize d'.variants.filter _ = xs' at hf
  induction hf with
  | nil => rw [List.mapM_nil, List.mapM_nil]
  | @cons v v' _ _ h _ ih =>
    have hc : d.conversionImpl l v = d'.conversionImpl l v' := by
      rw [h.eq (d.conversionImpl l) fun _ _ _ ↦ rfl, conversionImpl, conversionImpl, hn]
    rw [List.mapM_cons, List.mapM_cons, hc, ih]

end BuiltAs

/-! ## Definitions -/

variable {label : Option String} {source : String}

/-- Whether a text is accepted, with messages, or refused because of its messages alone. -/
def ReadWithMessages (label : Option String) (source : String) : Prop :=
  (∃ d, parse {} label source = .ok d ∧ d.noDisplay = false) ∨
    ∃ f, parse {} label source = .error (.failure f) ∧
      (f.cause.category = .missingDisplayMessage ∨ f.cause.category = .unknownDisplayField)

/-- A text that is read as no draft is not refused because of its messages. -/
theorem not_concernsMessages_of_no_draft {s : Settings} {f : Failure}
    (h : draft s label source = .error (.failure f)) : f.cause.concernsMessages = false := by
  unfold draft at h
  split at h
  · next ts _ =>
    have hg := (Parse.sited_unchecked s _ (Cursor.sited_true (.ofSource label source ts))).1
    rw [h] at hg
    cases hg with
    | failure _ hc => exact hc
  · cases h
    rfl

/-- So such a text is read as a draft with messages. -/
theorem ReadWithMessages.exists_draft (h : ReadWithMessages label source) :
    ∃ x, draft {} label source = .ok x ∧ x.noDisplay = false := by
  rcases h with ⟨d, hd, hn⟩ | ⟨f, hf, hc⟩
  · exact ⟨d, draft_of_parse hd, hn⟩
  · rw [parse_eq] at hf
    rcases Except.bind_eq_error_iff.1 hf with hf | ⟨x, hx, hf⟩
    · have hm := not_concernsMessages_of_no_draft hf
      rcases hc with hc | hc <;> simp [Cause.concernsMessages, hc] at hm
    · refine ⟨x, hx, ?_⟩
      cases hn : x.noDisplay with
      | false => rfl
      | true =>
        rw [hn] at hf
        cases hf

/-- Behind the attribute, what is read as a draft is accepted as it is. -/
theorem exists_parse_of_draft {x : Definition} (hx : draft {} label source = .ok x)
    (hn : x.noDisplay = false) (label' : Option String) :
    ∃ d', parse {} label' ("#[no_display]\n" ++ source) = .ok d' ∧ d'.noDisplay = true ∧
      x.name = d'.name ∧ Forall₂ Variant.BuiltAs x.variants d'.variants := by
  unfold draft at hx
  split at hx
  · next ts hr =>
    obtain ⟨us, ts', hr', hu, ha⟩ := Phrase.noDisplay.ownLine.exists_read_before hr label'
    have hc : (Cursor.ofSource label' ("#[no_display]\n" ++ source) (us ++ ts')).rest = us ++ ts' :=
      rfl
    obtain ⟨d', e, hd, hp⟩ := Parse.definition_suppressed hu hc ha (Prod.ext hx rfl) hn
    have he : "#[no_display]" ++ "\n" = "#[no_display]\n" := by decide
    rw [he] at hr'
    refine ⟨d', ?_, hp⟩
    simp only [parse, hr', hd]
  · cases hx

/-- Suppressing messages is a pure relaxation: a text that is accepted with messages, or refused
because of its messages, is accepted behind the attribute that suppresses them, with the variants
that were built for it before the check; if it was accepted itself, the impls of the error trait and
of the conversions are the same texts. -/
theorem parse_suppressed (h : ReadWithMessages label source) (label' : Option String) :
    ∃ x d', draft {} label source = .ok x ∧ x.noDisplay = false ∧
      parse {} label' ("#[no_display]\n" ++ source) = .ok d' ∧ d'.noDisplay = true ∧
        x.name = d'.name ∧ Forall₂ Variant.BuiltAs x.variants d'.variants ∧
          ∀ d, parse {} label source = .ok d → ∀ l, d.errorImpl l = d'.errorImpl l ∧
            d.conversionImpls l = d'.conversionImpls l ∧ d'.displayImpl? l = none := by
  obtain ⟨x, hx, hn⟩ := h.exists_draft
  obtain ⟨d', hp, hd, hm, hv⟩ := exists_parse_of_draft hx hn label'
  refine ⟨x, d', hx, hn, hp, hd, hm, hv, fun d h l ↦ ?_⟩
  obtain rfl : x = d := Except.ok.inj (hx.symm.trans (draft_of_parse h))
  exact ⟨errorImpl_of_builtAs hm hv l, conversionImpls_of_builtAs hm hv l, by
    rw [displayImpl?, hd, if_pos rfl]⟩

/-- An item that is accepted, with a message and a conversion, and one that is refused because its
message refers to no field. -/
theorem parse_suppressed_accepted_and_refused :
    (∃ d d', parse {} none "enum E\x7b/// \x7bs\x7d\nA\x7b#[from]s:T\x7d\x7d" = .ok d ∧
      parse {} none ("#[no_display]\n" ++ "enum E\x7b/// \x7bs\x7d\nA\x7b#[from]s:T\x7d\x7d") =
        .ok d' ∧ d'.noDisplay = true ∧ Forall₂ Variant.BuiltAs d.variants d'.variants ∧
          ∀ l, d.errorImpl l = d'.errorImpl l ∧ d.conversionImpls l = d'.conversionImpls l ∧
            d'.displayImpl? l = none) ∧
      ∃ f d', parse {} none " enum E\x7b/// \x7bx\x7d\nA\x7d" = .error (.failure f) ∧
        f.cause = .unknownField "A" "x" ∧
          parse {} none ("#[no_display]\n" ++ " enum E\x7b/// \x7bx\x7d\nA\x7d") = .ok d' ∧
            d'.noDisplay = true := by
  constructor
  · have h : (parse {} none "enum E\x7b/// \x7bs\x7d\nA\x7b#[from]s:T\x7d\x7d").toOption.map
        noDisplay = some false := by decide +kernel
    obtain ⟨d, hd, hn⟩ := Option.map_eq_some_iff.1 h
    have hd := Except.toOption_eq_some_iff.1 hd
    obtain ⟨x, d', hx, -, hp, hs, -, hv, hi⟩ := parse_suppressed (.inl ⟨d, hd, hn⟩) none
    obtain rfl : x = d := Except.ok.inj (hx.symm.trans (draft_of_parse hd))
    exact ⟨x, d', hd, hp, hs, hv, hi x hd⟩
  · have h : parse {} none " enum E\x7b/// \x7bx\x7d\nA\x7d" =
        .error (.at ⟨none, some 2, some 1, some 2, some 2⟩ (.unknownField "A" "x")) := by
      decide +kernel
    obtain ⟨x, d', -, -, hp, hs, -⟩ := parse_suppressed (.inr ⟨_, h, .inr rfl⟩) none
    exact ⟨_, d', h, rfl, hp, hs⟩

end Definition

end ErrorDerive
