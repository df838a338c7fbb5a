import ErrorDerive.Generated.Code
import ErrorDerive.Proofs.Parsing.Fields

/-!
# The text of generated impls

The impls of a definition are fixed text around the arms of its variants, and around the types of
the fields that it is made from.  Here the text is given as a whole (`Definition.implsText`), with
the arms as they stand in it.
-/

namespace ErrorDerive

theorem intercalate_cons (sep t : String) (ts : List String) :
    sep.intercalate (t :: ts) = t ++ String.join (ts.map (sep ++ ·)) := by
  induction ts generalizing t with
  | nil => simp
  | cons u ts ih => simp [String.intercalate_cons_cons, ih, String.append_assoc]

/-! ## Matches -/

/-- Lines of an impl's function, each on a line of its own. -/
def bodyText (body : List String) : String := String.join (body.map ("\n        " ++ ·))

/-- An impl with one function as a single text. -/
theorem implBlock_eq (head signature : String) (body : List String) :
    implBlock head signature body =
      "impl " ++ head ++ " \x7b\n    " ++ signature ++ " \x7b" ++ bodyText body ++
        "\n    \x7d\n\x7d" := by
  have hi : ∀ s : String, "\n" ++ ("    " ++ ("    " ++ s)) = "\n        " ++ s := by
    intro s
    simp only [← String.append_assoc]
    rfl
  have hs : " \x7b\n    " = " \x7b" ++ ("\n" ++ "    ") := rfl
  have he : "\n    \x7d\n\x7d" = "\n" ++ ("    " ++ "\x7d") ++ ("\n" ++ "\x7d") := rfl
  simp only [implBlock, indent, List.map_append, List.map_cons, List.map_map, List.map_nil,
    List.cons_append, List.nil_append, intercalate_cons, String.join_cons, String.join_append,
    String.join_nil, String.append_assoc, String.append_empty, Function.comp_def, hi, hs, he,
    bodyText]

/-- A match with given arms, as it stands in the function of an impl. -/
def matchText (l : Library) (arms : List Arm) : String :=
  if arms = [] then "match *self \x7b\x7d"
  else "match self \x7b" ++ String.join (arms.map fun a ↦ "\n            " ++ a.render l) ++
    "\n        \x7d"

theorem bodyText_matchBlock (l : Library) (arms : List Arm) :
    bodyText (matchBlock l arms) = "\n        " ++ matchText l arms := by
  have hi : ∀ t : String, "\n        " ++ ("    " ++ t) = "\n            " ++ t := by
    intro t
    rw [← String.append_assoc]
    rfl
  have hb : "\n        \x7d" = "\n        " ++ "\x7d" := rfl
  cases arms with
  | nil => rfl
  | cons a arms =>
    simp only [bodyText, matchBlock, matchText, indent, List.map_append, List.map_map,
      List.map_cons, List.map_nil, List.cons_append, List.nil_append, String.join_cons,
      String.join_append, String.join_nil, String.append_empty, Function.comp_def, hi, hb,
      String.append_assoc, reduceCtorEq, if_false]

/-- An impl whose function has a given body. -/
def implText (head signature body : String) : String :=
  "impl " ++ head ++ " \x7b\n    " ++ signature ++ " \x7b\n        " ++ body ++ "\n    \x7d\n\x7d"

theorem implBlock_matchBlock (head signature : String) (l : Library) (arms : List Arm) :
    implBlock head signature (matchBlock l arms) =
      implText head signature (matchText l arms) := by
  have hs : " \x7b\n        " = " \x7b" ++ "\n        " := rfl
  rw [implBlock_eq, bodyText_matchBlock, implText, hs]
  simp only [String.append_assoc]

/-! ## Causes -/

theorem render_wildcard (l : Library) :
    Arm.render l ⟨.wildcard, .noCause⟩ = "_ => " ++ l.option ++ "::None," := by
  simp [Arm.render, Pattern.render, ArmBody.render, String.append_assoc]

/-- The arm that yields the cause of a variant matches nothing but that variant. -/
theorem Variant.pattern_ne_wildcard_of_causeArm? {v : Variant} {a : Arm}
    (h : v.causeArm? = some a) : a.pattern ≠ .wildcard := by
  have hp : ∀ names, v.pattern names ≠ .wildcard := by
    intro names
    unfold pattern
    cases v.shape <;> exact nofun
  unfold causeArm? at h
  split at h
  · cases h
  · cases h
  · cases h
    exact hp _

namespace Definition

variable {d : Definition} {l : Library}

/-- Variants whose causes are fields. -/
def Caused (vs : List Variant) : Prop :=
  ∀ v ∈ vs, (v.cause.kind = .none ↔ v.cause.key = none) ∧
    ∀ k, v.cause.key = some k → k ∈ v.fields.keys

/-- The arm that stands in for the variants without a cause, if there are any. -/
def wildcardArms (d : Definition) : List Arm :=
  if ∃ v ∈ d.variants, v.cause.kind = .none then [⟨.wildcard, .noCause⟩] else []

theorem causeArm?_eq_none_iff {v : Variant} (h : v.cause.kind = .none ↔ v.cause.key = none) :
    v.causeArm? = none ↔ v.cause.kind = .none := by
  obtain ⟨n, sh, fs, t, ns, ⟨kind, key⟩, sp⟩ := v
  cases kind <;> cases key <;> simp_all [Variant.causeArm?]

/-- Behind the arms of the variants with a cause, there is one more if some variant has none. -/
theorem causeArms_eq (h : Caused d.variants) :
    d.causeArms = d.variants.filterMap Variant.causeArm? ++ d.wildcardArms := by
  have hl : (d.variants.filterMap Variant.causeArm?).length < d.variants.length ↔
      ∃ v ∈ d.variants, v.cause.kind = .none := by
    rw [List.length_filterMap_lt_length_iff_exists]
    simp only [exists_prop]
    exact exists_congr fun v ↦ and_congr_right fun hv ↦ causeArm?_eq_none_iff (h v hv).1
  simp only [causeArms, wildcardArms, hl]
  split
  · rfl
  · rw [List.append_nil]

/-- There is no arm at all exactly if there are no variants. -/
theorem causeArms_eq_nil_iff : d.causeArms = [] ↔ d.variants = [] := by
  simp only [causeArms]
  split
  · next hl =>
    have hn : d.variants ≠ [] := fun hn ↦ by simp [hn] at hl
    simp [hn]
  · next hl =>
    constructor
    · intro hn
      rw [hn, List.length_nil, Nat.not_lt, Nat.le_zero] at hl
      exact List.length_eq_zero_iff.1 hl
    · intro hn
      rw [hn]
      rfl

/-! ## Impls -/

/-- The impl of the error trait with given arms. -/
def errorText (d : Definition) (l : Library) (arms : List Arm) : String :=
  implText (l.errorTrait ++ " for " ++ d.name)
    ("fn source(&self) -> " ++ l.option ++ "<&(dyn " ++ l.errorTrait ++ " + 'static)>")
    (matchText l arms)

/-- The impl of the formatting trait with given arms. -/
def displayText (d : Definition) (l : Library) (arms : List Arm) : String :=
  implText (l.fmt ++ "::Display for " ++ d.name)
    ("fn fmt(&self, __formatter: &mut " ++ l.fmt ++ "::Formatter<'_>) -> " ++ l.fmt ++ "::Result")
    (matchText l arms)

theorem errorImpl_eq (d : Definition) (l : Library) :
    d.errorImpl l = d.errorText l d.causeArms := implBlock_matchBlock _ _ l d.causeArms

theorem displayImpl?_eq (d : Definition) (l : Library) :
    d.displayImpl? l = if d.noDisplay then none else some (d.displayText l d.displayArms) := by
  rw [displayImpl?, implBlock_matchBlock]
  rfl

/-! ## Conversions -/

section Conversions

variable (d : Definition) (l : Library)

/-- A variant that can be made from one field, with the key of the field and the text of its
type. -/
structure Conversion where
  variant : Variant
  key : String
  type : String

/-- The conversion to a variant, if it has one. -/
def conversion? (v : Variant) : Option Conversion :=
  match v.cause with
  | ⟨.conversion, some key⟩ => (v.fields.get? key).map fun type ↦ ⟨v, key, type⟩
  | _ => none

/-- The conversions to the variants of a definition, in order. -/
def conversions : List Conversion := d.variants.filterMap conversion?

/-- The text of a conversion before the first of its two mentions of the type. -/
def conversionHead : String := "impl " ++ l.fromTrait ++ "<"

/-- The text of a conversion between its two mentions of the type. -/
def conversionMiddle : String := "> for " ++ d.name ++ " \x7b\n    fn from(value: "

/-- The text of a conversion behind its second mention of the type. -/
def conversionTail (c : Conversion) : String :=
  ") -> Self \x7b\n        " ++ conversionBody c.variant c.key ++ "\n    \x7d\n\x7d"

theorem conversionTail_eq (c : Conversion) :
    conversionTail c =
      ") -> Self \x7b\n        " ++ conversionBody c.variant c.key ++ "\n    \x7d\n\x7d" := rfl

/-- A conversion: fixed text around two mentions of its type. -/
def conversionText (c : Conversion) : String :=
  conversionHead l ++ c.type ++ d.conversionMiddle ++ c.type ++ conversionTail c

theorem conversion_eq (c : Conversion) :
    implBlock (l.fromTrait ++ "<" ++ c.type ++ "> for " ++ d.name)
        ("fn from(value: " ++ c.type ++ ") -> Self") [conversionBody c.variant c.key] =
      d.conversionText l c := by
  have h₁ : " \x7b\n    fn from(value: " = " \x7b\n    " ++ "fn from(value: " := rfl
  have h₂ : ") -> Self \x7b\n        " = ") -> Self" ++ (" \x7b" ++ "\n        ") := rfl
  rw [implBlock_eq, conversionText, conversionHead, conversionMiddle, conversionTail_eq, h₁, h₂]
  simp only [bodyText, List.map_cons, List.map_nil, String.join_cons, String.join_nil,
    String.append_empty, String.append_assoc]

variable {d} {v : Variant} {c : Conversion}

theorem conversion?_eq_some_iff :
    conversion? v = some c ↔
      c.variant = v ∧ v.cause = ⟨.conversion, some c.key⟩ ∧ v.fields.get? c.key = some c.type := by
  unfold conversion?
  split
  · next key hc =>
    rw [Option.map_eq_some_iff]
    constructor
    · rintro ⟨type, ht, rfl⟩
      exact ⟨rfl, hc, ht⟩
    · rintro ⟨rfl, he, ht⟩
      cases hc.symm.trans he
      exact ⟨c.type, ht, rfl⟩
  · next hc =>
    constructor
    · rintro ⟨⟩
    · rintro ⟨-, he, -⟩
      exact absurd he (hc c.key)

theorem mem_conversions :
    c ∈ d.conversions ↔ c.variant ∈ d.variants ∧
      c.variant.cause = ⟨.conversion, some c.key⟩ ∧
        c.variant.fields.get? c.key = some c.type := by
  rw [conversions, List.mem_filterMap]
  simp only [conversion?_eq_some_iff]
  constructor
  · rintro ⟨v, hv, rfl, h⟩
    exact ⟨hv, h⟩
  · rintro ⟨hv, h⟩
    exact ⟨c.variant, hv, rfl, h⟩

theorem conversionImpl_of_conversion? (h : conversion? v = some c) :
    d.conversionImpl l v = .ok (d.conversionText l c) := by
  obtain ⟨rfl, hc, ht⟩ := conversion?_eq_some_iff.1 h
  have hk : c.variant.conversionType = .ok (some c.type) := by
    simp [Variant.conversionType, hc, ht]
  simp only [conversionImpl, hk, hc, conversion_eq]

/-- The conversions of a definition can be written if each has its field. -/
theorem conversionImpls_eq
    (h : ∀ v ∈ d.variants, v.cause.kind = .conversion → (conversion? v).isSome = true) :
    d.conversionImpls l = .ok (d.conversions.map (d.conversionText l)) := by
  unfold conversionImpls conversions
  generalize d.variants = vs at h
  induction vs with
  | nil => rfl
  | cons v vs ih =>
    have ih := ih fun w hw ↦ h w (by simp [hw])
    by_cases hk : v.cause.kind = .conversion
    · obtain ⟨c, hc⟩ := Option.isSome_iff_exists.1 (h v (by simp) hk)
      simp only [List.filter_cons, hk, beq_self_eq_true, if_true, List.mapM_cons, ih,
        List.filterMap_cons, hc, conversionImpl_of_conversion? l hc]
      rfl
    · have hc : conversion? v = none := by
        refine Option.eq_none_iff_forall_not_mem.2 fun c hc ↦ hk ?_
        rw [(conversion?_eq_some_iff.1 hc).2.1]
      rw [List.filter_cons_of_neg (by simpa using hk), List.filterMap_cons_none hc]
      exact ih

/-- A conversion has its field, if its cause is one. -/
theorem Caused.isSome_conversion? (h : Caused d.variants) {v : Variant} (hv : v ∈ d.variants)
    (hc : v.cause.kind = .conversion) : (conversion? v).isSome = true := by
  obtain ⟨hn, hk⟩ := h v hv
  obtain ⟨k, hkey⟩ := Option.ne_none_iff_exists'.1 (mt hn.2 (by simp [hc]))
  have hcause : v.cause = ⟨.conversion, some k⟩ := by rw [← hc, ← hkey]
  rw [conversion?, hcause]
  simpa using Keyed.isSome_get? (hk k hkey)

end Conversions

/-! ## The whole text -/

/-- The text of all impls is those of the error and formatting traits and then the conversions. -/
theorem assemble_eq (l : Library)
    (h : ∀ v ∈ d.variants, v.cause.kind = .conversion → (conversion? v).isSome = true) :
    d.assemble l = .ok (d.errorImpl l
      ++ String.join ((d.displayImpl? l).toList.map ("\n\n" ++ ·))
      ++ String.join (d.conversions.map fun c ↦ "\n\n" ++ d.conversionText l c) ++ "\n") := by
  rw [assemble, conversionImpls_eq l h]
  simp only [Except.map, List.cons_append, intercalate_cons, List.map_append, String.join_append,
    List.map_map, String.append_assoc, Function.comp_def]

/-- The impls of the error and formatting traits with given arms, and then given conversions. -/
def implsText (d : Definition) (l : Library) (causes displays : List Arm)
    (conversions : List String) : String :=
  "\n\n".intercalate (d.errorText l causes ::
    (if d.noDisplay then [] else [d.displayText l displays]) ++ conversions) ++ "\n"

theorem assemble_eq_implsText (d : Definition) (l : Library) :
    d.assemble l = (d.conversionImpls l).map (d.implsText l d.causeArms d.displayArms) := by
  unfold assemble implsText
  rw [errorImpl_eq, displayImpl?_eq]
  cases d.noDisplay <;> rfl

/-- What is given out is the text itself, if it folds into trees. -/
theorem generate_eq_ok_iff {code : String} :
    d.generate l = .ok code ↔
      d.assemble l = .ok code ∧ ∃ ts, Tree.read (some "<generated>") code = .ok ts := by
  have hr (text : String) :
      ((recheck text).mapError fun f ↦ (⟨.assembly f, d.span⟩ : Failure)) = .ok code ↔
        text = code ∧ ∃ ts, Tree.read (some "<generated>") text = .ok ts := by
    unfold recheck
    cases Tree.read (some "<generated>") text <;> simp [Except.mapError]
  unfold generate
  cases d.assemble l with
  | error f =>
    constructor
    · rintro ⟨⟩
    · rintro ⟨⟨⟩, -⟩
  | ok text =>
    refine (hr text).trans ?_
    rw [Except.ok.injEq]
    exact and_congr_right fun h ↦ by rw [h]

end Definition

end ErrorDerive
