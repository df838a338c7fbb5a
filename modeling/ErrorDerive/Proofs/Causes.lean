import ErrorDerive.Proofs.Binding
import ErrorDerive.Proofs.Composition

/-!
# Causes and conversions in generated code

The accessor of causes has an arm for each variant with a cause, which binds the marked field and
nothing else, and a last arm for all other variants.  Each variant that can be made from its only
field has a conversion from the declared type of that field.  Both hold of every definition that is
read from a text (`Definition.exposesCauses_of_parse`), whatever its settings and its library.
-/

namespace ErrorDerive

/-! ## Declarations -/

/-- The declarations of the fields of a variant, all of them in order, and the cause they mark. -/
structure Variant.Declares (s : Settings) (trees : List Tree) (v : Variant) (fs : List FieldDecl) :
    Prop where
  declaredBy : v.DeclaredBy s trees fs
  fields : v.fields = fs.map fun f ↦ (f.key, f.type.text)
  marked : ∀ f ∈ fs, f.Marked s ↔ v.cause.key = some f.key

namespace Variant.Declares

variable {s : Settings} {trees : List Tree} {v : Variant} {fs : List FieldDecl}

theorem keys (h : v.Declares s trees fs) : v.fields.keys = fs.map FieldDecl.key := by
  rw [h.fields, Keyed.keys, List.map_map]
  rfl

theorem length (h : v.Declares s trees fs) : v.fields.length = fs.length := by
  rw [h.fields, List.length_map]

end Variant.Declares

theorem VariantHead.ReadFrom.exists_declares {s : Settings} {trees : List Tree} {h : VariantHead}
    (hr : h.ReadFrom s trees) (m : Message) : ∃ fs, (h.variant m).Declares s trees fs := by
  rcases hr with ⟨hu, ht⟩ | ⟨g, ht, hg⟩
  · refine ⟨[], ⟨h.name, rfl, rfl, .inl ⟨?_, rfl, ht⟩⟩, ?_, by simp⟩
    · simp [variant, hu]
    · simp [variant, hu]
  · obtain ⟨fs, hs, hf, hc⟩ := FieldList.ofGroup_eq_ok_iff.1 hg
    have hn := FieldDecl.nodup_keys hs
    exact ⟨fs, ⟨h.name, rfl, rfl, .inr ⟨g, ht, hs⟩⟩, by rw [variant, hf, FieldDecl.table_eq hn],
      fun f hf ↦ FieldDecl.marked_iff_of_cause hc hn hf⟩

/-! ## Arms -/

namespace Variant

/-- The arm for a variant with declared fields that yields one of them: a tuple has a slot for each
field, of which only that one is bound, and a struct binds it by its name. -/
inductive Yields (l : Library) (v : Variant) (fs : List FieldDecl) (f : FieldDecl) (a : Arm) : Prop
  | tuple (i : Nat) (hs : v.shape = .tuple) (hi : fs[i]? = some f)
      (hb : a.pattern.bound = ["field_" ++ toString i])
      (ht : a.render l = "Self::" ++ v.name ++ "(" ++ ", ".intercalate
        ((List.range fs.length).map fun j ↦ if j = i then "field_" ++ toString i else "_") ++
          ") => " ++ l.option ++ "::Some(" ++ ("field_" ++ toString i) ++ "),")
  | struct (hs : v.shape = .struct) (hb : a.pattern.bound = [f.key])
      (ht : a.render l = "Self::" ++ v.name ++ " \x7b " ++ f.key ++ ", .. \x7d => " ++
        l.option ++ "::Some(" ++ f.key ++ "),")

/-- The arm of a variant that yields the only field that its declaration marks. -/
def YieldsMarked (s : Settings) (l : Library) (trees : List Tree) (v : Variant) (a : Arm) : Prop :=
  ∃ fs f, v.Declares s trees fs ∧ f ∈ fs ∧ (∀ g ∈ fs, g.Marked s ↔ g = f) ∧ v.Yields l fs f a

variable {s : Settings} {l : Library} {noDisplay : Bool} {trees : List Tree} {v : Variant}
  {fs : List FieldDecl}

theorem causeArm?_of_key {k : String} (hn : v.cause.kind ≠ .none) (hk : v.cause.key = some k) :
    v.causeArm? = some ⟨v.pattern [v.binding k], .cause (v.binding k)⟩ := by
  obtain ⟨n, sh, fs, t, ns, ⟨kind, key⟩, sp⟩ := v
  cases hk
  cases kind with
  | none => exact absurd rfl hn
  | conversion => rfl
  | sourceOnly => rfl

theorem filter_contains_singleton {ns : List String} {n : String} (hd : ns.Nodup) (hn : n ∈ ns) :
    ns.filter [n].contains = [n] := by
  have hc : ([n].contains : String → Bool) = (· == n) := by
    funext m
    rw [Bool.eq_iff_iff]
    simp
  rw [hc, List.filter_beq, List.count_eq_one_of_mem hd hn, List.replicate_one]

/-- A pattern that is asked for the name of one field binds just that. -/
theorem Sound.bound_pattern_binding (h : v.Sound s noDisplay trees) {k : String}
    (hk : k ∈ v.fields.keys) : (v.pattern [v.binding k]).bound = [v.binding k] := by
  rw [bound_pattern fun hu ↦ (h.unit hu).1]
  exact filter_contains_singleton (nodup_displayNames h.nodup_keys) (List.mem_map_of_mem hk)

/-- The key of a tuple field is its index. -/
theorem Sound.key_eq_toString (h : v.Sound s noDisplay trees) (hd : v.Declares s trees fs)
    (hs : v.shape = .tuple) {i : Nat} {f : FieldDecl} (hi : fs[i]? = some f) :
    f.key = toString i := by
  have hk := h.tuple_keys hs
  rw [hd.keys, hd.length] at hk
  have hm := congrArg (·[i]?) hk
  have hl : i < fs.length := (List.getElem?_eq_some_iff.1 hi).1
  simpa only [List.getElem?_map, hi, List.getElem?_range hl, Option.map_some, Option.some.injEq]
    using hm

/-- An arm that is made for a declared field yields that field. -/
theorem Sound.yields (h : v.Sound s noDisplay trees) (hd : v.Declares s trees fs) {f : FieldDecl}
    (hf : f ∈ fs) (l : Library) :
    v.Yields l fs f ⟨v.pattern [v.binding f.key], .cause (v.binding f.key)⟩ := by
  have hk : f.key ∈ v.fields.keys := hd.keys ▸ List.mem_map_of_mem hf
  have hb := h.bound_pattern_binding hk
  cases hs : v.shape with
  | unit =>
    rw [(h.unit hs).1] at hk
    cases hk
  | tuple =>
    obtain ⟨i, hi⟩ := List.mem_iff_getElem?.1 hf
    have hn : v.binding f.key = "field_" ++ toString i := by
      rw [binding, hs, h.key_eq_toString hd hs hi]
      rfl
    rw [hn] at hb ⊢
    have hm : v.displayNames.map (fun m ↦ if m ∈ ["field_" ++ toString i] then m else "_") =
        (List.range fs.length).map fun j ↦ if j = i then "field_" ++ toString i else "_" := by
      rw [displayNames_tuple hs (h.tuple_keys hs), hd.length, List.map_map]
      refine List.map_congr_left fun j _ ↦ ?_
      have hij : tupleAlias (toString j) = "field_" ++ toString i ↔ j = i :=
        (tupleAlias_injective.comp Text.toString_injective).eq_iff
      simp only [Function.comp_apply, List.mem_singleton, hij]
      split
      · next hj =>
        rw [hj]
        rfl
      · rfl
    have hmem : ∀ n ∈ ["field_" ++ toString i], n ∈ v.displayNames := by
      rw [List.forall_mem_singleton, ← hn]
      exact List.mem_map_of_mem hk
    refine .tuple i hs hi hb ?_
    rw [Arm.render, render_tuple hs hmem, hm]
    simp [ArmBody.render, String.append_assoc]
  | struct =>
    have hn : v.binding f.key = f.key := by
      rw [binding, hs]
    rw [hn] at hb ⊢
    refine .struct hs hb ?_
    simp only [pattern, hs, Pattern.bound] at hb
    simp [Arm.render, ArmBody.render, pattern, hs, Pattern.render, hb, String.append_assoc]

/-- A variant with a cause has an arm, which yields the marked field. -/
theorem Sound.exists_causeArm (h : v.Sound s noDisplay trees) (hd : v.Declares s trees fs)
    (hp : v.cause.isPresent = true) (l : Library) :
    ∃ a, v.causeArm? = some a ∧ v.YieldsMarked s l trees a := by
  have hn : v.cause.kind ≠ .none := by simpa [CauseMarker.isPresent] using hp
  obtain ⟨k, hk⟩ := Option.ne_none_iff_exists'.1 (mt h.none_iff.2 hn)
  obtain ⟨f, hf, rfl⟩ := List.mem_map.1 (hd.keys ▸ h.cause_key k hk)
  refine ⟨_, causeArm?_of_key hn hk, fs, f, hd, hf, fun g hg ↦ ?_, h.yields hd hf l⟩
  rw [hd.marked g hg, hk, Option.some.injEq]
  have hnd : (fs.map FieldDecl.key).Nodup := hd.keys ▸ h.nodup_keys
  exact ⟨fun he ↦ (List.inj_on_of_nodup_map hnd hf hg he).symm, fun he ↦ by rw [he]⟩

end Variant

/-! ## Conversions -/

/-- The impl of the conversion to a variant from the type of its only field, as declared; its body
puts the value into that field. -/
def Definition.Converts (s : Settings) (l : Library) (trees : List Tree) (d : Definition)
    (v : Variant) (impl : String) : Prop :=
  ∃ f body, v.Declares s trees [f] ∧ f.Marked s ∧
    (v.shape = .tuple ∧ body = "Self::" ++ v.name ++ "(value)" ∨
      v.shape = .struct ∧ body = "Self::" ++ v.name ++ " \x7b " ++ f.key ++ ": value \x7d") ∧
    impl = "impl " ++ l.fromTrait ++ "<" ++ f.type.text ++ "> for " ++ d.name ++
      " \x7b\n    fn from(value: " ++ f.type.text ++ ") -> Self \x7b\n        " ++ body ++
        "\n    \x7d\n\x7d"

section Conversions

open Definition

variable {s : Settings} {l : Library} {noDisplay : Bool} {trees : List Tree} {v : Variant}
  {fs : List FieldDecl} {d : Definition}

/-- A variant that can be made from its cause has a conversion. -/
theorem Variant.Sound.exists_conversion (h : v.Sound s noDisplay trees)
    (hd : v.Declares s trees fs) (hc : v.cause.kind = .conversion) (d : Definition) (l : Library) :
    ∃ c, conversion? v = some c ∧ d.Converts s l trees v (d.conversionText l c) := by
  obtain ⟨f, rfl⟩ := List.length_eq_one_iff.1 (hd.length ▸ h.conversion hc)
  have hk : v.cause.key = some f.key := by
    obtain ⟨k, hk⟩ := Option.ne_none_iff_exists'.1 (mt h.none_iff.2 (by simp [hc]))
    have hm := h.cause_key k hk
    rw [hd.keys, List.map_singleton, List.mem_singleton] at hm
    rw [hk, hm]
  have hcause : v.cause = ⟨.conversion, some f.key⟩ := by rw [← hc, ← hk]
  have hf : v.fields.get? f.key = some f.type.text := by
    rw [hd.fields]
    simp [Keyed.get?]
  have hm : f.Marked s := (hd.marked f List.mem_cons_self).2 hk
  have hx : conversion? v = some ⟨v, f.key, f.type.text⟩ :=
    conversion?_eq_some_iff.2 ⟨rfl, hcause, hf⟩
  refine ⟨_, hx, f, conversionBody v f.key, hd, hm, ?_, ?_⟩
  · cases hs : v.shape with
    | unit =>
      rw [(h.unit hs).1] at hf
      cases hf
    | tuple => exact .inl ⟨rfl, by rw [conversionBody, hs]⟩
    | struct => exact .inr ⟨rfl, by rw [conversionBody, hs]⟩
  · simp only [conversionText, conversionHead, conversionMiddle, conversionTail_eq,
      String.append_assoc]

end Conversions

/-! ## The accessor -/

/-- A row of results, one for each element that satisfies a condition. -/
theorem forall₂_filter_filterMap {α β : Type} {R : α → β → Prop} {p : α → Bool} {f : α → Option β}
    {xs : List α} (hp : ∀ x ∈ xs, p x = true → ∃ y, f x = some y ∧ R x y)
    (hn : ∀ x ∈ xs, p x = false → f x = none) :
    List.Forall₂ R (xs.filter p) (xs.filterMap f) := by
  induction xs with
  | nil => exact .nil
  | cons x xs ih =>
    have ih := ih (fun y hy ↦ hp y (List.mem_cons_of_mem x hy))
      (fun y hy ↦ hn y (List.mem_cons_of_mem x hy))
    cases hx : p x with
    | true =>
      obtain ⟨y, hy, hr⟩ := hp x List.mem_cons_self hx
      rw [List.filter_cons_of_pos hx, List.filterMap_cons_some hy]
      exact .cons hr ih
    | false =>
      rw [List.filter_cons_of_neg (by simp [hx]),
        List.filterMap_cons_none (hn x List.mem_cons_self hx)]
      exact ih

namespace Definition

variable {s : Settings} {l : Library} {trees : List Tree} {d : Definition}

/-- What generated code makes of the causes in a definition whose body has given trees. -/
structure ExposesCauses (s : Settings) (l : Library) (trees : List Tree) (d : Definition) :
    Prop where
  /-- Each variant with a cause has an arm, and the others share one. -/
  arms : ∃ arms, d.causeArms = arms ++
      (if ∃ v ∈ d.variants, v.cause.isPresent = false then [⟨.wildcard, .noCause⟩] else []) ∧
    List.Forall₂ (Variant.YieldsMarked s l trees) (d.variants.filter (·.cause.isPresent)) arms
  wildcard : Arm.render l ⟨.wildcard, .noCause⟩ = "_ => " ++ l.option ++ "::None,"
  empty : d.causeArms = [] ↔ d.variants = []
  accessor : d.errorImpl l =
    "impl " ++ l.errorTrait ++ " for " ++ d.name ++ " \x7b\n    fn source(&self) -> " ++
      l.option ++ "<&(dyn " ++ l.errorTrait ++ " + 'static)> \x7b\n        " ++
        (if d.variants = [] then "match *self \x7b\x7d"
          else "match self \x7b" ++
            String.join (d.causeArms.map fun a ↦ "\n            " ++ a.render l) ++
              "\n        \x7d") ++ "\n    \x7d\n\x7d"
  conversions : ∃ impls, d.conversionImpls l = .ok impls ∧
    List.Forall₂ (d.Converts s l trees) (d.variants.filter (·.cause.kind == .conversion)) impls

/-- The accessor with its arms, which are none only if there are no variants. -/
theorem errorImpl_eq_accessor (d : Definition) (l : Library) :
    d.errorImpl l =
      "impl " ++ l.errorTrait ++ " for " ++ d.name ++ " \x7b\n    fn source(&self) -> " ++
        l.option ++ "<&(dyn " ++ l.errorTrait ++ " + 'static)> \x7b\n        " ++
          (if d.variants = [] then "match *self \x7b\x7d"
            else "match self \x7b" ++
              String.join (d.causeArms.map fun a ↦ "\n            " ++ a.render l) ++
                "\n        \x7d") ++ "\n    \x7d\n\x7d" := by
  have h₁ : " \x7b\n    fn source(&self) -> " = " \x7b\n    " ++ "fn source(&self) -> " := rfl
  have h₂ : " + 'static)> \x7b\n        " = " + 'static)>" ++ " \x7b\n        " := rfl
  rw [errorImpl_eq, errorText, implText, matchText, h₁, h₂]
  simp only [causeArms_eq_nil_iff, String.append_assoc]

/-- Sound variants with declared fields are exposed by generated code as their declarations say. -/
theorem exposesCauses {noDisplay : Bool}
    (h : ∀ v ∈ d.variants, v.Sound s noDisplay trees ∧ ∃ fs, v.Declares s trees fs) (l : Library) :
    d.ExposesCauses s l trees := by
  have hc : Caused d.variants := fun v hv ↦ ⟨(h v hv).1.none_iff, (h v hv).1.cause_key⟩
  have hp : ∀ v : Variant, v.cause.isPresent = false ↔ v.cause.kind = .none := by
    simp [CauseMarker.isPresent]
  have he := causeArms_eq hc
  simp only [wildcardArms, ← hp] at he
  have hi := conversionImpls_eq l fun _ ↦ hc.isSome_conversion?
  rw [conversions, List.map_filterMap] at hi
  refine ⟨⟨_, he, forall₂_filter_filterMap ?_ ?_⟩, render_wildcard l, causeArms_eq_nil_iff,
    errorImpl_eq_accessor d l, _, hi, forall₂_filter_filterMap ?_ ?_⟩
  · intro v hv hx
    obtain ⟨hs, fs, hd⟩ := h v hv
    exact hs.exists_causeArm hd hx l
  · intro v hv hx
    exact (causeArm?_eq_none_iff (hc v hv).1).2 ((hp v).1 hx)
  · intro v hv hx
    obtain ⟨hs, fs, hd⟩ := h v hv
    obtain ⟨c, hx, ht⟩ := hs.exists_conversion hd (beq_iff_eq.1 hx) d l
    exact ⟨_, by rw [hx]; rfl, ht⟩
  · intro v hv hx
    have hn : conversion? v = none := by
      refine Option.eq_none_iff_forall_not_mem.2 fun c hm ↦ ?_
      rw [(conversion?_eq_some_iff.1 hm).2.1] at hx
      cases hx
    rw [hn]
    rfl

/-- Generated code exposes the causes of every definition that is read. -/
theorem exposesCauses_of_parse {label : Option String} {source : String}
    (h : Definition.parse s label source = .ok d) :
    ∃ ts body, Tree.read label source = .ok ts ∧ Group.toTree body ∈ ts ∧
      ∀ l : Library, d.ExposesCauses s l body.trees := by
  obtain ⟨ts, name, body, ht, -, hb, hv⟩ := exists_heads h
  have hs : ∀ v ∈ d.variants, v.Sound s d.noDisplay body.trees ∧
      ∃ fs, v.Declares s body.trees fs := by
    intro v hm
    obtain ⟨x, m, hr, hf, rfl⟩ := hv v hm
    exact ⟨x.sound hr hf, hr.exists_declares m⟩
  exact ⟨ts, body, ht, hb, exposesCauses hs⟩

/-- A tuple with a cause among its fields, a struct made from its only field, and a variant without
a cause. -/
def mixedCauses : String :=
  "enum E \x7b\n/// a\nA(T, #[source] U, V),\n/// b\nB \x7b #[from] b: W<T> \x7d,\n/// c\nC\n\x7d"

theorem exposesCauses_of_parse_mixed :
    ∃ d, Definition.parse {} none mixedCauses = .ok d ∧
      d.causeArms.map (Arm.render .std) =
        ["Self::A(_, field_1, _) => ::std::option::Option::Some(field_1),",
          "Self::B \x7b b, .. \x7d => ::std::option::Option::Some(b),",
          "_ => ::std::option::Option::None,"] ∧
      ∃ ts body, Tree.read none mixedCauses = .ok ts ∧ Group.toTree body ∈ ts ∧
        ∀ l : Library, d.ExposesCauses {} l body.trees := by
  have h : (Definition.parse {} none mixedCauses).toOption.map
      (·.causeArms.map (Arm.render .std)) =
        some ["Self::A(_, field_1, _) => ::std::option::Option::Some(field_1),",
          "Self::B \x7b b, .. \x7d => ::std::option::Option::Some(b),",
          "_ => ::std::option::Option::None,"] := by
    decide +kernel
  obtain ⟨d, hd, hx⟩ := Option.map_eq_some_iff.1 h
  have hd := Except.toOption_eq_some_iff.1 hd
  exact ⟨d, hd, hx, exposesCauses_of_parse hd⟩

end Definition

end ErrorDerive
