import ErrorDerive.Proofs.Binding

/-!
# Names of the formatting routine

The formatting routine calls its formatter `__formatter`, and so does each of its arms when it
writes a message.  An arm shadows that name exactly if its variant is a struct with a field of the
name that the message mentions (`Definition.shadows_formatter_iff`); in any other arm the name
denotes the formatter.
-/

namespace ErrorDerive

/-- Whether an identifier stands for a name: it is the name, or the name as a raw identifier. -/
def StandsFor (ident name : String) : Prop := ident = name ∨ ident = "r#" ++ name

/-- An arm shadows a name of the routine around it if its pattern binds that name.  In the body of
the arm the name then denotes a field. -/
def Arm.Shadows (a : Arm) (name : String) : Prop := ∃ n ∈ a.pattern.bound, StandsFor n name

namespace Variant

variable {v : Variant} {s : Settings} {trees : List Tree} {n : String}

/-- A message mentions a name if one of its placeholders has it. -/
def Mentions (v : Variant) (n : String) : Prop :=
  ∃ ps, Template.placeholders v.template = .ok ps ∧ ∃ p ∈ ps, p.hole.name = n

/-- No name of a tuple field stands for the formatter. -/
theorem not_standsFor_tupleAlias (key : String) : ¬StandsFor (tupleAlias key) "__formatter" := by
  have ha : (tupleAlias key).toList.head? = some 'f' := by
    rw [tupleAlias, String.toList_append]
    rfl
  rintro (he | he)
  · rw [he] at ha
    exact absurd ha (by decide)
  · rw [he] at ha
    exact absurd ha (by decide)

/-- The arm that writes a message binds the fields that the message mentions. -/
theorem Sound.mem_bound_displayArm_iff (h : v.Sound s false trees) :
    n ∈ v.displayArm.pattern.bound ↔ n ∈ v.displayNames ∧ v.Mentions n := by
  rw [displayArm, bound_pattern fun hu ↦ (h.unit hu).1, List.mem_filter, List.contains_iff_mem]
  obtain ⟨ps, hp, hf⟩ := h.displayFields rfl
  rw [hf.mem_iff, List.mem_map]
  refine and_congr_right fun _ ↦ ⟨fun hm ↦ ⟨ps, hp, hm⟩, ?_⟩
  rintro ⟨_, hq, hm⟩
  cases hp.symm.trans hq
  exact hm

/-- The arm that writes a message passes the formatter on first. -/
theorem exists_arguments_displayArm (v : Variant) (l : Library) :
    ∃ arguments, v.displayArm.render l =
      v.displayArm.pattern.render ++ " => " ++ l.root ++ "::write!(__formatter, " ++ arguments :=
  ⟨Literal.quote v.template ++ (namedArguments v.displayFields ++ (")" ++ ",")), by
    simp only [displayArm, Arm.render, ArmBody.render, String.append_assoc]⟩

/-- An arm shadows the formatter just for a field of a struct that has its name. -/
theorem Sound.shadows_displayArm_iff (h : v.Sound s false trees) :
    v.displayArm.Shadows "__formatter" ↔ v.shape = .struct ∧
      ∃ key ∈ v.fields.keys, StandsFor key "__formatter" ∧ v.Mentions key := by
  simp only [Arm.Shadows, h.mem_bound_displayArm_iff]
  cases hs : v.shape with
  | unit =>
    rw [displayNames_of_ne_tuple (by simp [hs]), (h.unit hs).1]
    simp [Keyed.keys]
  | tuple =>
    rw [displayNames_tuple hs (h.tuple_keys hs)]
    simp only [reduceCtorEq, false_and, iff_false]
    rintro ⟨n, ⟨hn, -⟩, hf⟩
    obtain ⟨i, -, rfl⟩ := List.mem_map.1 hn
    exact not_standsFor_tupleAlias _ hf
  | struct =>
    rw [displayNames_of_ne_tuple (by simp [hs])]
    constructor
    · rintro ⟨n, ⟨hk, hm⟩, hf⟩
      exact ⟨rfl, n, hk, hf, hm⟩
    · rintro ⟨-, n, hk, hf, hm⟩
      exact ⟨n, ⟨hk, hm⟩, hf⟩

end Variant

namespace Definition

variable {s : Settings} {label : Option String} {source : String} {d : Definition}

/-- The first thing that each arm of the formatting routine passes on is spelled like the
formatter.  It denotes a field in its place exactly if the variant is a struct with a field of that
name which its message mentions. -/
theorem shadows_formatter_iff (h : Definition.parse s label source = .ok d)
    (hd : d.noDisplay = false) :
    ∀ v ∈ d.variants,
      (∀ l : Library, ∃ arguments, v.displayArm.render l =
        v.displayArm.pattern.render ++ " => " ++ l.root ++ "::write!(__formatter, " ++ arguments) ∧
      (v.displayArm.Shadows "__formatter" ↔ v.shape = .struct ∧
        ∃ key ∈ v.fields.keys, StandsFor key "__formatter" ∧ v.Mentions key) := by
  intro v hv
  obtain ⟨_, _, body, -, -, -, hx⟩ := exists_heads h
  obtain ⟨x, m, hr, hf, rfl⟩ := hx v hv
  have hs : (x.variant m).Sound s false body.trees := hd ▸ x.sound hr hf
  exact ⟨(x.variant m).exists_arguments_displayArm, hs.shadows_displayArm_iff⟩

/-- A struct whose message mentions a field that is called like the formatter. -/
def formatterField : Variant where
  name := "A"
  shape := .struct
  fields := [("__formatter", "u8")]
  template := "\x7b__formatter\x7d"
  displayFields := ["__formatter"]
  span := ⟨none, some 1, some 36, some 1, some 37⟩

theorem shadows_formatter_iff_struct :
    ∃ d, Definition.parse {} none
        "enum E \x7b #[error(\"\x7b__formatter\x7d\")] A \x7b __formatter: u8 \x7d \x7d" = .ok d ∧
      d.noDisplay = false ∧ d.variants = [formatterField] ∧
      formatterField.displayArm.render .std = "Self::A \x7b __formatter, .. \x7d => " ++
        "::std::write!(__formatter, \"\x7b__formatter\x7d\", __formatter = __formatter)," ∧
      formatterField.displayArm.Shadows "__formatter" := by
  have h : (Definition.parse {} none
      "enum E \x7b #[error(\"\x7b__formatter\x7d\")] A \x7b __formatter: u8 \x7d \x7d").toOption.map
        (fun d ↦ (d.noDisplay, d.variants)) = some (false, [formatterField]) := by
    decide +kernel
  obtain ⟨d, hd, hx⟩ := Option.map_eq_some_iff.1 h
  obtain ⟨hn, hv⟩ := Prod.mk.inj hx
  have hd := Except.toOption_eq_some_iff.1 hd
  have hp : ((Template.placeholders formatterField.template).toOption.map
      (·.map fun p ↦ p.hole.name)) = some ["__formatter"] := by
    decide +kernel
  obtain ⟨ps, hp, hm⟩ := Option.map_eq_some_iff.1 hp
  have hf : "__formatter" ∈ ps.map fun p ↦ p.hole.name := by simp [hm]
  have hmentions : formatterField.Mentions "__formatter" :=
    ⟨ps, Except.toOption_eq_some_iff.1 hp, List.mem_map.1 hf⟩
  have hi := (shadows_formatter_iff hd hn formatterField (by simp [hv])).2
  exact ⟨d, hd, hn, hv, by decide +kernel, hi.2 ⟨rfl, _, by decide, .inl rfl, hmentions⟩⟩

end Definition

end ErrorDerive
