import ErrorDerive.Proofs.Generated.Impls
import ErrorDerive.Proofs.Invariants
import ErrorDerive.Proofs.Parsing.Lookahead

/-!
# Bodies in a row

Two bodies that are accepted in one enum are accepted in a row, whether or not a comma stands
between them (`Parse.definition_append`).  No variant reads into the next one, each is checked by
itself, and each gives its own arms and its own conversion, which are all that the generated text
has of it.
-/

namespace ErrorDerive

namespace Parse

variable {s : Settings} {noDisplay : Bool} {c c' d : Cursor}

/-! ## Variants -/

/-- A variant starts with an attribute or with its name. -/
theorem ident?_of_variant {v : Variant} {t : Tree} {ts : List Tree}
    (h : Parse.variant s noDisplay c = (.ok v, d)) (hc : c.rest = t :: ts) (ht : Blunt t) :
    ∃ i, t.ident? = some i := by
  obtain ⟨_, e, ha, rfl, he⟩ := reaches_attributes_none hc (by simpa using ht)
  obtain ⟨as, e', ha', h⟩ := bind_eq_ok_iff.1 h
  cases ha.symm.trans ha'
  obtain ⟨i, _, hi, -⟩ := bind_eq_ok_iff.1 h
  obtain ⟨⟨_, _, hr, hv⟩, -⟩ := expect_eq_ok_iff.1 hi
  cases he.symm.trans hr
  exact ⟨i, hv⟩

/-- So nothing that a variant starts with is read by the one before it. -/
theorem apart_of_variant {v : Variant} (h : Parse.variant s noDisplay c = (.ok v, d)) :
    Apart c.rest := by
  intro t ht
  obtain ⟨ts, hc⟩ : ∃ ts, c.rest = t :: ts := List.head?_eq_some_iff.1 ht
  by_cases hb : Blunt t
  · obtain ⟨i, hi⟩ := ident?_of_variant h hc hb
    obtain rfl := Tree.ident?_eq_some_iff.1 hi
    exact ⟨rfl, rfl⟩
  · cases t with
    | group e d us k => exact absurd ⟨rfl, rfl⟩ hb
    | leaf e l =>
      refine ⟨rfl, mark?_eq_none_iff.2 ?_⟩
      cases l with
      | punct m j =>
        -- A comma would be the start of an attribute.
        by_contra hm
        obtain rfl : m = "," := by simpa [Tree.isMark] using hm
        exact hb ⟨rfl, rfl⟩
      | ident | literal | lifetime | doc => rfl

theorem apart_of_variants {body : Group} {vs : List Variant}
    (h : within body (variants s noDisplay) = .ok vs) : Apart body.trees := by
  obtain ⟨e, h⟩ := within_eq_iff.1 h
  by_cases hn : body.trees = []
  · rw [hn]
    rintro t ⟨⟩
  · obtain ⟨v, f, hv, -⟩ := exists_step_of_collect h hn
    exact apart_of_variant hv

/-- Runs of a step that is not told what has been collected before, one behind the other. -/
theorem Run.append {α : Type} {step : Parse (Option α)} {c d e : Cursor} {xs ys : List α}
    (h : Run (fun _ ↦ step) c xs d) (h' : Run (fun _ ↦ step) d ys e) :
    Run (fun _ ↦ step) c (xs ++ ys) e := by
  induction h' with
  | start => rwa [List.append_nil]
  | next _ hs ih =>
    rw [← List.append_assoc]
    exact ih.next hs

/-- The variants in two bodies are those of the bodies in a row. -/
theorem variants_append {b₁ b₂ body : Group} {vs₁ vs₂ : List Variant}
    (h₁ : within b₁ (variants s noDisplay) = .ok vs₁)
    (h₂ : within b₂ (variants s noDisplay) = .ok vs₂) (hb : body.trees = b₁.trees ++ b₂.trees) :
    within body (variants s noDisplay) = .ok (vs₁ ++ vs₂) := by
  have hs := fun _ : List Variant ↦ settled_variant s noDisplay
  have hr := fun _ : List Variant ↦ reads_variant s noDisplay
  obtain ⟨d₁, hr₁, hd₁⟩ := variants_eq_ok_iff.1 h₁
  obtain ⟨d₂, hr₂, hd₂⟩ := variants_eq_ok_iff.1 h₂
  have hb₁ : (Cursor.ofGroup b₁).rest = b₁.trees ++ d₁.rest := by simp [Cursor.ofGroup, hd₁]
  have hb₂ : (Cursor.ofGroup b₂).rest = b₂.trees ++ d₂.rest := by simp [Cursor.ofGroup, hd₂]
  have hb : (Cursor.ofGroup body).rest = b₁.trees ++ b₂.trees := hb
  -- The first run stops in front of the second body, where the second run starts.
  obtain ⟨c₁, hc₁, he₁⟩ := hr₁.exchange_ifMore hs hr hb₁ hb (.inr (apart_of_variants h₂))
  obtain ⟨c₂, hc₂, he₂⟩ := hr₂.exchange_ifMore hs hr hb₂ (he₁.trans (hd₂ ▸ hb₂)) (.refl _ _)
  exact variants_eq_ok_iff.2 ⟨c₂, hc₁.append hc₂, he₂.trans hd₂⟩

/-! ## Items -/

/-- Two bodies behind one head that are accepted are accepted in a row. -/
theorem reaches_definition_append {ts b₁ b₂ : List Tree} {e₁ e₂ e k₁ k₂ k : Extent}
    {c₁ c₂ d₁ d₂ : Cursor} {x₁ x₂ : Definition}
    (h₁ : definition s c₁ = (.ok x₁, d₁)) (hc₁ : c₁.rest = ts ++ [.group e₁ .brace b₁ k₁])
    (h₂ : definition s c₂ = (.ok x₂, d₂)) (hc₂ : c₂.rest = ts ++ [.group e₂ .brace b₂ k₂])
    (hc : c.rest = ts ++ [.group e .brace (b₁ ++ b₂) k]) :
    x₂ = { x₁ with variants := x₂.variants } ∧
      Reaches (definition s) c (· = { x₁ with variants := x₁.variants ++ x₂.variants }) [] := by
  obtain ⟨g₁, vs₁, hh₁, hv₁, hn₁, hk₁, rfl⟩ := definition_eq_ok_iff.1 h₁
  obtain ⟨g₂, vs₂, hh₂, hv₂, hn₂, hk₂, rfl⟩ := definition_eq_ok_iff.1 h₂
  obtain ⟨hb₁, g, d, hx, hg, hd⟩ := itemHead_exchange hh₁ hn₁ hc₁ hc
  obtain ⟨hb₂, g', d', hx', hg', -⟩ := itemHead_exchange hh₂ hn₂ hc₂ hc
  obtain rfl : g = g' := by cases hx.symm.trans hx'; rfl
  obtain ⟨noDisplay, keyword, name, body₁⟩ := g₁
  obtain ⟨_, _, _, body₂⟩ := g₂
  subst hg
  obtain ⟨rfl, rfl, rfl, -⟩ := ItemHead.mk.inj hg'
  refine ⟨rfl, _, d, definition_eq_ok_iff.2 ⟨_, vs₁ ++ vs₂, hx, ?_, hd, fun hf ↦ ?_, rfl⟩, rfl, hd⟩
  · exact variants_append hv₁ hv₂ (by rw [hb₁, hb₂])
  · have hc₁ := Definition.check_eq_ok_iff.1 (hk₁ hf)
    have hc₂ := Definition.check_eq_ok_iff.1 (hk₂ hf)
    exact Definition.check_eq_ok_iff.2 fun v hv ↦ (List.mem_append.1 hv).elim (hc₁ v) (hc₂ v)

/-- Every variant of an item that is read is sound. -/
theorem sound_of_definition {x : Definition} (h : definition s c = (.ok x, d)) :
    ∃ ts, ∀ v ∈ x.variants, v.Sound s x.noDisplay ts := by
  obtain ⟨g, vs, -, hv, -, hk, rfl⟩ := definition_eq_ok_iff.1 h
  obtain ⟨e, hr, -⟩ := variants_eq_ok_iff.1 hv
  refine ⟨g.body.trees, fun v hm ↦ ?_⟩
  obtain ⟨y, m, c₁, c₂, hb, hy, hmsg, rfl⟩ := VariantRun.exists_head hr hm
  refine y.sound ((readFrom_of_variantHead hy).of_suffix hb.suffix) fun hf ↦ ?_
  change g.noDisplay = false at hf
  rw [hf] at hmsg
  exact ⟨Message.names_of_ofAttributes hmsg, Definition.check_eq_ok_iff.1 (hk hf) _ hm⟩

end Parse

/-! ## Generated text -/

namespace Definition

variable {d : Definition} {l : Library}

/-- The parts of the text that is generated for a definition: the arms that yield causes, those that
write messages, and the conversions.  Behind the arms that yield causes, one more stands in for all
variants without a cause, if there are any. -/
structure Assembles (d : Definition) (l : Library) (causes displays : List Arm)
    (conversions : List String) : Prop where
  causeArms : d.causeArms = causes ++ d.wildcardArms
  ne_wildcard : ∀ a ∈ causes, a.pattern ≠ .wildcard
  wildcard : Arm.render l ⟨.wildcard, .noCause⟩ = "_ => " ++ l.option ++ "::None,"
  displayArms : d.displayArms = displays
  conversionImpls : d.conversionImpls l = .ok conversions
  text : d.assemble l = .ok (d.implsText l (causes ++ d.wildcardArms) displays conversions)
  generated : ∀ code, d.generate l = .ok code →
    code = d.implsText l (causes ++ d.wildcardArms) displays conversions

/-- Each variant gives its own parts. -/
theorem assembles (h : Caused d.variants) (l : Library) :
    d.Assembles l (d.variants.filterMap Variant.causeArm?) (d.variants.map Variant.displayArm)
      (d.conversions.map (d.conversionText l)) := by
  have hc := causeArms_eq h
  have hi := conversionImpls_eq l fun _ ↦ h.isSome_conversion?
  have ht := assemble_eq_implsText d l
  rw [hi, hc] at ht
  refine ⟨hc, ?_, render_wildcard l, rfl, hi, ht, fun code hg ↦ ?_⟩
  · intro a ha
    obtain ⟨v, -, hv⟩ := List.mem_filterMap.1 ha
    exact Variant.pattern_ne_wildcard_of_causeArm? hv
  · exact Except.ok.inj ((generate_eq_ok_iff.1 hg).1.symm.trans ht)

end Definition

namespace Parse

variable {s : Settings} {c c₁ c₂ d₁ d₂ : Cursor} {ts b₁ b₂ : List Tree}
  {e₁ e₂ e k₁ k₂ k : Extent} {x₁ x₂ : Definition}

theorem caused_of_definition {d : Cursor} {x : Definition} (h : definition s c = (.ok x, d)) :
    Definition.Caused x.variants := by
  obtain ⟨ts, hs⟩ := sound_of_definition h
  exact fun v hv ↦ ⟨(hs v hv).none_iff, (hs v hv).cause_key⟩

/-- Two bodies that are accepted behind one head are accepted in a row.  The variants are those of
the first body and then those of the second, and so are the parts of the text for them. -/
theorem definition_append
    (h₁ : definition s c₁ = (.ok x₁, d₁)) (hc₁ : c₁.rest = ts ++ [.group e₁ .brace b₁ k₁])
    (h₂ : definition s c₂ = (.ok x₂, d₂)) (hc₂ : c₂.rest = ts ++ [.group e₂ .brace b₂ k₂])
    (hc : c.rest = ts ++ [.group e .brace (b₁ ++ b₂) k]) :
    ∃ x d, definition s c = (.ok x, d) ∧ x = { x₁ with variants := x₁.variants ++ x₂.variants } ∧
      ∀ l : Library, ∃ causes₁ causes₂ displays₁ displays₂ conversions₁ conversions₂,
        x₁.Assembles l causes₁ displays₁ conversions₁ ∧
          x₂.Assembles l causes₂ displays₂ conversions₂ ∧
            x.Assembles l (causes₁ ++ causes₂) (displays₁ ++ displays₂)
              (conversions₁ ++ conversions₂) := by
  obtain ⟨hx, x, d, h, rfl, -⟩ := reaches_definition_append h₁ hc₁ h₂ hc₂ hc
  refine ⟨_, d, h, rfl, fun l ↦ ?_⟩
  have ha₁ := Definition.assembles (caused_of_definition h₁) l
  have ha₂ := Definition.assembles (caused_of_definition h₂) l
  have ha := Definition.assembles (caused_of_definition h) l
  refine ⟨_, _, _, _, _, _, ha₁, ha₂, ?_⟩
  rw [hx]
  simp only [Definition.conversions, List.filterMap_append, List.map_append] at ha
  exact ha

/-- The item `enum E { .. }`, with the trees of its body. -/
def enumWithBody (b : List Tree) : Cursor :=
  ⟨[.leaf default (.ident "enum"), .leaf default (.ident "E")] ++
    [.group default .brace b default], default, 0⟩

/-- The variant `A(#[from] T)` with a documentation comment, and no comma behind it. -/
def bodyFromCause : List Tree :=
  [.leaf default (.doc "a"), .leaf default (.ident "A"),
    .group default .paren [.leaf default (.punct "#" false),
      .group default .bracket [.leaf default (.ident "from")] default,
      .leaf default (.ident "T")] default]

/-- The variant `B` with a documentation comment. -/
def bodyWithoutCause : List Tree :=
  [.leaf default (.doc "b"), .leaf default (.ident "B")]

/-- A variant that is made from its cause, without a comma behind it, and one without a cause, which
brings in the last arm. -/
theorem definition_append_without_comma :
    ∃ x₁ d₁ x₂ d₂ x d, definition {} (enumWithBody bodyFromCause) = (.ok x₁, d₁) ∧
      definition {} (enumWithBody bodyWithoutCause) = (.ok x₂, d₂) ∧
        definition {} (enumWithBody (bodyFromCause ++ bodyWithoutCause)) = (.ok x, d) ∧
          x.variants = x₁.variants ++ x₂.variants ∧
            x.causeArms.map (Arm.render .std) =
              ["Self::A(field_0) => ::std::option::Option::Some(field_0),",
                "_ => ::std::option::Option::None,"] ∧
            ∃ causes₁ causes₂ displays₁ displays₂ conversions₁ conversions₂,
              x₁.Assembles .std causes₁ displays₁ conversions₁ ∧
                x₂.Assembles .std causes₂ displays₂ conversions₂ ∧
                  x.Assembles .std (causes₁ ++ causes₂) (displays₁ ++ displays₂)
                    (conversions₁ ++ conversions₂) := by
  have h₁ : (definition {} (enumWithBody bodyFromCause)).1.toOption.isSome = true := by
    decide +kernel
  have h₂ : (definition {} (enumWithBody bodyWithoutCause)).1.toOption.isSome = true := by
    decide +kernel
  have hw : (definition {} (enumWithBody (bodyFromCause ++ bodyWithoutCause))).1.toOption.map
      (·.causeArms.map (Arm.render .std)) =
        some ["Self::A(field_0) => ::std::option::Option::Some(field_0),",
          "_ => ::std::option::Option::None,"] := by
    decide +kernel
  obtain ⟨x₁, hx₁⟩ := Option.isSome_iff_exists.1 h₁
  obtain ⟨x₂, hx₂⟩ := Option.isSome_iff_exists.1 h₂
  have hd₁ : definition {} (enumWithBody bodyFromCause) = (.ok x₁, _) :=
    Prod.ext (Except.toOption_eq_some_iff.1 hx₁) rfl
  have hd₂ : definition {} (enumWithBody bodyWithoutCause) = (.ok x₂, _) :=
    Prod.ext (Except.toOption_eq_some_iff.1 hx₂) rfl
  obtain ⟨x, d, hx, hv, ha⟩ := definition_append hd₁ rfl hd₂ rfl rfl
    (c := enumWithBody (bodyFromCause ++ bodyWithoutCause))
  rw [hx] at hw
  exact ⟨x₁, _, x₂, _, x, d, hd₁, hd₂, hx, congrArg Definition.variants hv,
    Option.some.inj hw, ha .std⟩

end Parse

end ErrorDerive
