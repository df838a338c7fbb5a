import ErrorDerive.Proofs.Generated
import Mathlib.Data.List.Forall2

/-!
# Templates in generated code

Whatever its templates hold, a definition whose names are identifiers and whose conversions are made
from plain types has generated code, and the literals in that code are the templates, one for each
variant in order.
-/

namespace ErrorDerive

/-- Plain types: a path of identifiers, perhaps with plain types as arguments. -/
inductive IsType : String → Prop
  | path {n : String} {ns : List String} (h : ∀ m ∈ n :: ns, Lexeme.isIdent m.toList = true) :
      IsType ("::".intercalate (n :: ns))
  | applied {n : String} {ns : List String} {t : String} {ts : List String}
      (h : ∀ m ∈ n :: ns, Lexeme.isIdent m.toList = true) (hs : ∀ u ∈ t :: ts, IsType u) :
      IsType ("::".intercalate (n :: ns) ++ "<" ++ ", ".intercalate (t :: ts) ++ ">")

namespace Passage

variable {o : List Delimiter}

theorem path {n : String} {ns : List String}
    (h : ∀ m ∈ n :: ns, Lexeme.isIdent m.toList = true) :
    Passage .word .word o o [] ("::".intercalate (n :: ns)) :=
  intercalate (fun m hm ↦ .ident (h m hm)) (.fixed .solid .solid [] [] "::" rfl) rfl rfl

theorem type {t : String} (h : IsType t) : Passage .word .word o o [] t := by
  induction h with
  | path h => exact path h
  | applied h _ ih =>
    have h₁ := (path (o := o) h).append (.fixed .solid .solid [] [] "<" rfl) rfl
    have h₂ := h₁.append (intercalate ih (.fixed .solid .blank [] [] ", " rfl) rfl rfl) rfl
    exact (h₂.append (.fixed .solid .solid [] [] ">" rfl) rfl).ofSolid _

end Passage

/-- Definitions whose names are identifiers, and whose conversions have a field of a plain type. -/
structure Definition.Spelled (d : Definition) : Prop where
  name : Lexeme.isIdent d.name.toList = true
  variants : ∀ v ∈ d.variants, v.Spelled
  displayFields : ∀ v ∈ d.variants, ∀ n ∈ v.displayFields, Lexeme.isIdent n.toList = true
  conversions : ∀ v ∈ d.variants, v.cause.kind = .conversion →
    ∃ key type, v.cause.key = some key ∧ v.fields.get? key = some type ∧ IsType type

namespace Definition

variable {d : Definition}

theorem Spelled.isSome_conversion? (h : d.Spelled) {v : Variant} (hv : v ∈ d.variants)
    (hk : v.cause.kind = .conversion) : (conversion? v).isSome = true := by
  obtain ⟨key, type, hc, ht, -⟩ := h.conversions v hv hk
  have hm : v.cause = ⟨.conversion, some key⟩ := by
    rw [← hk, ← hc]
  exact Option.isSome_iff_exists.2 ⟨⟨v, key, type⟩, conversion?_eq_some_iff.2 ⟨rfl, hm, ht⟩⟩

theorem Spelled.passage_conversionText (h : d.Spelled) (l : Library) {c : Conversion}
    (hc : c ∈ d.conversions) : Passage .word .solid [] [] [] (d.conversionText l c) := by
  obtain ⟨hv, hm, ht⟩ := mem_conversions.1 hc
  obtain ⟨key, type, hk, ht', hp⟩ := h.conversions _ hv (by rw [hm])
  have hk : c.key = key := by
    rw [hm] at hk
    exact Option.some.inj hk
  have ht : c.type = type := by
    rw [hk] at ht
    exact Option.some.inj (ht.symm.trans ht')
  rw [← ht] at hp
  have h₁ := (passage_conversionHead l).append (.type hp) rfl
  have h₂ := h₁.append (passage_conversionMiddle h.name) rfl
  have h₃ := h₂.append (.type hp) rfl
  exact h₃.append (passage_conversionTail (h.variants _ hv) (by simp [hm])) rfl

/-- All generated code is a passage, whose literals are the templates. -/
theorem Spelled.passage_assemble (h : d.Spelled) (hd : d.noDisplay = false) (l : Library) :
    ∃ code, d.assemble l = .ok code ∧ Passage .word .blank [] [] d.literals code := by
  refine ⟨_, assemble_eq l fun v hv hk ↦ h.isSome_conversion? hv hk, ?_⟩
  obtain ⟨display, hs⟩ : ∃ s, d.displayImpl? l = some s := by
    simp [displayImpl?, hd]
  have hp := passage_displayImpl l h.name h.variants h.displayFields hs
  have h₁ := (passage_errorImpl l h.name h.variants).append
    (passage_separator.append hp rfl) rfl
  have h₂ := h₁.append_join (l := d.conversions) (g := fun _ ↦ []) rfl fun c hc ↦
    passage_separator.append (h.passage_conversionText l hc) rfl
  have h₃ := h₂.append passage_newline rfl
  have hg : d.conversions.flatMap (fun _ ↦ ([] : List (LiteralKind × String))) = [] := by simp
  simpa [hs, hg, String.append_assoc] using h₃

/-- Templates stay whole: generated code exists, and its literals are the templates of the variants,
in order, whatever the templates hold. -/
theorem literals_generate (h : d.Spelled) (hd : d.noDisplay = false) (l : Library)
    (label : Option String) :
    ∃ code ts, d.generate l = .ok code ∧ Tree.read label code = .ok ts ∧
      List.Forall₂ (fun lit v ↦ lit.kind = .string ∧ lit.value = .ok v.template)
        (Tree.literals ts) d.variants := by
  obtain ⟨code, ha, hp⟩ := h.passage_assemble hd l
  obtain ⟨ts, ht, hl⟩ := hp.exists_read label
  refine ⟨code, ts, ?_, ht, ?_⟩
  · obtain ⟨us, hu, -⟩ := hp.exists_read (some "<generated>")
    exact generate_eq_ok_iff.2 ⟨ha, us, hu⟩
  · have hf : List.Forall₂ Eq ((Tree.literals ts).map fun l ↦ (l.kind, l.text)) d.literals := by
      rw [hl, List.forall₂_eq_eq_eq]
    rw [literals, List.forall₂_map_left_iff, List.forall₂_map_right_iff] at hf
    apply hf.imp
    intro lit v e
    obtain ⟨hk, hq⟩ := Prod.mk.inj e
    refine ⟨hk, ?_⟩
    rw [Lit.value, hk, hq, Literal.value_quote]

/-- An enum whose templates look like the end of the code around them. -/
def hostile : Definition where
  name := "E"
  variants :=
    [{ name := "A", shape := .tuple, fields := [("0", "a::B<C, D<r#x>>")],
       template := "\"), \x7d */ \x7bfield_0\x7d\\", displayFields := ["field_0"],
       cause := .conversion "0" },
     { name := "r#B", shape := .struct, fields := [("k", "&'static str"), ("m", "u8")],
       template := "// \x7bk\x7d /* \n", displayFields := ["k"], cause := .sourceOnly "m" },
     { name := "C", shape := .unit, template := "r#\"" }]

theorem isType_hostile : IsType "a::B<C, D<r#x>>" := by
  have hd : IsType ("::".intercalate ["D"] ++ "<" ++ ", ".intercalate ["::".intercalate ["r#x"]]
      ++ ">") := .applied (by decide) fun u hu ↦ by
    rw [List.mem_singleton.1 hu]
    exact .path (by decide)
  have ha : IsType ("::".intercalate ["a", "B"] ++ "<" ++
      ", ".intercalate ["::".intercalate ["C"], _] ++ ">") := .applied (by decide) fun u hu ↦ by
    rcases List.mem_cons.1 hu with rfl | hu
    · exact .path (by decide)
    · rw [List.mem_singleton.1 hu]
      exact hd
  exact ha

theorem literals_generate_hostile : hostile.Spelled ∧
    ∃ code ts, hostile.generate .core = .ok code ∧ Tree.read none code = .ok ts ∧
      List.Forall₂ (fun lit v ↦ lit.kind = .string ∧ lit.value = .ok v.template)
        (Tree.literals ts) hostile.variants := by
  have h : hostile.Spelled := by
    refine ⟨by decide, ?_, by decide, ?_⟩
    · intro v hv
      simp only [hostile, List.mem_cons, List.not_mem_nil, or_false] at hv
      rcases hv with rfl | rfl | rfl <;> exact ⟨by decide, by decide, by decide⟩
    · intro v hv hk
      simp only [hostile, List.mem_cons, List.not_mem_nil, or_false] at hv
      rcases hv with rfl | rfl | rfl
      · exact ⟨"0", _, rfl, rfl, isType_hostile⟩
      · cases hk
      · cases hk
  exact ⟨h, literals_generate h rfl .core none⟩

end Definition

end ErrorDerive
