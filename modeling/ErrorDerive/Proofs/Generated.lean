import ErrorDerive.Proofs.Generated.Impls
import ErrorDerive.Proofs.Lexing.Passage

/-!
# Generated code as passages

Generated code is put together from fixed text, identifiers and quoted templates.  Where the names
of a definition are identifiers (`Variant.Spelled`), the impls of the error and formatting traits
are passages, and so is all of a conversion but the type that it is made from.
-/

namespace ErrorDerive

/-! ## Names -/

/-- Whether a text may be the key of a field: a numeral in a tuple, an identifier otherwise. -/
def Shape.isKey (shape : Shape) (key : String) : Bool :=
  match shape with
  | .tuple => Text.isNumeral key.toList
  | _ => Lexeme.isIdent key.toList

theorem Shape.isIdent_of_isKey {shape : Shape} {key : String} (h : shape.isKey key = true)
    (hs : shape ≠ .tuple) : Lexeme.isIdent key.toList = true := by
  cases shape with
  | tuple => exact absurd rfl hs
  | unit => exact h
  | struct => exact h

/-- Variants whose names are identifiers. -/
structure Variant.Spelled (v : Variant) : Prop where
  name : Lexeme.isIdent v.name.toList = true
  keys : v.shape ≠ .unit → ∀ k ∈ v.fields.keys, v.shape.isKey k = true
  cause : ∀ k ∈ v.cause.key, v.shape.isKey k = true

theorem isIdent_tupleAlias {key : String} (h : Text.isNumeral key.toList = true) :
    Lexeme.isIdent (tupleAlias key).toList = true := by
  have hd : ∀ c ∈ key.toList, c.isDigit = true := by
    simp only [Text.isNumeral, Bool.and_eq_true, List.all_eq_true] at h
    exact h.2
  rw [tupleAlias, String.toList_append]
  exact Lexeme.isIdent_of_isName (Lexeme.isName_append (by decide)
    fun c hc ↦ isNameRest_of_isDigit (hd c hc))

theorem Variant.isIdent_binding {v : Variant} {key : String} (h : v.shape.isKey key = true) :
    Lexeme.isIdent (v.binding key).toList = true := by
  unfold Variant.binding
  cases hs : v.shape with
  | tuple =>
    rw [hs] at h
    exact isIdent_tupleAlias h
  | unit => exact Shape.isIdent_of_isKey h (by simp [hs])
  | struct => exact Shape.isIdent_of_isKey h (by simp [hs])

theorem Variant.Spelled.displayNames {v : Variant} (h : v.Spelled) (hs : v.shape ≠ .unit)
    {n : String} (hn : n ∈ v.displayNames) : Lexeme.isIdent n.toList = true := by
  obtain ⟨k, hk, rfl⟩ := List.mem_map.1 hn
  exact Variant.isIdent_binding (h.keys hs k hk)

/-! ## Rows of passages -/

namespace Passage

variable {o : List Delimiter}

/-- Passages of one kind with another text between them. -/
theorem intercalate {a b c d : Edge} {sep s : String} {ss : List String}
    (hs : ∀ t ∈ s :: ss, Passage a b o o [] t) (hsep : Passage c d o o [] sep)
    (h₁ : b.meets c = true) (h₂ : d.meets a = true) :
    Passage a b o o [] (sep.intercalate (s :: ss)) := by
  have h := (hs s (by simp)).append_join (l := ss) (g := fun _ ↦ []) h₁
    fun t ht ↦ hsep.append (hs t (by simp [ht])) h₂
  have hg : ss.flatMap (fun _ ↦ ([] : List (LiteralKind × String))) = [] := by simp
  rw [hg] at h
  rwa [intercalate_cons]

/-- Identifiers between commas. -/
theorem idents {ns : List String} (hne : ns ≠ [])
    (h : ∀ n ∈ ns, Lexeme.isIdent n.toList = true) :
    Passage .word .word o o [] (", ".intercalate ns) := by
  obtain ⟨n, ns, rfl⟩ := List.exists_cons_of_ne_nil hne
  exact intercalate (fun m hm ↦ .ident (h m hm)) (.fixed .solid .blank [] [] ", " rfl) rfl rfl

end Passage

/-! ## Paths of the library -/

namespace Library

variable (l : Library) {o : List Delimiter}

theorem passage_root : Passage .solid .word o o [] l.root := by
  cases l
  · exact .fixed .solid .word [] [] "::std" rfl
  · exact .fixed .solid .word [] [] "::core" rfl

theorem passage_errorTrait : Passage .solid .word o o [] l.errorTrait :=
  l.passage_root.append (.fixed .solid .word [] [] "::error::Error" rfl) rfl

theorem passage_fmt : Passage .solid .word o o [] l.fmt :=
  l.passage_root.append (.fixed .solid .word [] [] "::fmt" rfl) rfl

theorem passage_option : Passage .solid .word o o [] l.option :=
  l.passage_root.append (.fixed .solid .word [] [] "::option::Option" rfl) rfl

theorem passage_fromTrait : Passage .solid .word o o [] l.fromTrait :=
  l.passage_root.append (.fixed .solid .word [] [] "::convert::From" rfl) rfl

end Library

/-! ## Arms -/

section Arms

variable {o : List Delimiter}

theorem passage_self {name : String} (h : Lexeme.isIdent name.toList = true) :
    Passage .word .word o o [] ("Self::" ++ name) :=
  (Passage.fixed .word .solid [] [] "Self::" rfl).append (.ident h) rfl

/-- Patterns of which all names are identifiers. -/
def Pattern.Spelled : Pattern → Prop
  | .unit v => Lexeme.isIdent v.toList = true
  | .tuple v slots => Lexeme.isIdent v.toList = true ∧
      ∀ n, some n ∈ slots → Lexeme.isIdent n.toList = true
  | .struct v names => Lexeme.isIdent v.toList = true ∧
      ∀ n ∈ names, Lexeme.isIdent n.toList = true
  | .wildcard => True

/-- A pattern is a passage if its names are identifiers. -/
theorem Pattern.passage_render {p : Pattern} (h : p.Spelled) :
    Passage .word .word o o [] p.render := by
  unfold Pattern.render
  split
  · exact passage_self h
  · next v slots =>
    have hv := passage_self (o := o) h.1
    split
    · exact (hv.append (.fixed .solid .solid [] [] "(..)" rfl) rfl).ofSolid _
    · next hs =>
      have hne : slots.map (·.getD "_") ≠ [] := by
        intro e
        rw [List.map_eq_nil_iff.1 e] at hs
        simp at hs
      have hi : ∀ n ∈ slots.map (·.getD "_"), Lexeme.isIdent n.toList = true := by
        intro n hn
        obtain ⟨m, hm, rfl⟩ := List.mem_map.1 hn
        cases m with
        | none => decide
        | some m => exact h.2 m hm
      have h₁ := hv.append (.fixed .solid .solid [] [.paren] "(" rfl) rfl
      have h₂ := h₁.append (.idents hne hi) rfl
      exact (h₂.append (.fixed .solid .solid [.paren] [] ")" rfl) rfl).ofSolid _
  · next v names =>
    have hv := passage_self (o := o) h.1
    split
    · exact (hv.append (.fixed .blank .solid [] [] " \x7b .. \x7d" rfl) rfl).ofSolid _
    · next hs =>
      have h₁ := hv.append (.fixed .blank .blank [] [.brace] " \x7b " rfl) rfl
      have h₂ := h₁.append (.idents (by simpa using hs) h.2) rfl
      exact (h₂.append (.fixed .solid .solid [.brace] [] ", .. \x7d" rfl) rfl).ofSolid _
  · exact .ident (by decide)

/-- The literals that an arm writes. -/
def ArmBody.literals : ArmBody → List (LiteralKind × String)
  | .write template _ => [(.string, Literal.quote template)]
  | _ => []

/-- Bodies of which all names are identifiers. -/
def ArmBody.Spelled : ArmBody → Prop
  | .cause name => Lexeme.isIdent name.toList = true
  | .noCause => True
  | .write _ names => ∀ n ∈ names, Lexeme.isIdent n.toList = true

theorem passage_namedArgument {n : String} (h : Lexeme.isIdent n.toList = true) :
    Passage .solid .word o o [] (", " ++ n ++ " = " ++ n) :=
  (((Passage.fixed .solid .blank [] [] ", " rfl).append (.ident h) rfl).append
    (.fixed .blank .blank [] [] " = " rfl) rfl).append (.ident h) rfl

theorem ArmBody.passage_render (l : Library) {b : ArmBody} (h : b.Spelled) :
    Passage .solid .word o o b.literals (b.render l) := by
  cases b with
  | cause name =>
    have h₁ := l.passage_option.append (.fixed .solid .solid [] [.paren] "::Some(" rfl) rfl (o := o)
    have h₂ := h₁.append (.ident h) rfl
    exact (h₂.append (.fixed .solid .solid [.paren] [] ")" rfl) rfl).ofSolid _
  | noCause => exact l.passage_option.append (.fixed .solid .word [] [] "::None" rfl) rfl
  | write template names =>
    have h₁ := l.passage_root.append
      (.fixed .solid .blank [] [.paren] "::write!(__formatter, " rfl) rfl (o := o)
    have h₂ := (h₁.append (.quote template) rfl).ofSolid .word
    have h₃ := h₂.append_join (g := fun _ ↦ []) rfl fun n hn ↦ passage_namedArgument (h n hn)
    have h₄ := (h₃.append (.fixed .solid .solid [.paren] [] ")" rfl) rfl).ofSolid .word
    have hg : names.flatMap (fun _ ↦ ([] : List (LiteralKind × String))) = [] := by simp
    simpa [hg, literals, render, namedArguments, String.append_assoc] using h₄

/-- Arms of which all names are identifiers. -/
def Arm.Spelled (a : Arm) : Prop := a.pattern.Spelled ∧ a.body.Spelled

theorem Arm.passage_render (l : Library) {a : Arm} (h : a.Spelled) :
    Passage .word .solid o o a.body.literals (a.render l) := by
  have h₁ := (Pattern.passage_render h.1 (o := o)).append
    (.fixed .blank .blank [] [] " => " rfl) rfl
  have h₂ := h₁.append (ArmBody.passage_render l h.2) rfl
  simpa [render, String.append_assoc] using h₂.append (.fixed .solid .solid [] [] "," rfl) rfl

namespace Variant.Spelled

variable {v : Variant} (h : v.Spelled)
include h

theorem pattern (names : List String) : (v.pattern names).Spelled := by
  unfold Variant.pattern
  split
  · exact h.name
  · next hs =>
    refine ⟨h.name, fun n hn ↦ ?_⟩
    obtain ⟨m, hm, e⟩ := List.mem_map.1 hn
    split at e
    · cases e
      exact h.displayNames (by simp [hs]) hm
    · cases e
  · next hs =>
    refine ⟨h.name, fun n hn ↦ ?_⟩
    have hk := h.keys (by simp [hs]) n (List.mem_filter.1 hn).1
    rwa [hs] at hk

theorem causeArm {a : Arm} (ha : v.causeArm? = some a) : a.Spelled ∧ a.body.literals = [] := by
  unfold causeArm? at ha
  split at ha
  · cases ha
  · cases ha
  · next kind key hk hc =>
    cases ha
    exact ⟨⟨h.pattern _, isIdent_binding (h.cause key (by simp [hc]))⟩, rfl⟩

theorem displayArm (hd : ∀ n ∈ v.displayFields, Lexeme.isIdent n.toList = true) :
    v.displayArm.Spelled := ⟨h.pattern _, hd⟩

end Variant.Spelled

end Arms

/-! ## Impls -/

section Impls

variable {o : List Delimiter} {x : List (LiteralKind × String)}

/-- The blank line between two impls. -/
theorem passage_separator : Passage .blank .blank o o [] "\n\n" :=
  .fixed .blank .blank [] [] "\n\n" rfl

theorem passage_newline : Passage .blank .blank o o [] "\n" :=
  .fixed .blank .blank [] [] "\n" rfl

/-- A match is a passage if its arms are. -/
theorem passage_matchBlock (l : Library) {arms : List Arm} (h : ∀ a ∈ arms, a.Spelled) :
    Passage .blank .solid o o (arms.flatMap (·.body.literals)) (bodyText (matchBlock l arms)) := by
  rw [bodyText_matchBlock]
  cases arms with
  | nil => exact .fixed .blank .solid [] [] "\n        match *self \x7b\x7d" rfl
  | cons a arms =>
    have h₁ : Passage .blank .solid o (.brace :: o) [] ("\n        " ++ "match self \x7b") :=
      .fixed .blank .solid [] [.brace] "\n        match self \x7b" rfl
    have ha : ∀ b ∈ a :: arms, Passage .blank .solid (.brace :: o) (.brace :: o) b.body.literals
        ("\n            " ++ b.render l) := fun b hb ↦
      (Passage.fixed .blank .blank [] [] "\n            " rfl).append
        (Arm.passage_render l (h b hb)) rfl
    have h₂ := h₁.append_join (by decide) ha
    have h₃ := h₂.append (.fixed .blank .solid [.brace] [] "\n        \x7d" rfl) rfl
    rw [matchText, if_neg (List.cons_ne_nil a arms)]
    simpa only [String.append_assoc, List.nil_append, List.append_nil] using h₃

/-- An impl is a passage if its parts are. -/
theorem passage_implBlock {head signature : String} {body : List String}
    (hh : Passage .solid .word [] [] [] head)
    (hs : Passage .word .word [.brace] [.brace] [] signature)
    (hb : Passage .blank .solid [.brace, .brace] [.brace, .brace] x (bodyText body)) :
    Passage .word .solid [] [] x (implBlock head signature body) := by
  have h₁ := (Passage.fixed .word .blank [] [] "impl " rfl (o := [])).append hh rfl
  have h₂ := h₁.append (.fixed .blank .blank [] [.brace] " \x7b\n    " rfl) rfl
  have h₃ := h₂.append hs rfl
  have h₄ := h₃.append (.fixed .blank .solid [] [.brace] " \x7b" rfl) rfl
  have h₅ := h₄.append hb rfl
  have h₆ := h₅.append (.fixed .blank .solid [.brace, .brace] [] "\n    \x7d\n\x7d" rfl) rfl
  rw [implBlock_eq]
  simpa using h₆

end Impls

namespace Definition

variable (d : Definition) (l : Library)

/-- The literals of the formatting routine: one for each variant. -/
def literals : List (LiteralKind × String) :=
  d.variants.map fun v ↦ (.string, Literal.quote v.template)

/-! ## Conversions -/

variable {d} {v : Variant} {c : Conversion}

theorem passage_conversionHead : Passage .word .solid [] [] [] (conversionHead l) :=
  ((Passage.fixed .word .blank [] [] "impl " rfl).append l.passage_fromTrait rfl).append
    (.fixed .solid .solid [] [] "<" rfl) rfl

theorem passage_conversionMiddle (hn : Lexeme.isIdent d.name.toList = true) :
    Passage .solid .blank [] [.paren, .brace] [] d.conversionMiddle :=
  ((Passage.fixed .solid .blank [] [] "> for " rfl).append (.ident hn) rfl).append
    (.fixed .blank .blank [] [.paren, .brace] " \x7b\n    fn from(value: " rfl) rfl

theorem passage_conversionBody (h : v.Spelled) {key : String} (hk : key ∈ v.cause.key)
    {o : List Delimiter} : Passage .word .solid o o [] (conversionBody v key) := by
  have hv := passage_self (o := o) h.name
  have hk := h.cause key hk
  unfold conversionBody
  split
  · exact hv.append (.fixed .solid .solid [] [] "(value)" rfl) rfl
  · next hs =>
    have hk := Shape.isIdent_of_isKey hk hs
    exact ((hv.append (.fixed .blank .blank [] [.brace] " \x7b " rfl) rfl).append (.ident hk)
      rfl).append (.fixed .solid .solid [.brace] [] ": value \x7d" rfl) rfl

theorem passage_conversionTail (h : c.variant.Spelled) (hk : c.key ∈ c.variant.cause.key) :
    Passage .solid .solid [.paren, .brace] [] [] (conversionTail c) :=
  ((Passage.fixed .solid .blank [.paren] [.brace] ") -> Self \x7b\n        " rfl).append
    (passage_conversionBody h hk) rfl).append
      (.fixed .blank .solid [.brace, .brace] [] "\n    \x7d\n\x7d" rfl) rfl

/-! ## The other impls -/

theorem spelled_causeArms (h : ∀ v ∈ d.variants, v.Spelled) {a : Arm} (ha : a ∈ d.causeArms) :
    a.Spelled ∧ a.body.literals = [] := by
  have hm : ∀ b ∈ d.variants.filterMap Variant.causeArm?, b.Spelled ∧ b.body.literals = [] := by
    intro b hb
    obtain ⟨v, hv, hb⟩ := List.mem_filterMap.1 hb
    exact (h v hv).causeArm hb
  simp only [causeArms] at ha
  split at ha
  · rcases List.mem_append.1 ha with ha | ha
    · exact hm a ha
    · rw [List.mem_singleton.1 ha]
      exact ⟨⟨trivial, trivial⟩, rfl⟩
  · exact hm a ha

theorem passage_errorImpl (hn : Lexeme.isIdent d.name.toList = true)
    (h : ∀ v ∈ d.variants, v.Spelled) : Passage .word .solid [] [] [] (d.errorImpl l) := by
  have hb := passage_matchBlock (o := [.brace, .brace]) l fun a ha ↦ (spelled_causeArms h ha).1
  rw [List.flatMap_eq_nil_iff.2 fun a ha ↦ (spelled_causeArms h ha).2] at hb
  refine passage_implBlock ?_ ?_ hb
  · exact (l.passage_errorTrait.append (.fixed .blank .blank [] [] " for " rfl) rfl).append
      (.ident hn) rfl
  · have h₁ := (Passage.fixed .word .blank [] [] "fn source(&self) -> " rfl (o := [.brace])).append
      l.passage_option rfl
    have h₂ := h₁.append (.fixed .solid .blank [] [.paren] "<&(dyn " rfl) rfl
    have h₃ := h₂.append l.passage_errorTrait rfl
    exact (h₃.append (.fixed .blank .solid [.paren] [] " + 'static)>" rfl) rfl).ofSolid _

/-- The impl of the formatting trait holds one literal for each variant. -/
theorem passage_displayImpl (hn : Lexeme.isIdent d.name.toList = true)
    (h : ∀ v ∈ d.variants, v.Spelled)
    (hd : ∀ v ∈ d.variants, ∀ n ∈ v.displayFields, Lexeme.isIdent n.toList = true) {s : String}
    (hs : s ∈ d.displayImpl? l) : Passage .word .solid [] [] d.literals s := by
  have ha : ∀ a ∈ d.displayArms, a.Spelled := by
    intro a ha
    obtain ⟨v, hv, rfl⟩ := List.mem_map.1 ha
    exact (h v hv).displayArm (hd v hv)
  have hb := passage_matchBlock (o := [.brace, .brace]) l ha
  have hl : d.displayArms.flatMap (·.body.literals) = d.literals := by
    rw [displayArms, List.flatMap_map, literals, List.map_eq_flatMap]
    rfl
  rw [hl] at hb
  unfold displayImpl? at hs
  split at hs
  · cases hs
  · cases hs
    refine passage_implBlock ?_ ?_ hb
    · exact (l.passage_fmt.append (.fixed .solid .blank [] [] "::Display for " rfl) rfl).append
        (.ident hn) rfl
    · have h₁ := (Passage.fixed .word .blank [] [.paren] "fn fmt(&self, __formatter: &mut " rfl
        (o := [.brace])).append l.passage_fmt rfl
      have h₂ := h₁.append (.fixed .solid .blank [.paren] [] "::Formatter<'_>) -> " rfl) rfl
      exact (h₂.append l.passage_fmt rfl).append (.fixed .solid .word [] [] "::Result" rfl) rfl

end Definition

end ErrorDerive
