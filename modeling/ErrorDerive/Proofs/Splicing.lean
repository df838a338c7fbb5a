import ErrorDerive.Proofs.Parsing.Spelling

/-!
# Types in generated code

Generated code mentions the type of a conversion twice, as the text that its trees were written back
to.  That text need not be cut as the trees were: documentation runs on to the end of its line, and
a comment or a raw string that was never ended may find an end in another mention.  `Spliceable`
says that none of this happens, and `splices_iff` that this is just what it takes for the code to be
cut into the lexemes of its parts.
-/

namespace ErrorDerive

open Lexeme (Chain LeavesOpen Nested Solid nest split)

/-! ## Texts in a row -/

/-- The lexemes of a text, up to the first character that starts none. -/
def lexemes (s : String) : List Lexeme := (split s.toList).1

/-- Texts that are made of lexemes. -/
def Whole (s : String) : Prop := (lexemes s).flatMap Lexeme.text = s.toList

theorem whole_iff {s : String} : Whole s ↔ split s.toList = (lexemes s, []) := by
  constructor
  · intro h
    have hs := Lexeme.flatMap_split s.toList
    have hr : (split s.toList).2 = [] := by
      rw [show (split s.toList).1.flatMap Lexeme.text = s.toList from h] at hs
      simpa using hs
    rw [← hr]
    rfl
  · exact fun h ↦ (Lexeme.split_eq_iff.1 h).1

theorem Whole.chain {s : String} (h : Whole s) : Chain (lexemes s) [] :=
  (Lexeme.split_eq_iff.1 (whole_iff.1 h)).2

theorem lexemes_of_split {s : String} {ls : List Lexeme} (h : split s.toList = (ls, [])) :
    Whole s ∧ lexemes s = ls := by
  have hl : lexemes s = ls := by rw [lexemes, h]
  exact ⟨whole_iff.2 (hl ▸ h), hl⟩

theorem read_ok_iff_whole {label : Option String} {s : String} :
    (∃ ts, Tree.read label s = .ok ts) ↔ Whole s ∧ Nested (lexemes s) := by
  rw [Tree.read_ok_iff]
  constructor
  · rintro ⟨ls, hs, hn⟩
    obtain ⟨hw, rfl⟩ := lexemes_of_split hs
    exact ⟨hw, hn⟩
  · rintro ⟨hw, hn⟩
    exact ⟨lexemes s, whole_iff.1 hw, hn⟩

/-- Texts that are cut into their own lexemes one after the other, in front of another text. -/
def Spliced (ss : List String) (r : List Char) : Prop :=
  (∀ s ∈ ss, Whole s) ∧ Chain (ss.flatMap lexemes) r

variable {s t : String} {ss : List String} {r : List Char}

theorem flatMap_lexemes (h : ∀ s ∈ ss, Whole s) :
    (ss.flatMap lexemes).flatMap Lexeme.text = (String.join ss).toList := by
  induction ss with
  | nil => simp
  | cons s ss ih =>
    obtain ⟨hs, h⟩ := List.forall_mem_cons.1 h
    rw [List.flatMap_cons, List.flatMap_append, ih h, hs, String.join_cons, String.toList_append]

theorem spliced_nil : Spliced [] r := ⟨by simp, trivial⟩

theorem spliced_cons_iff :
    Spliced (s :: ss) r ↔
      Whole s ∧ Chain (lexemes s) ((String.join ss).toList ++ r) ∧ Spliced ss r := by
  unfold Spliced
  rw [List.forall_mem_cons, List.flatMap_cons, Lexeme.chain_append]
  constructor
  · rintro ⟨⟨hs, h⟩, hc, hr⟩
    exact ⟨hs, flatMap_lexemes h ▸ hc, h, hr⟩
  · rintro ⟨hs, hc, h, hr⟩
    exact ⟨⟨hs, h⟩, (flatMap_lexemes h).symm ▸ hc, hr⟩

theorem length_flatMap_lexemes_le (ss : List String) :
    ((ss.flatMap lexemes).flatMap Lexeme.text).length ≤ (String.join ss).toList.length := by
  induction ss with
  | nil => simp
  | cons s ss ih =>
    have hs := congrArg List.length (Lexeme.flatMap_split s.toList)
    rw [List.length_append] at hs
    rw [List.flatMap_cons, List.flatMap_append, String.join_cons, String.toList_append,
      List.length_append, List.length_append]
    unfold lexemes at ih ⊢
    omega

/-- Texts are whole if the text that they make has no lexemes but theirs. -/
theorem whole_of_flatMap (h : (ss.flatMap lexemes).flatMap Lexeme.text = (String.join ss).toList) :
    ∀ s ∈ ss, Whole s := by
  induction ss with
  | nil => simp
  | cons s ss ih =>
    rw [List.flatMap_cons, List.flatMap_append, String.join_cons, String.toList_append] at h
    have hp : (lexemes s).flatMap Lexeme.text <+: s.toList :=
      ⟨_, Lexeme.flatMap_split s.toList⟩
    have hl := congrArg List.length h
    rw [List.length_append, List.length_append] at hl
    have hs : Whole s := by
      refine hp.eq_of_length ?_
      have h₁ := hp.length_le
      have h₂ := length_flatMap_lexemes_le ss
      omega
    rw [hs] at h
    exact List.forall_mem_cons.2 ⟨hs, ih (List.append_cancel_left h)⟩

/-- Texts are spliced if the lexemes of the text that they make are theirs. -/
theorem spliced_iff_split :
    Spliced ss [] ↔ split (String.join ss).toList = (ss.flatMap lexemes, []) := by
  rw [Lexeme.split_eq_iff]
  constructor
  · rintro ⟨h, hc⟩
    exact ⟨flatMap_lexemes h, hc⟩
  · rintro ⟨h, hc⟩
    exact ⟨whole_of_flatMap h, hc⟩

/-! ## Passages in a row -/

namespace Passage

variable {a b e : Edge} {o p : List Delimiter} {x : List (LiteralKind × String)}

theorem whole (h : Passage a b o p x s) : Whole s ∧ nest o (lexemes s) = some p := by
  obtain ⟨ls, hs, hn, -⟩ := h.split_eq
  obtain ⟨hw, rfl⟩ := lexemes_of_split hs
  exact ⟨hw, hn⟩

theorem chain (h : Passage a b o p x s) (hr : b.Meets r) : Chain (lexemes s) r := by
  obtain ⟨-, ls, hs, hc, -⟩ := h
  have hl := Lexeme.split_eq_iff.2 ⟨hs, hc [] (by intro c hc; cases hc)⟩
  rw [(lexemes_of_split hl).2]
  exact hc r hr

theorem meets (h : Passage a b o p x s) (hm : e.meets a = true) (r : List Char) :
    e.Meets (s.toList ++ r) := by
  obtain ⟨c, hc, rfl⟩ := Option.map_eq_some_iff.1 h.1
  intro d hd
  rw [List.head?_append, hc] at hd
  cases hd
  exact hm

theorem toList_ne_nil (h : Passage a b o p x s) : s.toList ≠ [] := by
  intro hs
  have hf := h.1
  rw [hs] at hf
  cases hf

theorem solid (h : Passage .solid b o p x s) (r : List Char) : Solid (s.toList ++ r) := by
  obtain ⟨c, hc, he⟩ := Option.map_eq_some_iff.1 h.1
  intro d hd
  rw [List.head?_append, hc] at hd
  cases hd
  exact he

/-- A passage may stand in front of other texts that it may touch. -/
theorem spliced_cons_iff (h : Passage a b o p x s) (hm : b.Meets ((String.join ss).toList ++ r)) :
    Spliced (s :: ss) r ↔ Spliced ss r := by
  rw [ErrorDerive.spliced_cons_iff]
  exact ⟨fun hs ↦ hs.2.2, fun hs ↦ ⟨h.whole.1, h.chain hm, hs⟩⟩

end Passage

theorem StartsToken.meets (h : StartsToken t) (r : List Char) :
    Edge.blank.Meets (t.toList ++ r) := by
  obtain ⟨c, cs, ht, hc⟩ := h
  intro d hd
  rw [ht] at hd
  cases hd
  unfold Edge.ofChar
  rw [hc]
  split
  · contradiction
  · split <;> rfl

/-! ## Ends of comments and raw strings -/

/-- Texts that hold nothing that an end of a comment or a raw string could start with. -/
def Mute (s : String) : Prop := ∀ c ∈ s.toList, c ∉ ['*', '"']

instance (s : String) : Decidable (Mute s) :=
  decidable_of_iff (s.toList.all (fun c ↦ c != '*' && c != '"') = true) (by simp [Mute])

theorem Mute.append (hs : Mute s) (ht : Mute t) : Mute (s ++ t) := by
  intro c hc
  rw [String.toList_append, List.mem_append] at hc
  exact hc.elim (hs c) (ht c)

theorem Mute.ident (h : Lexeme.isIdent s.toList = true) : Mute s := by
  have hn : ∀ {cs : List Char}, Lexeme.isName cs = true → ∀ c ∈ cs, c ∉ ['*', '"'] := by
    intro cs hcs c hc hm
    have hr : ['*', '"'].all (!isNameRest ·) = true := by decide
    have hf := List.all_eq_true.1 hr c hm
    simp [Lexeme.isNameRest_of_isName hcs hc] at hf
  rcases Lexeme.isIdent_cases h with h | ⟨n, hs, h⟩
  · exact hn h
  · intro c hc
    rw [hs] at hc
    rcases List.mem_cons.1 hc with rfl | hc
    · decide
    · rcases List.mem_cons.1 hc with rfl | hc
      · decide
      · exact hn h c hc

/-- An end is not found in a mute text, nor does it start there. -/
theorem Mute.infix_append_iff (h : Mute s) {b : Bracketed} :
    b.closing <:+: s.toList ++ r ↔ b.closing <:+: r := by
  refine ⟨fun hi ↦ ?_, fun hi ↦ List.infix_append_of_infix_right hi⟩
  unfold Mute at h
  generalize s.toList = cs at h hi
  induction cs with
  | nil => exact hi
  | cons c cs ih =>
    obtain ⟨hc, h⟩ := List.forall_mem_cons.1 h
    rcases List.infix_cons_iff.1 hi with ⟨x, hx⟩ | hi
    · refine absurd ?_ hc
      cases b with
      | comment => simp [(List.cons.inj hx).1.symm]
      | raw n => simp [(List.cons.inj hx).1.symm]
    · exact ih h hi

/-! ## Types in a row -/

/-- Texts that do not end within a line comment or a line of documentation. -/
def Ended (s : String) : Prop := ∀ l ∈ (lexemes s).getLast?, l.edge? ≠ none

/-- A text that leaves something open that another text ends. -/
def Closes (s t : String) : Prop :=
  ∃ b, LeavesOpen (lexemes s) b ∧ b.closing <:+: t.toList

/-- A text may stand in front of texts that start with a mark if it does not run on into them and
they do not end what it leaves open. -/
theorem spliced_cons_iff_of_solid (hr : Solid ((String.join ss).toList ++ r))
    (hne : (String.join ss).toList ++ r ≠ []) :
    Spliced (t :: ss) r ↔
      (Whole t ∧ Ended t ∧
        ∀ b, LeavesOpen (lexemes t) b → ¬ b.closing <:+: (String.join ss).toList ++ r) ∧
      Spliced ss r := by
  rw [spliced_cons_iff]
  constructor
  · rintro ⟨hw, hc, hs⟩
    exact ⟨⟨hw, fun l hl ↦ hc.edge?_ne_none hr hne hl, fun b hb ↦ hc.not_infix hb⟩, hs⟩
  · rintro ⟨⟨hw, he, ho⟩, hs⟩
    exact ⟨hw, hw.chain.of_solid hr he ho, hs⟩

/-- Types that can be mentioned twice each in generated code, in this order. -/
structure Spliceable (types : List String) : Prop where
  /-- Each folds into trees once more. -/
  read : ∀ t ∈ types, ∃ ts, Tree.read none t = .ok ts
  /-- None runs on into what follows it. -/
  ended : ∀ t ∈ types, Ended t
  /-- What is left open in one mention is ended neither in the other nor in a later type. -/
  self : ∀ t ∈ types, ¬ Closes t t
  later : types.Pairwise fun t u ↦ ¬ Closes t u

theorem spliceable_iff {types : List String} :
    Spliceable types ↔
      (∀ t ∈ types, Nested (lexemes t)) ∧ (∀ t ∈ types, Whole t ∧ Ended t ∧ ¬ Closes t t) ∧
        types.Pairwise fun t u ↦ ¬ Closes t u := by
  constructor
  · rintro ⟨hr, he, hs, hl⟩
    refine ⟨fun t ht ↦ (read_ok_iff_whole.1 (hr t ht)).2, fun t ht ↦ ?_, hl⟩
    exact ⟨(read_ok_iff_whole.1 (hr t ht)).1, he t ht, hs t ht⟩
  · rintro ⟨hn, hs, hl⟩
    exact ⟨fun t ht ↦ read_ok_iff_whole.2 ⟨(hs t ht).1, hn t ht⟩, fun t ht ↦ (hs t ht).2.1,
      fun t ht ↦ (hs t ht).2.2, hl⟩

namespace Definition

variable {d : Definition} {l : Library} {c : Conversion} {cs : List Conversion}

/-! ## Conversions in a row -/

/-- The parts of a conversion. -/
def conversionParts (d : Definition) (l : Library) (c : Conversion) : List String :=
  [conversionHead l, c.type, d.conversionMiddle, c.type, conversionTail c]

theorem join_conversionParts : String.join (d.conversionParts l c) = d.conversionText l c := by
  simp [conversionParts, conversionText, String.append_assoc]

/-- The parts of the code behind the impls of the error and formatting traits. -/
def tailParts (d : Definition) (l : Library) (cs : List Conversion) : List String :=
  cs.flatMap (fun c ↦ "\n\n" :: d.conversionParts l c) ++ ["\n"]

theorem mute_conversionHead (l : Library) : Mute (conversionHead l) := by
  cases l <;> decide

namespace Legible

variable (h : d.Legible)
include h

theorem mute_conversionMiddle : Mute d.conversionMiddle :=
  ((by decide : Mute "> for ").append (.ident h.name)).append
    (by decide : Mute " \x7b\n    fn from(value: ")

theorem spelled (hc : c ∈ d.conversions) :
    c.variant.Spelled ∧ c.key ∈ c.variant.cause.key := by
  obtain ⟨hv, hm, -⟩ := mem_conversions.1 hc
  exact ⟨(h.variants _ hv).toSpelled, by simp [hm]⟩

theorem mute_conversionTail (hc : c ∈ d.conversions) : Mute (conversionTail c) := by
  obtain ⟨hs, hk⟩ := h.spelled hc
  have hk := hs.cause _ hk
  refine ((by decide : Mute ") -> Self \x7b\n        ").append ?_).append
    (by decide : Mute "\n    \x7d\n\x7d")
  have hn := (by decide : Mute "Self::").append (.ident hs.name)
  unfold conversionBody
  split
  · exact hn.append (by decide)
  · next hx =>
    have hk := Shape.isIdent_of_isKey hk hx
    exact ((hn.append (by decide : Mute " \x7b ")).append (.ident hk)).append (by decide)

theorem passage_tail (hc : c ∈ d.conversions) :
    Passage .solid .solid [.paren, .brace] [] [] (conversionTail c) :=
  passage_conversionTail (h.spelled hc).1 (h.spelled hc).2

/-- What ends in the code behind a mention of a type ends in another mention or further on. -/
theorem infix_middle_iff (hc : c ∈ d.conversions) {b : Bracketed} {r : List Char} :
    b.closing <:+: d.conversionMiddle.toList ++
        (c.type.toList ++ ((conversionTail c).toList ++ r)) ↔
      b.closing <:+: c.type.toList ∨ b.closing <:+: r := by
  rw [h.mute_conversionMiddle.infix_append_iff,
    Lexeme.infix_append_solid ((h.passage_tail hc).solid r),
    (h.mute_conversionTail hc).infix_append_iff]

/-- What a conversion asks of its type, and of the text behind it. -/
theorem spliced_conversionParts_iff (hc : c ∈ d.conversions) {ss : List String} {r : List Char} :
    Spliced (d.conversionParts l c ++ ss) r ↔
      (Whole c.type ∧ Ended c.type ∧ ¬ Closes c.type c.type ∧
        ∀ b, LeavesOpen (lexemes c.type) b → ¬ b.closing <:+: (String.join ss).toList ++ r) ∧
      Spliced ss r := by
  have ht := h.startsToken hc
  have hm := passage_conversionMiddle h.name
  have he := h.passage_tail hc
  -- the texts behind the first and the second mention of the type
  have h₁ : (String.join (d.conversionMiddle :: c.type :: conversionTail c :: ss)).toList ++ r =
      d.conversionMiddle.toList ++ (c.type.toList ++ ((conversionTail c).toList ++
        ((String.join ss).toList ++ r))) := by simp
  have h₂ : (String.join (conversionTail c :: ss)).toList ++ r =
      (conversionTail c).toList ++ ((String.join ss).toList ++ r) := by simp
  simp only [conversionParts, List.cons_append, List.nil_append]
  rw [(passage_conversionHead l).spliced_cons_iff (Edge.meets_solid _),
    spliced_cons_iff_of_solid (h₁ ▸ hm.solid _) (by simp [hm.toList_ne_nil]),
    hm.spliced_cons_iff (by simpa using ht.meets _),
    spliced_cons_iff_of_solid (h₂ ▸ he.solid _) (by simp [he.toList_ne_nil]),
    he.spliced_cons_iff (Edge.meets_solid _), h₁, h₂]
  simp only [h.infix_middle_iff hc, (h.mute_conversionTail hc).infix_append_iff, not_or]
  constructor
  · rintro ⟨⟨hw, hn, ho⟩, -, hs⟩
    exact ⟨⟨hw, hn, fun ⟨b, hb, hi⟩ ↦ (ho b hb).1 hi, fun b hb ↦ (ho b hb).2⟩, hs⟩
  · rintro ⟨⟨hw, hn, ho, hr⟩, hs⟩
    exact ⟨⟨hw, hn, fun b hb ↦ ⟨fun hi ↦ ho ⟨b, hb, hi⟩, hr b hb⟩⟩, ⟨hw, hn, hr⟩, hs⟩

/-- The parts of a conversion come out even if its type does. -/
theorem nested_conversionParts_iff (hc : c ∈ d.conversions) :
    Nested ((d.conversionParts l c).flatMap lexemes) ↔ Nested (lexemes c.type) := by
  have hh := (passage_conversionHead l).whole.2
  have hm := (passage_conversionMiddle h.name).whole.2
  have he := (h.passage_tail hc).whole.2
  have hp : (d.conversionParts l c).flatMap lexemes =
      lexemes (conversionHead l) ++ (lexemes c.type ++ (lexemes d.conversionMiddle ++
        (lexemes c.type ++ lexemes (conversionTail c)))) := by simp [conversionParts]
  rw [Nested, hp, Lexeme.nest_append, hh, Option.bind_some]
  constructor
  · intro hn
    obtain ⟨o, ho, hn⟩ := Option.bind_eq_some_iff.1 (Lexeme.nest_append _ _ _ ▸ hn)
    have hm := Lexeme.nest_outside hm o
    have ho' := Lexeme.nest_outside ho ([.paren, .brace] ++ o)
    rw [Lexeme.nest_append, show nest o _ = _ from hm, Option.bind_some, Lexeme.nest_append,
      show nest ([.paren, .brace] ++ o) _ = _ from ho', Option.bind_some] at hn
    -- the brackets that both mentions of the type leave open are never closed
    have hl := Lexeme.length_nest hn he
    simp only [List.length_append, List.length_cons, List.length_nil] at hl
    obtain rfl : o = [] := List.length_eq_zero_iff.1 (by omega)
    exact ho
  · intro hn
    rw [Lexeme.nest_append, hn.nest, Option.bind_some, Lexeme.nest_append, hm, Option.bind_some,
      Lexeme.nest_append, hn.nest, Option.bind_some, he]

/-- The conversions close a comment or a raw string only if one of their types does. -/
theorem infix_tailParts_iff (hcs : cs ⊆ d.conversions) {b : Bracketed} :
    b.closing <:+: (String.join (d.tailParts l cs)).toList ↔
      ∃ c ∈ cs, b.closing <:+: c.type.toList := by
  induction cs with
  | nil =>
    have hm : Mute "\n" := by decide
    have hn : ¬ b.closing <:+: [] := by
      rw [List.infix_nil]
      cases b <;> exact List.cons_ne_nil _ _
    simpa [tailParts] using (hm.infix_append_iff (r := [])).not.2 hn
  | cons c cs ih =>
    obtain ⟨hc, hcs⟩ := List.cons_subset.1 hcs
    have hm : Mute "\n\n" := by decide
    have hj : (String.join (d.tailParts l (c :: cs))).toList =
        "\n\n".toList ++ ((conversionHead l).toList ++ (c.type.toList ++
          (d.conversionMiddle.toList ++ (c.type.toList ++ ((conversionTail c).toList ++
            (String.join (d.tailParts l cs)).toList))))) := by
      simp [tailParts, conversionParts]
    rw [hj, hm.infix_append_iff, (mute_conversionHead l).infix_append_iff,
      Lexeme.infix_append_solid ((passage_conversionMiddle h.name).solid _),
      h.infix_middle_iff hc, ih hcs]
    simp

/-- What conversions in a row ask of their types. -/
theorem spliced_tailParts_iff (hcs : cs ⊆ d.conversions) :
    Spliced (d.tailParts l cs) [] ↔
      (∀ c ∈ cs, Whole c.type ∧ Ended c.type ∧ ¬ Closes c.type c.type) ∧
        cs.Pairwise fun c c' ↦ ¬ Closes c.type c'.type := by
  induction cs with
  | nil =>
    have hs : Spliced ["\n"] [] :=
      (passage_newline (o := [])).spliced_cons_iff (by intro c hc; cases hc) |>.2 spliced_nil
    simpa [tailParts] using hs
  | cons c cs ih =>
    obtain ⟨hc, hcs⟩ := List.cons_subset.1 hcs
    have hi : (∀ b, LeavesOpen (lexemes c.type) b →
          ¬ b.closing <:+: (String.join (d.tailParts l cs)).toList ++ []) ↔
        ∀ c' ∈ cs, ¬ Closes c.type c'.type := by
      simp only [List.append_nil, h.infix_tailParts_iff hcs, Closes]
      constructor
      · rintro hb c' hc' ⟨b, ho, hi⟩
        exact hb b ho ⟨c', hc', hi⟩
      · rintro hb b ho ⟨c', hc', hi⟩
        exact hb c' hc' ⟨b, ho, hi⟩
    have ht : d.tailParts l (c :: cs) =
        "\n\n" :: (d.conversionParts l c ++ d.tailParts l cs) := by
      simp [tailParts]
    have hm : Edge.blank.Meets
        ((String.join (d.conversionParts l c ++ d.tailParts l cs)).toList ++ []) := by
      rw [conversionParts, List.cons_append, String.join_cons, String.toList_append,
        List.append_assoc]
      exact (passage_conversionHead l).meets rfl _
    rw [ht, (passage_separator (o := [])).spliced_cons_iff hm, h.spliced_conversionParts_iff hc, ih hcs, hi,
      List.forall_mem_cons, List.pairwise_cons]
    constructor
    · rintro ⟨⟨hw, he, ho, hb⟩, hs, hp⟩
      exact ⟨⟨⟨hw, he, ho⟩, hs⟩, hb, hp⟩
    · rintro ⟨⟨⟨hw, he, ho⟩, hs⟩, hb, hp⟩
      exact ⟨⟨hw, he, ho, hb⟩, hs, hp⟩

end Legible

/-! ## The whole code -/

/-- The parts that generated code is put together from. -/
def parts (d : Definition) (l : Library) : List String :=
  d.errorImpl l :: (d.displayImpl? l).toList.flatMap (fun s ↦ ["\n\n", s]) ++
    d.tailParts l d.conversions

namespace Legible

variable (h : d.Legible)
include h

theorem assemble_eq_join : d.assemble l = .ok (String.join (d.parts l)) := by
  rw [assemble_eq l fun v hv ↦ (h.variants v hv).conversion]
  have hc : String.join (d.conversions.flatMap fun c ↦ "\n\n" :: d.conversionParts l c) =
      String.join (d.conversions.map fun c ↦ "\n\n" ++ d.conversionText l c) := by
    induction d.conversions with
    | nil => rfl
    | cons c cs ih =>
      rw [List.flatMap_cons, List.cons_append, String.join_cons, String.join_append, ih,
        join_conversionParts, List.map_cons, String.join_cons, String.append_assoc]
  cases hd : d.displayImpl? l with
  | none => simp [parts, tailParts, hd, hc, String.append_assoc]
  | some s => simp [parts, tailParts, hd, hc, String.append_assoc]

theorem generate_eq_ok_iff {code : String} :
    d.generate l = .ok code ↔
      code = String.join (d.parts l) ∧ Whole code ∧ Nested (lexemes code) := by
  rw [Definition.generate_eq_ok_iff, h.assemble_eq_join, Except.ok.injEq, eq_comm]
  exact and_congr_right fun _ ↦ read_ok_iff_whole

theorem passage_display {s : String} (hs : d.displayImpl? l = some s) :
    Passage .word .solid [] [] d.literals s := by
  refine passage_displayImpl l h.name (fun v hv ↦ (h.variants v hv).toSpelled)
    (h.displayFields ?_) hs
  by_contra hd
  simp [displayImpl?, hd] at hs

/-- The impls of the error and formatting traits ask nothing of what follows them. -/
theorem spliced_parts_iff :
    Spliced (d.parts l) [] ↔ Spliced (d.tailParts l d.conversions) [] := by
  have he := passage_errorImpl l h.name fun v hv ↦ (h.variants v hv).toSpelled
  rw [parts, List.cons_append, he.spliced_cons_iff (Edge.meets_solid _)]
  cases hd : d.displayImpl? l with
  | none => rfl
  | some s =>
    have hs := h.passage_display hd
    simp only [Option.toList_some, List.flatMap_cons, List.flatMap_nil, List.append_nil,
      List.cons_append, List.nil_append]
    rw [(passage_separator (o := [])).spliced_cons_iff ?_, hs.spliced_cons_iff (Edge.meets_solid _)]
    rw [String.join_cons, String.toList_append, List.append_assoc]
    exact hs.meets rfl _

theorem nested_tailParts (hcs : cs ⊆ d.conversions)
    (hn : ∀ c ∈ cs, Nested (lexemes c.type)) : Nested ((d.tailParts l cs).flatMap lexemes) := by
  induction cs with
  | nil =>
    have hx : Nested (lexemes "\n") := passage_newline.whole.2
    simpa [tailParts] using hx
  | cons c cs ih =>
    obtain ⟨hc, hcs⟩ := List.cons_subset.1 hcs
    obtain ⟨ht, hn⟩ := List.forall_mem_cons.1 hn
    have hb : Nested (lexemes "\n\n") := passage_separator.whole.2
    have hp := hb.append ((h.nested_conversionParts_iff (l := l) hc).2 ht)
    simpa [tailParts] using hp.append (ih hcs hn)

theorem nested_parts (hn : ∀ c ∈ d.conversions, Nested (lexemes c.type)) :
    Nested ((d.parts l).flatMap lexemes) := by
  have he : Nested (lexemes (d.errorImpl l)) :=
    (passage_errorImpl l h.name fun v hv ↦ (h.variants v hv).toSpelled).whole.2
  have ht := h.nested_tailParts (l := l) (List.Subset.refl _) hn
  cases hd : d.displayImpl? l with
  | none => simpa [parts, hd] using he.append ht
  | some s =>
    have hb : Nested (lexemes "\n\n") := passage_separator.whole.2
    have hs : Nested (lexemes s) := (h.passage_display hd).whole.2
    simpa [parts, hd] using he.append (hb.append (hs.append ht))

end Legible

/-- Code is generated in which every part is cut into its own lexemes, and every conversion folds
into trees by itself. -/
def Splices (d : Definition) (l : Library) : Prop :=
  ∃ code, d.generate l = .ok code ∧ lexemes code = (d.parts l).flatMap lexemes ∧
    ∀ c ∈ d.conversions, ∃ ts, Tree.read none (d.conversionText l c) = .ok ts

namespace Legible

variable (h : d.Legible)
include h

theorem spliced_conversion (hc : c ∈ d.conversions)
    (ht : Whole c.type ∧ Ended c.type ∧ ¬ Closes c.type c.type) :
    Spliced (d.conversionParts l c) [] := by
  have hs : Spliced (d.conversionParts l c ++ []) [] ↔ _ := h.spliced_conversionParts_iff hc
  rw [List.append_nil] at hs
  refine hs.2 ⟨⟨ht.1, ht.2.1, ht.2.2, fun b _ hi ↦ ?_⟩, spliced_nil⟩
  have hi : b.closing = [] := by simpa using hi
  cases b <;> cases hi

/-- A conversion folds into trees by itself if its type does. -/
theorem read_conversionText_iff (hc : c ∈ d.conversions)
    (ht : Whole c.type ∧ Ended c.type ∧ ¬ Closes c.type c.type) :
    (∃ ts, Tree.read none (d.conversionText l c) = .ok ts) ↔ Nested (lexemes c.type) := by
  obtain ⟨hw, hl⟩ := lexemes_of_split (spliced_iff_split.1 (h.spliced_conversion (l := l) hc ht))
  rw [join_conversionParts] at hw hl
  rw [read_ok_iff_whole, hl, h.nested_conversionParts_iff hc]
  exact and_iff_right hw

/-- Code splices exactly if its parts do and each type is nested by itself. -/
theorem splices_iff_spliced :
    d.Splices l ↔
      Spliced (d.parts l) [] ∧ ∀ c ∈ d.conversions, Nested (lexemes c.type) := by
  have ht : Spliced (d.parts l) [] → ∀ c ∈ d.conversions,
      Whole c.type ∧ Ended c.type ∧ ¬ Closes c.type c.type := fun hs ↦
    ((h.spliced_tailParts_iff (List.Subset.refl _)).1 (h.spliced_parts_iff.1 hs)).1
  constructor
  · rintro ⟨code, hg, hx, hr⟩
    obtain ⟨rfl, hw, -⟩ := h.generate_eq_ok_iff.1 hg
    have hs : Spliced (d.parts l) [] := by
      rw [spliced_iff_split, ← hx]
      exact whole_iff.1 hw
    exact ⟨hs, fun c hc ↦ (h.read_conversionText_iff hc (ht hs c hc)).1 (hr c hc)⟩
  · rintro ⟨hs, hn⟩
    obtain ⟨hw, hl⟩ := lexemes_of_split (spliced_iff_split.1 hs)
    exact ⟨_, h.generate_eq_ok_iff.2 ⟨rfl, hw, hl ▸ h.nested_parts hn⟩, hl,
      fun c hc ↦ (h.read_conversionText_iff hc (ht hs c hc)).2 (hn c hc)⟩

end Legible

/-- The code that is generated for a definition that is read is cut into the lexemes of its parts
exactly if the types of its conversions can be spliced into it. -/
theorem splices_iff {s : Settings} {label : Option String} {source : String}
    (h : Definition.parse s label source = .ok d) (l : Library) :
    d.Splices l ↔ Spliceable (d.conversions.map Conversion.type) := by
  have hl := legible_of_parse h
  rw [hl.splices_iff_spliced, hl.spliced_parts_iff, hl.spliced_tailParts_iff (List.Subset.refl _),
    spliceable_iff, and_comm]
  simp only [List.forall_mem_map, List.pairwise_map]

theorem spliceable_name : Spliceable ["F"] := by
  have hl : split "F".toList = ([⟨.token (.leaf .ident), ['F']⟩], []) :=
    Lexeme.split_of_scan (n := 1) rfl
  obtain ⟨hw, hl⟩ := lexemes_of_split hl
  refine spliceable_iff.2 ⟨?_, ?_, List.pairwise_singleton _ _⟩
  · intro t ht
    rw [List.mem_singleton.1 ht, hl]
    rfl
  · intro t ht
    rw [List.mem_singleton.1 ht]
    refine ⟨hw, ?_, ?_⟩
    · rw [Ended, hl]
      rintro l ⟨⟩
      exact nofun
    · rintro ⟨b, -, hi⟩
      have hi : b.closing <:+: ['F'] := hi
      cases b <;> simp [Bracketed.closing, List.infix_cons_iff] at hi

/-- A name can be spliced in.  Documentation behind it takes the rest of its line into itself, so
the code around the type is lost. -/
theorem splices_iff_documented :
    (∃ d, Definition.parse {} none "enum E\x7b#[error(\"x\")]A(#[from]F)\x7d" = .ok d ∧
      d.conversions.map Conversion.type = ["F"] ∧ d.Splices .std) ∧
    ∃ d, Definition.parse {} none "enum E\x7b#[error(\"x\")]A(#[from]F/// d\n)\x7d" = .ok d ∧
      d.conversions.map Conversion.type = ["F/// d"] ∧ ¬ d.Splices .std := by
  constructor
  · have h : (Definition.parse {} none
        "enum E\x7b#[error(\"x\")]A(#[from]F)\x7d").toOption.map
          (fun d ↦ d.conversions.map Conversion.type) = some ["F"] := by
      decide +kernel
    obtain ⟨d, hd, ht⟩ := Option.map_eq_some_iff.1 h
    have hd := Except.toOption_eq_some_iff.1 hd
    exact ⟨d, hd, ht, (splices_iff hd .std).2 (ht ▸ spliceable_name)⟩
  · have h : (Definition.parse {} none
        "enum E\x7b#[error(\"x\")]A(#[from]F/// d\n)\x7d").toOption.map
          (fun d ↦ d.conversions.map Conversion.type) = some ["F/// d"] := by
      decide +kernel
    obtain ⟨d, hd, ht⟩ := Option.map_eq_some_iff.1 h
    have hd := Except.toOption_eq_some_iff.1 hd
    refine ⟨d, hd, ht, fun hs ↦ ?_⟩
    have he := ((splices_iff hd .std).1 hs).ended "F/// d" (by simp [ht])
    have hl : split "F/// d".toList =
        ([⟨.token (.leaf .ident), ['F']⟩, ⟨.token (.leaf .doc), ['/', '/', '/', ' ', 'd']⟩], []) :=
      Lexeme.split_of_scan (n := 6) rfl
    rw [Ended, (lexemes_of_split hl).2] at he
    exact he _ rfl rfl

end Definition

end ErrorDerive
