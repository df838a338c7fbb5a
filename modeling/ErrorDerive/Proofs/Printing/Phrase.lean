import ErrorDerive.Proofs.Quoting
import ErrorDerive.Proofs.Relexing

/-!
# Phrases

A form says which outlines may stand in a row.  A phrase of a form is a text that is read into
outlines of that form wherever its edges let it stand, whatever comes before and behind it
(`Phrase`).  Phrases are put together from words, marks and literals, with or without a space
between them, and stand in brackets; so the trees of a text that is written part by part are known
part by part (`Phrase.exists_read`).
-/

namespace ErrorDerive

/-! ## Forms -/

/-- Which outlines may stand in a row. -/
abbrev Form := List Outline → Prop

/-- Whether something lies between a tree and what comes before it. -/
def Outline.apart : Outline → Bool
  | .leaf apart _ => apart
  | .group apart _ _ _ => apart

namespace Form

/-- Nothing. -/
def nothing : Form := fun os ↦ os = []

/-- A single leaf. -/
def leaf (l : Leaf) : Form := fun os ↦ ∃ apart, os = [.leaf apart l]

/-- A single mark, whether another one touches it or not. -/
def mark (m : String) : Form := fun os ↦ ∃ apart joint, os = [.leaf apart (.punct m joint)]

/-- A single group with content of a form. -/
def group (d : Delimiter) (F : Form) : Form :=
  fun os ↦ ∃ apart inside loose, F inside ∧ os = [.group apart d inside loose]

/-- Something of one form and then something of another. -/
def append (F G : Form) : Form := fun os ↦ ∃ xs ys, F xs ∧ G ys ∧ os = xs ++ ys

/-- Things of a form in a row, with commas between them. -/
def row {ι : Type} (F : ι → Form) : List ι → Form
  | [] => nothing
  | [i] => F i
  | i :: j :: is => append (F i) (append (mark ",") (row F (j :: is)))

end Form

@[simp] theorem Outline.flatAll_append (os ps : List Outline) :
    flatAll (os ++ ps) = flatAll os ++ flatAll ps := by
  induction os with
  | nil => simp
  | cons o os ih => simp [ih]

/-! ## Optional spaces -/

namespace Lexeme

/-- The lexemes of an optional space. -/
def spaces (apart : Bool) : List Lexeme := if apart then [space] else []

variable {apart trivia : Bool} {before : Option TokenKind}

theorem flatMap_text_spaces : (spaces apart).flatMap text = (spaceIf apart).toList := by
  cases apart <;> rfl

theorem chain_spaces {r : List Char} (h : Edge.blank.Meets r) : Chain (spaces apart) r := by
  cases apart with
  | false => trivial
  | true => exact ⟨leads_of_meets (by decide) rfl h, trivial⟩

theorem nested_spaces : Nested (spaces apart) := by
  cases apart <;> rfl

theorem marked_spaces (ms : List Lexeme) :
    marked trivia before (spaces apart ++ ms) = marked (trivia || apart) before ms := by
  cases apart <;> simp [spaces, space, marked]

end Lexeme

/-- An end that may come before an optional space and then a start. -/
theorem Edge.meets_spaceIf {e : Edge} {apart : Bool} {r : List Char} (he : e ≠ .blank)
    (h : apart = false → e.Meets r) : e.Meets ((spaceIf apart).toList ++ r) := by
  cases apart with
  | false => simpa [spaceIf] using h rfl
  | true =>
    intro c hc
    obtain rfl : c = ' ' := by simpa [spaceIf, eq_comm] using hc
    cases e with
    | blank => exact absurd rfl he
    | word => decide
    | solid => decide

theorem Edge.ofChar_opener (d : Delimiter) : ofChar d.opener = .solid := by
  cases d <;> decide

theorem Edge.meets_closer (e : Edge) (d : Delimiter) (r : List Char) :
    e.Meets (d.closer :: r) := by
  have hd : ofChar d.closer = .solid := by
    cases d <;> decide
  intro c hc
  cases hc
  rw [hd]
  cases e <;> rfl

theorem Lexeme.leads_opener (d : Delimiter) (r : List Char) :
    Leads ⟨.token (.opener d), [d.opener]⟩ r :=
  leads_of_meets (by cases d <;> decide) rfl (Edge.meets_solid r)

theorem Lexeme.leads_closer (d : Delimiter) (r : List Char) :
    Leads ⟨.token (.closer d), [d.closer]⟩ r :=
  leads_of_meets (by cases d <;> decide) rfl (Edge.meets_solid r)

/-- A gap in front of anything but a closing bracket shows. -/
theorem TokenKind.showsGap_of_ne_closer {k : TokenKind} (h : ∀ d, k ≠ .closer d)
    (before : Option TokenKind) : showsGap before k = before.isSome := by
  unfold showsGap
  split
  · rfl
  · exact absurd rfl (h _)
  · rfl

/-! ## Phrases -/

open Lexeme (Chain Nested spaces marked)

/-- A text that is cut into the same lexemes wherever its edges let it stand, and whose trees have
outlines of a form, whatever comes before and behind it. -/
structure Phrase (first last : Edge) (F : Form) (s : String) : Prop where
  starts : s.toList.head?.map Edge.ofChar = some first
  first_ne : first ≠ .blank
  last_ne : last ≠ .blank
  /-- Its lexemes, and what they add to marked atoms: `trivia` and `before` stand for the text before
  the phrase, `ms` for the lexemes behind it. -/
  lexes : ∃ ls : List Lexeme, ls.flatMap Lexeme.text = s.toList ∧
    (∀ r, last.Meets r → Chain ls r) ∧ Nested ls ∧
    ∀ trivia before ms, ∃ o os k, F (o :: os) ∧ o.apart = (trivia && before.isSome) ∧
      (∀ d, k ≠ .opener d) ∧
      marked trivia before (ls ++ ms) = Outline.flatAll (o :: os) ++ marked false (some k) ms

namespace Phrase

variable {a b c d : Edge} {F G H : Form} {s t : String}

theorem meets_of_starts (h : Phrase a b F s) {e : Edge} (he : e.meets a = true) (r : List Char) :
    e.Meets (s.toList ++ r) := by
  obtain ⟨x, hx, rfl⟩ := Option.map_eq_some_iff.1 h.starts
  intro c hc
  rw [List.head?_append, hx] at hc
  cases hc
  exact he

theorem blank_meets (h : Phrase a b F s) (r : List Char) : Edge.blank.Meets (s.toList ++ r) := by
  refine h.meets_of_starts ?_ r
  have ha := h.first_ne
  cases a with
  | word => rfl
  | blank => exact absurd rfl ha
  | solid => rfl

theorem imp (h : Phrase a b F s) (hi : ∀ os, F os → G os) : Phrase a b G s := by
  obtain ⟨ls, ht, hc, hn, hm⟩ := h.lexes
  refine ⟨h.starts, h.first_ne, h.last_ne, ls, ht, hc, hn, fun trivia before ms ↦ ?_⟩
  obtain ⟨o, os, k, hF, hk⟩ := hm trivia before ms
  exact ⟨o, os, k, hi _ hF, hk⟩

/-- A text that is a single lexeme with a leaf. -/
theorem leaf {k : LeafKind} (hs : s.toList.head?.map Edge.ofChar = some a) (ha : a ≠ .blank)
    (hb : b ≠ .blank)
    (hl : ∀ r, b.Meets r → Lexeme.Leads ⟨.token (.leaf k), s.toList⟩ r) :
    Phrase a b (fun os ↦ ∃ apart joint, os = [.leaf apart (Leaf.ofLexeme s joint k)]) s := by
  refine ⟨hs, ha, hb, [⟨.token (.leaf k), s.toList⟩], by simp, fun r hr ↦ ⟨hl r (by simpa using hr),
    trivial⟩, rfl, fun trivia before ms ↦ ?_⟩
  refine ⟨.leaf (trivia && before.isSome) (Leaf.ofLexeme s (Lexeme.touchesMark ms) k), [], .leaf k,
    ⟨_, _, rfl⟩, rfl, by simp, ?_⟩
  simp [marked, TokenKind.showsGap_of_ne_closer, TokenKind.atom]

theorem ident (h : Lexeme.isIdent s.toList = true) : Phrase .word .word (Form.leaf (.ident s)) s := by
  refine (leaf (k := .ident) (Lexeme.ofChar_of_isIdent h) (by decide) (by decide) fun r hr ↦
    Lexeme.leads_of_meets (Lexeme.leads_of_isIdent h) rfl hr).imp ?_
  rintro os ⟨apart, joint, rfl⟩
  exact ⟨apart, rfl⟩

theorem quote (s : String) :
    Phrase .word .solid (Form.leaf (.literal .string (Literal.quote s))) (Literal.quote s) := by
  refine (leaf (k := .literal .string) (by rw [Literal.toList_quote]; rfl) (by decide) (by decide)
    fun r _ ↦ Literal.leads_quote s r).imp ?_
  rintro os ⟨apart, joint, rfl⟩
  exact ⟨apart, rfl⟩

/-- A mark that nothing runs into. -/
theorem mark (hs : s.toList.head?.map Edge.ofChar = some a) (ha : a ≠ .blank)
    (hl : Lexeme.Leads ⟨.token (.leaf .punct), s.toList⟩ [])
    (he : Lexeme.edge? ⟨.token (.leaf .punct), s.toList⟩ = some .solid) :
    Phrase a .solid (Form.mark s) s :=
  leaf hs ha (by decide) fun _ hr ↦ Lexeme.leads_of_meets hl he hr

theorem comma : Phrase .solid .solid (Form.mark ",") "," :=
  mark (by decide) (by decide) (by decide) (by decide)

theorem colon : Phrase .solid .solid (Form.mark ":") ":" :=
  mark (by decide) (by decide) (by decide) (by decide)

/-- Two phrases in a row, with or without a space between them. -/
theorem append (h : Phrase a b F s) (h' : Phrase c d G t) (apart : Bool)
    (hm : apart = false → b.meets c = true)
    (hH : ∀ xs y ys, F xs → G (y :: ys) → y.apart = apart → H (xs ++ y :: ys)) :
    Phrase a d H (s ++ spaceIf apart ++ t) := by
  obtain ⟨ls, hs, hc, hn, hF⟩ := h.lexes
  obtain ⟨ms, ht, hc', hn', hG⟩ := h'.lexes
  refine ⟨?_, h.first_ne, h'.last_ne, ls ++ (spaces apart ++ ms), ?_, ?_,
    hn.append (Lexeme.nested_spaces.append hn'), ?_⟩
  · obtain ⟨x, hx, hxa⟩ := Option.map_eq_some_iff.1 h.starts
    simp [List.head?_append, hx, hxa]
  · simp [hs, ht, Lexeme.flatMap_text_spaces]
  · intro r hr
    refine Lexeme.chain_append.2 ⟨hc _ ?_, Lexeme.chain_append.2 ⟨?_, hc' r hr⟩⟩
    · rw [List.flatMap_append, Lexeme.flatMap_text_spaces, List.append_assoc, ht]
      exact Edge.meets_spaceIf h.last_ne fun ha ↦ h'.meets_of_starts (hm ha) r
    · rw [ht]
      exact Lexeme.chain_spaces (h'.blank_meets r)
  · -- the second phrase starts behind the last token of the first, apart from it if there is a space
    intro trivia before xs
    obtain ⟨o, os, k, hxs, ho, hk, he⟩ := hF trivia before (spaces apart ++ ms ++ xs)
    obtain ⟨p, ps, j, hps, hp, hj, he'⟩ := hG apart (some k) xs
    refine ⟨o, os ++ p :: ps, j, hH (o :: os) p ps hxs hps (by simpa using hp), ho, hj, ?_⟩
    rw [List.append_assoc, he, List.append_assoc, Lexeme.marked_spaces, Bool.false_or, he']
    simp

/-- Two phrases in a row of which the second may touch anything. -/
theorem gapped (h : Phrase a b F s) (h' : Phrase .solid d G t) (apart : Bool) :
    Phrase a d (Form.append F G) (s ++ spaceIf apart ++ t) :=
  h.append h' apart (fun _ ↦ by simp [Edge.meets]) fun xs y ys hx hy _ ↦ ⟨xs, y :: ys, hx, hy, rfl⟩

/-- Two phrases in a row with a space between them. -/
theorem spaced (h : Phrase a b F s) (h' : Phrase c d G t) :
    Phrase a d (Form.append F G) (s ++ " " ++ t) :=
  h.append h' true (by simp) fun xs y ys hx hy _ ↦ ⟨xs, y :: ys, hx, hy, rfl⟩

theorem before_nothing (h : Phrase a b F s) : Phrase a b (Form.append F Form.nothing) s :=
  h.imp fun os ho ↦ ⟨os, [], ho, rfl, by simp⟩

theorem behind_nothing (h : Phrase a b F s) : Phrase a b (Form.append Form.nothing F) s :=
  h.imp fun os ho ↦ ⟨[], os, rfl, ho, rfl⟩

/-- Nothing runs into a solid end, so it may stand for any other. -/
theorem ofSolid (h : Phrase a .solid F s) (hb : b ≠ .blank) : Phrase a b F s := by
  obtain ⟨ls, hs, hc, hm⟩ := h.lexes
  exact ⟨h.starts, h.first_ne, hb, ls, hs, fun r _ ↦ hc r (Edge.meets_solid r), hm⟩

/-- A phrase in brackets, with or without spaces inside them. -/
theorem group (h : Phrase a b F s) (δ : Delimiter) (apart : Bool) :
    Phrase .solid .solid (Form.group δ F)
      (δ.opener.toString ++ spaceIf apart ++ s ++ spaceIf apart ++ δ.closer.toString) := by
  obtain ⟨ls, hs, hc, hn, hF⟩ := h.lexes
  refine ⟨?_, by decide, by decide, ⟨.token (.opener δ), [δ.opener]⟩ ::
    (spaces apart ++ (ls ++ (spaces apart ++ [⟨.token (.closer δ), [δ.closer]⟩]))), ?_, ?_, ?_, ?_⟩
  · simp [Edge.ofChar_opener]
  · simp [hs, Lexeme.flatMap_text_spaces]
  · intro r _
    refine ⟨Lexeme.leads_opener δ _, Lexeme.chain_append.2 ⟨Lexeme.chain_spaces ?_,
      Lexeme.chain_append.2 ⟨hc _ ?_, Lexeme.chain_append.2 ⟨Lexeme.chain_spaces ?_,
        Lexeme.leads_closer δ _, trivial⟩⟩⟩⟩
    · rw [List.flatMap_append, List.append_assoc, hs]
      exact h.blank_meets _
    · rw [List.flatMap_append, List.append_assoc, Lexeme.flatMap_text_spaces]
      exact Edge.meets_spaceIf h.last_ne fun _ ↦ Edge.meets_closer b δ r
    · exact Edge.meets_closer .blank δ r
  · simp only [Nested, Lexeme.nest, LexemeKind.nest, Option.bind_some, Lexeme.nest_append,
      Lexeme.nested_spaces.nest, hn.nest, List.head?_cons, if_true, List.tail_cons]
  · intro trivia before ms
    obtain ⟨o, os, k, hos, -, hk, he⟩ := hF apart (some (.opener δ))
      (spaces apart ++ ⟨.token (.closer δ), [δ.closer]⟩ :: ms)
    refine ⟨.group (trivia && before.isSome) δ (o :: os) apart, [], .closer δ,
      ⟨_, _, _, hos, rfl⟩, rfl, by simp, ?_⟩
    have ho : TokenKind.showsGap before (.opener δ) = before.isSome :=
      TokenKind.showsGap_of_ne_closer (by simp) before
    have hg : TokenKind.showsGap (some k) (.closer δ) = true := by
      cases k with
      | opener d => exact absurd rfl (hk d)
      | _ => rfl
    simp only [List.cons_append, marked, ho, List.append_assoc, Lexeme.marked_spaces,
      Bool.false_or, List.nil_append, he, hg, Bool.and_true, TokenKind.atom,
      Outline.flatAll_cons, Outline.flatAll_nil, Outline.flat_group, List.append_nil]

/-- Brackets without anything inside them but perhaps a space. -/
theorem emptyGroup (δ : Delimiter) (apart : Bool) :
    Phrase .solid .solid (Form.group δ Form.nothing)
      (δ.opener.toString ++ spaceIf apart ++ δ.closer.toString) := by
  refine ⟨?_, by decide, by decide, ⟨.token (.opener δ), [δ.opener]⟩ ::
    (spaces apart ++ [⟨.token (.closer δ), [δ.closer]⟩]), ?_, ?_, ?_, ?_⟩
  · simp [Edge.ofChar_opener]
  · simp [Lexeme.flatMap_text_spaces]
  · intro r _
    exact ⟨Lexeme.leads_opener δ _, Lexeme.chain_append.2
      ⟨Lexeme.chain_spaces (Edge.meets_closer .blank δ r), Lexeme.leads_closer δ _, trivial⟩⟩
  · simp only [Nested, Lexeme.nest, LexemeKind.nest, Option.bind_some, Lexeme.nest_append,
      Lexeme.nested_spaces.nest, List.head?_cons, if_true, List.tail_cons]
  · intro trivia before ms
    refine ⟨.group (trivia && before.isSome) δ [] false, [], .closer δ,
      ⟨_, _, _, rfl, rfl⟩, rfl, by simp, ?_⟩
    have ho : TokenKind.showsGap before (.opener δ) = before.isSome :=
      TokenKind.showsGap_of_ne_closer (by simp) before
    have hg : TokenKind.showsGap (some (.opener δ)) (.closer δ) = false := rfl
    simp only [List.cons_append, marked, ho, List.append_assoc, Lexeme.marked_spaces,
      List.nil_append, hg, Bool.and_false, TokenKind.atom, Outline.flatAll_cons,
      Outline.flatAll_nil, Outline.flat_group, List.append_nil]

/-- Phrases in a row with commas between them, with or without a space before each comma. -/
theorem row {ι : Type} {F : ι → Form} {f : ι → String} {i : ι} {is : List ι} (apart : Bool)
    (h : ∀ j ∈ i :: is, Phrase a .word (F j) (f j)) :
    Phrase a .word (Form.row F (i :: is))
      ((spaceIf apart ++ ", ").intercalate ((i :: is).map f)) := by
  induction is generalizing i with
  | nil => simpa [Form.row] using h i (by simp)
  | cons j is ih =>
    have hr := ih fun k hk ↦ h k (List.mem_cons_of_mem i hk)
    have hs : Phrase a .word (Form.row F (i :: j :: is)) _ :=
      (h i (by simp)).gapped (comma.spaced hr) apart
    simpa [String.intercalate_cons_cons, String.append_assoc] using hs

/-- The trees of a phrase that stands alone have outlines of its form. -/
theorem exists_read (h : Phrase a b F s) (label : Option String) :
    ∃ ts, Tree.read label s = .ok ts ∧ F (Tree.outlines none ts) := by
  obtain ⟨ls, hs, hc, hn, hF⟩ := h.lexes
  have hl : Lexeme.split s.toList = (ls, []) :=
    Lexeme.split_eq_iff.2 ⟨hs, hc [] fun c hc ↦ nomatch hc⟩
  obtain ⟨ts, ht⟩ : ∃ ts, Tree.read label s = .ok ts := Tree.read_ok_iff.2 ⟨ls, hl, hn⟩
  obtain ⟨o, os, k, hos, -, -, he⟩ := hF false none []
  rw [List.append_nil, ← Tree.flatAll_outlines_of_read hl ht, marked, List.append_nil] at he
  exact ⟨ts, ht, Outline.flatAll_inj he ▸ hos⟩

end Phrase

end ErrorDerive
