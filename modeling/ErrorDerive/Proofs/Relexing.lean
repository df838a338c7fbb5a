import ErrorDerive.Proofs.Lexing.Squeezing
import ErrorDerive.Proofs.Outline.Marks
import ErrorDerive.Proofs.Parsing.Spelling

/-!
# Reading rendered trees again

Rendering trees without documentation writes the tokens of their text with single spaces in the
place of trivia (`squeeze`).  This text is cut into the same tokens, so it has the same trees but for
their places, and rendering those writes it once more.
-/

namespace ErrorDerive

namespace Lexeme

open TokenKind (showsGap)

/-- A single space. -/
def space : Lexeme := ⟨.trivia .blank, [' ']⟩

/-- Lexemes with one space in place of the trivia between tokens, where rendering shows a gap. -/
def squeeze (trivia : Bool) (before : Option TokenKind) : List Lexeme → List Lexeme
  | [] => []
  | ⟨.trivia _, _⟩ :: ls => squeeze true before ls
  | ⟨.token k, text⟩ :: ls =>
    if trivia && showsGap before k then space :: ⟨.token k, text⟩ :: squeeze false (some k) ls
    else ⟨.token k, text⟩ :: squeeze false (some k) ls

variable {ls : List Lexeme} {trivia : Bool} {before : Option TokenKind}

theorem eq_closer_of_showsGap {k k' : TokenKind} (h : showsGap (some k) k' = false) :
    ∃ d, k' = .closer d := by
  cases k with
  | leaf _ => cases h
  | closer _ => cases h
  | opener _ =>
    cases k' with
    | leaf _ => cases h
    | opener _ => cases h
    | closer d => exact ⟨d, rfl⟩

/-- The text of lexemes behind a token is squeezed. -/
theorem squeezes_squeeze {k : TokenKind} {w : List Char} (h : Chain ls [])
    (hw : trivia = false → w = []) :
    Squeezes (w ++ ls.flatMap text) ((squeeze trivia (some k) ls).flatMap text) := by
  induction ls generalizing trivia k w with
  | nil => exact .nil _
  | cons l ls ih =>
    obtain ⟨kind, cs⟩ := l
    cases kind with
    | trivia j =>
      have hs : Squeezes (w ++ cs ++ ls.flatMap text) ((squeeze true (some k) ls).flatMap text) :=
        ih h.2 (by simp)
      simpa [squeeze] using hs
    | token k' =>
      have hs : Squeezes (cs ++ ls.flatMap text) (cs ++ (squeeze false (some k') ls).flatMap text) :=
        (ih (w := []) h.2 (by simp)).append cs
      rw [squeeze]
      cases trivia with
      | false => simpa [hw rfl] using hs
      | true =>
        cases hg : showsGap (some k) k' with
        | true => exact .fill w (by decide) hs
        | false =>
          obtain ⟨d, rfl⟩ := eq_closer_of_showsGap hg
          obtain rfl : cs = [d.closer] := h.1.text_closer
          have hs : Squeezes ([] ++ ls.flatMap text)
              ((squeeze false (some (.closer d)) ls).flatMap text) := ih h.2 (by simp)
          have hf := Squeezes.fill (c := d.closer) (w ++ [d.closer])
            (by cases d <;> decide) hs
          simpa using hf

/-- In front of a token, a space is a lexeme of its own. -/
theorem leads_space {l : Lexeme} {r : List Char} {k : TokenKind} (hk : l.kind = .token k)
    (h : l.Leads r) : space.Leads (l.text ++ r) := by
  refine leads_of_meets (by decide) rfl fun c hc ↦ ?_
  have hl : isLayout c = false := by
    obtain ⟨kind, cs⟩ := l
    cases hk
    cases k with
    | leaf j =>
      obtain ⟨d, ds, hs, hd⟩ := h.startsToken
      obtain rfl : cs = d :: ds := by simpa using hs
      cases hc
      exact hd
    | opener d =>
      obtain rfl : cs = [d.opener] := h.text_opener
      cases hc
      cases d <;> decide
    | closer d =>
      obtain rfl : cs = [d.closer] := h.text_closer
      cases hc
      cases d <;> decide
  unfold Edge.ofChar
  rw [if_neg (by simp [hl])]
  split <;> rfl

/-- Squeezed lexemes are cut off one after the other, unless there is documentation among them. -/
theorem chain_squeeze (h : Chain ls []) (hd : ∀ l ∈ ls, l.kind ≠ .token (.leaf .doc)) :
    Chain (squeeze trivia before ls) [] := by
  induction ls generalizing trivia before with
  | nil => trivial
  | cons l ls ih =>
    obtain ⟨kind, cs⟩ := l
    obtain ⟨hd, hs⟩ := List.forall_mem_cons.1 hd
    cases kind with
    | trivia j => exact ih h.2 hs
    | token k =>
      have hx : Squeezes (ls.flatMap text ++ []) ((squeeze false (some k) ls).flatMap text ++ []) := by
        simpa using squeezes_squeeze (w := []) (k := k) h.2 (by simp)
      have hl : Leads ⟨.token k, cs⟩ ((squeeze false (some k) ls).flatMap text ++ []) :=
        h.1.squeeze hx fun e ↦ hd (congrArg _ e)
      rw [squeeze]
      split
      · refine ⟨?_, hl, ih h.2 hs⟩
        rw [List.flatMap_cons, List.append_assoc]
        exact leads_space rfl hl
      · exact ⟨hl, ih h.2 hs⟩

theorem nest_squeeze (opened : List Delimiter) :
    nest opened (squeeze trivia before ls) = nest opened ls := by
  induction ls generalizing trivia before opened with
  | nil => rfl
  | cons l ls ih =>
    obtain ⟨kind, cs⟩ := l
    cases kind with
    | trivia j => exact ih opened
    | token k =>
      have hk : nest opened (⟨.token k, cs⟩ :: squeeze false (some k) ls) =
          nest opened (⟨.token k, cs⟩ :: ls) := by simp only [nest, ih]
      rw [squeeze]
      split
      · exact hk
      · exact hk

theorem touchesMark_squeeze_true {k : TokenKind} :
    touchesMark (squeeze true (some k) ls) = false := by
  induction ls with
  | nil => rfl
  | cons l ls ih =>
    obtain ⟨kind, cs⟩ := l
    cases kind with
    | trivia j => exact ih
    | token k' =>
      rw [squeeze]
      cases hg : showsGap (some k) k' with
      | true => rfl
      | false =>
        obtain ⟨d, rfl⟩ := eq_closer_of_showsGap hg
        rfl

theorem touchesMark_squeeze {k : TokenKind} :
    touchesMark (squeeze false (some k) ls) = touchesMark ls := by
  cases ls with
  | nil => rfl
  | cons l ls =>
    obtain ⟨kind, cs⟩ := l
    cases kind with
    | trivia j => exact touchesMark_squeeze_true
    | token k' => rfl

/-- Squeezing keeps the atoms and their marks. -/
theorem marked_squeeze : marked false before (squeeze trivia before ls) = marked trivia before ls := by
  induction ls generalizing trivia before with
  | nil => rfl
  | cons l ls ih =>
    obtain ⟨kind, cs⟩ := l
    cases kind with
    | trivia j => exact ih
    | token k =>
      rw [squeeze]
      split
      · next hg =>
        obtain ⟨rfl, hg⟩ := Bool.and_eq_true_iff.1 hg
        simp only [space, marked, touchesMark_squeeze, ih]
      · next hg =>
        simp only [Bool.not_eq_true] at hg
        simp only [marked, touchesMark_squeeze, ih, hg, Bool.false_and]

/-- A token other than documentation is written as it was. -/
theorem toList_text_atom {k : TokenKind} {cs r : List Char} (h : Leads ⟨.token k, cs⟩ r)
    (hd : k ≠ .leaf .doc) (joint : Bool) : (k.atom (String.ofList cs) joint).text.toList = cs := by
  cases k with
  | leaf j =>
    cases j with
    | doc => exact absurd rfl hd
    | literal _ => exact String.toList_ofList
    | lifetime => exact String.toList_ofList
    | ident => exact String.toList_ofList
    | punct => exact String.toList_ofList
  | opener d =>
    obtain rfl : cs = [d.opener] := h.text_opener
    simp [TokenKind.atom, Atom.text]
  | closer d =>
    obtain rfl : cs = [d.closer] := h.text_closer
    simp [TokenKind.atom, Atom.text]

/-- The marked atoms of lexemes are written as the squeezed lexemes are. -/
theorem toList_write_marked (h : Chain ls []) (hd : ∀ l ∈ ls, l.kind ≠ .token (.leaf .doc)) :
    (MarkedAtom.write (marked trivia before ls)).toList =
      (squeeze trivia before ls).flatMap text := by
  induction ls generalizing trivia before with
  | nil => rfl
  | cons l ls ih =>
    obtain ⟨kind, cs⟩ := l
    obtain ⟨hd, hs⟩ := List.forall_mem_cons.1 hd
    cases kind with
    | trivia j => exact ih h.2 hs
    | token k =>
      have ht := toList_text_atom h.1 (fun e ↦ hd (congrArg _ e)) (touchesMark ls)
      rw [squeeze, marked, MarkedAtom.write, String.toList_append, String.toList_append, ht,
        ih h.2 hs]
      split
      · next hg => simp [hg, spaceIf, space]
      · next hg => simp [hg, spaceIf]

end Lexeme

/-- A documentation comment among the lexemes is a leaf of the tokens. -/
theorem Token.exists_doc (label : Option String) (p : Place) {ls : List Lexeme} {l : Lexeme}
    (hl : l ∈ ls) (hd : l.kind = .token (.leaf .doc)) :
    ∃ e text, Tree.leaf e (.doc text) ∈ Token.leaves (Token.place label p ls) := by
  induction ls generalizing p with
  | nil => cases hl
  | cons m ls ih =>
    rcases List.mem_cons.1 hl with rfl | hm
    · obtain ⟨kind, cs⟩ := l
      cases hd
      exact ⟨_, _, List.mem_cons_self⟩
    · obtain ⟨kind, cs⟩ := m
      obtain ⟨e, text, hm⟩ := ih (p.after cs) hm
      refine ⟨e, text, ?_⟩
      cases kind with
      | trivia j => exact hm
      | token k =>
        cases k with
        | leaf j => exact List.mem_cons_of_mem _ hm
        | opener d => exact hm
        | closer d => exact hm

namespace Tree

variable {label : Option String} {source : String} {ts : List Tree}

/-- Trees without documentation are rendered as a text that has the same trees but for their
places, and that rendering writes once more. -/
theorem read_renderAll (h : read label source = .ok ts)
    (hd : ∀ e text, leaf e (.doc text) ∉ leavesAll ts) (label' : Option String) :
    ∃ ts', read label' (renderAll none none ts) = .ok ts' ∧ outlines none ts' = outlines none ts ∧
      renderAll none none ts' = renderAll none none ts := by
  obtain ⟨ls, hs, hn⟩ := read_ok_iff.1 ⟨ts, h⟩
  have hc := (Lexeme.split_eq_iff.1 hs).2
  have hd : ∀ l ∈ ls, l.kind ≠ .token (.leaf .doc) := by
    intro l hl hk
    rw [leavesAll_of_read h, hs] at hd
    obtain ⟨e, text, hm⟩ := Token.exists_doc label .origin hl hk
    exact hd e text hm
  have ho := flatAll_outlines_of_read hs h
  have hs' : Lexeme.split (renderAll none none ts).toList = (Lexeme.squeeze false none ls, []) := by
    rw [renderAll_eq, ho, Lexeme.toList_write_marked hc hd]
    exact Lexeme.split_eq_iff.2 ⟨rfl, Lexeme.chain_squeeze hc hd⟩
  obtain ⟨ts', h'⟩ : ∃ ts', read label' (renderAll none none ts) = .ok ts' :=
    read_ok_iff.2 ⟨_, hs', (Lexeme.nest_squeeze []).trans hn⟩
  have he : outlines none ts' = outlines none ts := by
    apply Outline.flatAll_inj
    rw [flatAll_outlines_of_read hs' h', ho, Lexeme.marked_squeeze]
  exact ⟨ts', h', he, by rw [renderAll_eq, he, renderAll_eq]⟩

/-- A raw string that is not closed, a slash before a star, and a lifetime before a quote. -/
theorem read_renderAll_lookahead :
    ∃ ts, read none "r#\"a\"\t# /*b*/ ( \n)/*1 'c 'd'//e" = .ok ts ∧
      (∀ e text, leaf e (.doc text) ∉ leavesAll ts) ∧
        renderAll none none ts = "r#\"a\" # ()/*1 'c 'd'" ∧
          ∃ ts', read none (renderAll none none ts) = .ok ts' ∧
            outlines none ts' = outlines none ts ∧
              renderAll none none ts' = renderAll none none ts := by
  have h : (read none "r#\"a\"\t# /*b*/ ( \n)/*1 'c 'd'//e").toOption.map (fun ts ↦
      (renderAll none none ts, (leavesAll ts).any (·.describe == "doc comment"))) =
        some ("r#\"a\" # ()/*1 'c 'd'", false) := by
    decide +kernel
  obtain ⟨ts, ht, hr⟩ := Option.map_eq_some_iff.1 h
  have ht := Except.toOption_eq_some_iff.1 ht
  obtain ⟨hr, hd⟩ := Prod.mk.inj hr
  have hd : ∀ e text, leaf e (.doc text) ∉ leavesAll ts := by
    intro e text hm
    exact List.any_eq_false.1 hd _ hm rfl
  exact ⟨ts, ht, hd, hr, read_renderAll ht hd none⟩

end Tree

end ErrorDerive
