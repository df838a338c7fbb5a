import ErrorDerive.Proofs.Layout.Steps
import ErrorDerive.Proofs.Printing.Steps

/-!
# A line in front of a text

A line in front of a text, such as a phrase, is read by itself, and the text behind it is read as it
would be alone, but for the places of its trees (`OwnLine.exists_read_before`).  The end of the line
may run together with white space at the start of the text.
-/

namespace ErrorDerive

/-! ## White space at the start of a text -/

namespace Lexeme

variable {w r cs : List Char} {ls ms : List Lexeme}

theorem leads_blank (hne : w ≠ []) (hw : ∀ c ∈ w, isLayout c = true)
    (hr : ∀ c ∈ r.head?, isLayout c = false) : Leads ⟨.trivia .blank, w⟩ r := by
  obtain ⟨c, w, rfl⟩ := List.exists_cons_of_ne_nil hne
  obtain ⟨hc, hw⟩ := List.forall_mem_cons.1 hw
  have ht : Cut.run isLayout (w ++ r) = (w, r) := Cut.run_eq_iff.2 ⟨rfl, hw, hr⟩
  rw [leads_iff_of_sole rfl (LexemeKind.sole_blank hc)]
  simp only [LexemeKind.cut?, List.cons_append, blank?, hc, if_true, ht, Cut.behind]
  rfl

/-- A newline in front of a text makes one lexeme with the white space that the text starts with;
the lexemes behind that are the same. -/
theorem exists_split_newline (h : split cs = (ls, [])) :
    ∃ w ms, split ('\n' :: cs) = (⟨.trivia .blank, w⟩ :: ms, []) ∧
      (ls = ms ∨ ∃ x, ls = ⟨.trivia .blank, x⟩ :: ms) := by
  obtain ⟨hs, hw, hr⟩ := Cut.run_eq_iff.1 (rfl : Cut.run isLayout cs = _)
  generalize cs.takeWhile isLayout = w at hs hw
  generalize cs.dropWhile isLayout = r at hs hr
  subst hs
  have hn := split_of_leads (leads_blank (List.cons_ne_nil '\n' w)
    (List.forall_mem_cons.2 ⟨rfl, hw⟩) hr)
  have he : (split r).2 = [] ∧
      (ls = (split r).1 ∨ ∃ x, ls = ⟨.trivia .blank, x⟩ :: (split r).1) := by
    cases w with
    | nil =>
      rw [List.nil_append] at h
      exact ⟨congrArg Prod.snd h, .inl (congrArg Prod.fst h).symm⟩
    | cons c w =>
      have hc := split_of_leads (leads_blank (List.cons_ne_nil c w) hw hr)
      obtain ⟨rfl, hr⟩ := Prod.mk.inj (h.symm.trans hc)
      exact ⟨hr.symm, .inr ⟨_, rfl⟩⟩
  refine ⟨'\n' :: w, (split r).1, ?_, he.2⟩
  rw [← he.1]
  exact hn

end Lexeme

/-! ## Marks at the start of a text -/

/-- Atoms with another mark on the first of them. -/
def MarkedAtom.setApart (apart : Bool) : List MarkedAtom → List MarkedAtom
  | [] => []
  | (_, x) :: xs => (apart, x) :: xs

namespace Outline

/-- Outlines with another mark on the first of them. -/
def setApart (apart : Bool) : List Outline → List Outline
  | [] => []
  | .leaf _ l :: os => .leaf apart l :: os
  | .group _ d inside loose :: os => .group apart d inside loose :: os

theorem flatAll_setApart (apart : Bool) (os : List Outline) :
    flatAll (setApart apart os) = MarkedAtom.setApart apart (flatAll os) := by
  match os with
  | [] => rfl
  | .leaf _ _ :: _ => simp [setApart, MarkedAtom.setApart]
  | .group _ _ _ _ :: _ => simp [setApart, MarkedAtom.setApart]

theorem setApart_setApart (a b : Bool) (os : List Outline) :
    setApart a (setApart b os) = setApart a os := by
  match os with
  | [] => rfl
  | .leaf _ _ :: _ => rfl
  | .group _ _ _ _ :: _ => rfl

end Outline

namespace Tree

/-- What comes before trees shows in the first mark of their outlines only. -/
theorem setApart_outlines (p : Option Nat) (ts : List Tree) :
    Outline.setApart false (outlines p ts) = outlines none ts := by
  match ts with
  | [] => rfl
  | .leaf _ _ :: _ => simp [Outline.setApart]
  | .group _ _ _ _ :: _ => simp [Outline.setApart]

theorem alike_of_setApart {ts ts' : List Tree} {apart : Bool} {p q : Option Nat}
    (h : outlines q ts' = Outline.setApart apart (outlines p ts)) : Alike ts ts' := by
  rw [Alike, ← setApart_outlines p ts, ← setApart_outlines q ts', h, Outline.setApart_setApart]

end Tree

namespace Lexeme

/-- Behind trivia that come after a token, atoms are marked as at the start of a text, but for the
first of them. -/
theorem marked_behind {k : TokenKind} (hk : ∀ d, k ≠ .opener d) (trivia : Bool)
    (ls : List Lexeme) :
    marked true (some k) ls = MarkedAtom.setApart true (marked trivia none ls) := by
  induction ls generalizing trivia with
  | nil => rfl
  | cons l ls ih =>
    obtain ⟨kind, text⟩ := l
    cases kind with
    | trivia j => exact ih true
    | token j =>
      have hg : TokenKind.showsGap (some k) j = true := by
        cases k with
        | opener d => exact absurd rfl (hk d)
        | leaf _ => rfl
        | closer _ => rfl
      simp [marked, MarkedAtom.setApart, hg]

end Lexeme

/-! ## Reading both -/

/-- A text that is cut into the same lexemes in front of every new line, and whose trees have
outlines of a form there. -/
def OwnLine (F : Form) (s : String) : Prop :=
  ∃ ls : List Lexeme, ls.flatMap Lexeme.text = s.toList ∧
    (∀ r, Lexeme.Chain ls ('\n' :: r)) ∧ Lexeme.Nested ls ∧
    ∀ ms, ∃ o os k, F (o :: os) ∧ (∀ d, k ≠ .opener d) ∧
      Lexeme.marked false none (ls ++ ms) =
        Outline.flatAll (o :: os) ++ Lexeme.marked false (some k) ms

theorem Phrase.ownLine {a b : Edge} {F : Form} {s : String} (h : Phrase a b F s) : OwnLine F s := by
  obtain ⟨ls, hs, hc, hn, hF⟩ := h.lexes
  refine ⟨ls, hs, fun r ↦ hc _ ?_, hn, fun ms ↦ ?_⟩
  · rintro _ ⟨⟩
    have hb := h.last_ne
    cases b with
    | blank => exact absurd rfl hb
    | word => decide
    | solid => decide
  · obtain ⟨o, os, k, hos, -, hk, he⟩ := hF false none ms
    exact ⟨o, os, k, hos, hk, he⟩

/-- A line is read by itself, and the text behind it as it is alone. -/
theorem OwnLine.exists_read_before {F : Form} {s source : String} {label : Option String}
    {ts : List Tree} (h : OwnLine F s) (hr : Tree.read label source = .ok ts)
    (label' : Option String) :
    ∃ us ts', Tree.read label' (s ++ "\n" ++ source) = .ok (us ++ ts') ∧ Tree.Has F us ∧
      Tree.Alike ts ts' := by
  obtain ⟨ls, hs, hn⟩ := Tree.read_ok_iff.1 ⟨ts, hr⟩
  obtain ⟨w, ms, hw, hm⟩ := Lexeme.exists_split_newline hs
  obtain ⟨ps, hp, hc, hnp, hF⟩ := h
  have hl : Lexeme.split (s ++ "\n" ++ source).toList = (ps ++ ⟨.trivia .blank, w⟩ :: ms, []) := by
    have hx := Lexeme.split_of_chain (hc source.toList)
    rw [hw, hp] at hx
    simpa using hx
  have hk : Lexeme.Nested (⟨.trivia .blank, w⟩ :: ms) ∧
      ∃ t, Lexeme.marked false none ls = Lexeme.marked t none ms := by
    rcases hm with rfl | ⟨x, rfl⟩
    · exact ⟨hn, false, rfl⟩
    · exact ⟨hn, true, rfl⟩
  obtain ⟨hk, t, ht⟩ := hk
  obtain ⟨all, ha⟩ : ∃ all, Tree.read label' (s ++ "\n" ++ source) = .ok all :=
    Tree.read_ok_iff.2 ⟨_, hl, hnp.append hk⟩
  obtain ⟨o, os, k, hos, hk, he⟩ := hF (⟨.trivia .blank, w⟩ :: ms)
  have ho : Tree.outlines none all = (o :: os) ++ Outline.setApart true (Tree.outlines none ts) := by
    refine Outline.flatAll_inj ?_
    rw [Tree.flatAll_outlines_of_read hl ha, he, Outline.flatAll_append, Outline.flatAll_setApart,
      Tree.flatAll_outlines_of_read hs hr, ht]
    exact congrArg _ (Lexeme.marked_behind hk t ms)
  obtain ⟨us, vs, q, rfl, hu, hv⟩ := Tree.exists_of_outlines_append ho
  exact ⟨us, vs, ha, ⟨none, hu ▸ hos⟩, Tree.alike_of_setApart hv⟩

/-- Behind one more attribute, attributes are read as without it. -/
theorem Parse.attributes_before {c c' d : Cursor} {ts : List Tree} {P : Attribute → Prop}
    {as : List Attribute} (ha : Reaches attribute? c' (fun r ↦ ∃ a, r = some a ∧ P a) ts)
    (hc : Tree.Alike c.rest ts) (h : attributes c = (.ok as, d)) :
    ∃ a as' d', attributes c' = (.ok (a :: as'), d') ∧ P a ∧
      List.Forall₂ Attribute.Alike as as' ∧ d.Alike d' := by
  obtain ⟨_, f, hs, ⟨a, rfl, hP⟩, hf⟩ := ha
  have hf : c.Alike f := by
    rw [Cursor.Alike, hf]
    exact hc
  have ha := agree_attributes hf
  rw [h] at ha
  rcases hx : attributes f with ⟨y, d'⟩
  rw [hx] at ha
  cases ha with
  | @ok _ as' _ _ ha hd => exact ⟨a, as', d', attributes_of_attribute? hs hx, hP, ha, hd⟩

end ErrorDerive
