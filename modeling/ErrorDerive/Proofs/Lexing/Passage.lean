import ErrorDerive.Proofs.Lexing.Identifier
import ErrorDerive.Proofs.Nesting
import ErrorDerive.Proofs.Quoting

/-!
# Passages

A passage is a text that is cut into the same lexemes wherever it stands, as long as its edges do
not touch what they would run together with.  Passages are put together by `Passage.append`; fixed
ones are checked by computation.
-/

namespace ErrorDerive

namespace Lexeme

/-- How a run of lexemes ends of which each may touch the next, whatever follows further on. -/
def ending? : List Lexeme → Option Edge
  | [] => none
  | [l] => if l.Leads [] then l.edge? else none
  | l :: m :: ls =>
    match l.edge? with
    | some e => if l.Leads [] ∧ e.Meets m.text then ending? (m :: ls) else none
    | none => none

theorem chain_of_ending? {ls : List Lexeme} {e : Edge} {r : List Char} (h : ending? ls = some e)
    (hr : e.Meets r) : Chain ls r := by
  fun_induction ending? ls with
  | case1 => trivial
  | case2 l hl => exact ⟨leads_of_meets hl h hr, trivial⟩
  | case3 => cases h
  | case4 l m ls d hd hl ih =>
    have hc := ih h
    refine ⟨leads_of_meets hl.1 hd fun c hc' ↦ hl.2 c ?_, hc⟩
    obtain ⟨x, xs, hx⟩ := List.exists_cons_of_ne_nil hc.text_ne_nil
    simpa [hx] using hc'
  | case5 => cases h
  | case6 => cases h

/-- The lexemes of a text, if there are at most so many of them; it computes by itself, as `split`
does not. -/
def scan : Nat → List Char → Option (List Lexeme)
  | _, [] => some []
  | 0, _ :: _ => none
  | n + 1, c :: cs =>
    match first? (c :: cs) with
    | some (l, rest) => (scan n rest).map (l :: ·)
    | none => none

theorem split_of_scan {n : Nat} {cs : List Char} {ls : List Lexeme} (h : scan n cs = some ls) :
    split cs = (ls, []) := by
  fun_induction scan n cs generalizing ls with
  | case1 =>
    cases h
    exact split_eq_iff.2 ⟨rfl, trivial⟩
  | case2 => cases h
  | case3 n c cs l rest hf ih =>
    obtain ⟨ms, hm, rfl⟩ := Option.map_eq_some_iff.1 h
    have hc := append_of_first? hf
    rw [← hc] at hf ⊢
    rw [split_of_leads hf, ih hm]
  | case4 => cases h

end Lexeme

open Lexeme (Chain nest ending? split literal? scan)

/-- A text that is cut into the same lexemes wherever its edges let it stand; with the open brackets
before and behind it, and its literals. -/
def Passage (first last : Edge) (before behind : List Delimiter)
    (literals : List (LiteralKind × String)) (s : String) : Prop :=
  s.toList.head?.map Edge.ofChar = some first ∧
    ∃ ls : List Lexeme, ls.flatMap Lexeme.text = s.toList ∧ (∀ r, last.Meets r → Chain ls r) ∧
      nest before ls = some behind ∧ ls.filterMap literal? = literals

/-- Checks that a text is a passage without literals. -/
def isPassage (first last : Edge) (before behind : List Delimiter) (s : String) : Bool :=
  match scan s.toList.length s.toList with
  | some ls => s.toList.head?.map Edge.ofChar = some first ∧ ending? ls = some last ∧
      nest before ls = some behind ∧ ls.filterMap literal? = []
  | none => false

namespace Passage

variable {a b c d : Edge} {o p q : List Delimiter} {x y : List (LiteralKind × String)}
  {s t : String}

theorem ofCheck (h : isPassage a b o p s = true) : Passage a b o p [] s := by
  unfold isPassage at h
  split at h
  · next ls hs =>
    obtain ⟨hf, he, hn, hl⟩ := of_decide_eq_true h
    obtain ⟨ht, -⟩ := Lexeme.split_eq_iff.1 (Lexeme.split_of_scan hs)
    exact ⟨hf, ls, ht, fun r ↦ Lexeme.chain_of_ending? he, hn, hl⟩
  · cases h

/-- Two passages of which the first may touch the second are one. -/
theorem append (h : Passage a b o p x s) (h' : Passage c d p q y t) (hm : b.meets c = true) :
    Passage a d o q (x ++ y) (s ++ t) := by
  obtain ⟨hf, ls, hs, hc, hn, hl⟩ := h
  obtain ⟨hf', ms, ht, hc', hn', hl'⟩ := h'
  refine ⟨?_, ls ++ ms, ?_, fun r hr ↦ Lexeme.chain_append.2 ⟨hc _ ?_, hc' r hr⟩, ?_, ?_⟩
  · obtain ⟨e, he, rfl⟩ := Option.map_eq_some_iff.1 hf
    simp [List.head?_append, he]
  · simp [hs, ht]
  · obtain ⟨e, he, rfl⟩ := Option.map_eq_some_iff.1 hf'
    intro f hf
    rw [ht, List.head?_append, he] at hf
    cases hf
    exact hm
  · rw [Lexeme.nest_append, hn]
    exact hn'
  · rw [List.filterMap_append, hl, hl']

/-- Brackets that are open around a passage do not matter to it. -/
theorem outside (h : Passage a b o p x s) (q : List Delimiter) :
    Passage a b (o ++ q) (p ++ q) x s := by
  obtain ⟨hf, ls, hs, hc, hn, hl⟩ := h
  exact ⟨hf, ls, hs, hc, Lexeme.nest_outside hn q, hl⟩

/-- A fixed text without literals, behind any open brackets. -/
theorem fixed (a b : Edge) (p q : List Delimiter) (s : String)
    (h : isPassage a b p q s = true) : Passage a b (p ++ o) (q ++ o) [] s :=
  (ofCheck h).outside o

/-- A solid end may stand for any other. -/
theorem ofSolid (h : Passage a .solid o p x s) (b : Edge) : Passage a b o p x s := by
  obtain ⟨hf, ls, hs, hc, hn, hl⟩ := h
  exact ⟨hf, ls, hs, fun r _ ↦ hc r (Edge.meets_solid r), hn, hl⟩

theorem ident (h : Lexeme.isIdent s.toList = true) : Passage .word .word o o [] s := by
  refine ⟨Lexeme.ofChar_of_isIdent h, [⟨.token (.leaf .ident), s.toList⟩], by simp,
    fun r hr ↦ ⟨Lexeme.leads_of_meets (Lexeme.leads_of_isIdent h) rfl (by simpa using hr),
      trivial⟩, rfl, rfl⟩

theorem quote (s : String) :
    Passage .word .solid o o [(.string, Literal.quote s)] (Literal.quote s) := by
  refine ⟨by rw [Literal.toList_quote]; rfl,
    [⟨.token (.leaf (.literal .string)), (Literal.quote s).toList⟩], by simp,
    fun r _ ↦ ⟨Literal.leads_quote s _, trivial⟩, rfl, ?_⟩
  simp only [List.filterMap_cons, literal?, String.ofList_toList, List.filterMap_nil]

/-- Passages of one kind in a row behind another that ends as they do. -/
theorem append_join {ι : Type} {f : ι → String} {g : ι → List (LiteralKind × String)}
    {l : List ι} (h : Passage a b o p x s) (hm : b.meets c = true)
    (hi : ∀ i ∈ l, Passage c b p p (g i) (f i)) :
    Passage a b o p (x ++ l.flatMap g) (s ++ String.join (l.map f)) := by
  induction l generalizing s x with
  | nil => simpa using h
  | cons i l ih =>
    have hs := ih (h.append (hi i (by simp)) hm) fun j hj ↦ hi j (by simp [hj])
    simpa [String.append_assoc] using hs

/-- A passage that stands alone folds into trees if its brackets come out even. -/
theorem split_eq (h : Passage a b o p x s) :
    ∃ ls, split s.toList = (ls, []) ∧ nest o ls = some p ∧ ls.filterMap literal? = x := by
  obtain ⟨-, ls, hs, hc, hn, hl⟩ := h
  exact ⟨ls, Lexeme.split_eq_iff.2 ⟨hs, hc [] (by intro c hc; cases hc)⟩, hn, hl⟩

/-- The literals in the trees of a passage are its own. -/
theorem exists_read (h : Passage a b [] [] x s) (label : Option String) :
    ∃ ts, Tree.read label s = .ok ts ∧
      (Tree.literals ts).map (fun l ↦ (l.kind, l.text)) = x := by
  obtain ⟨ls, hs, hn, hl⟩ := h.split_eq
  obtain ⟨ts, ht⟩ : ∃ ts, Tree.read label s = .ok ts := Tree.read_ok_iff.2 ⟨ls, hs, hn⟩
  refine ⟨ts, ht, ?_⟩
  rw [Tree.literals_of_read ht, hs]
  exact hl

end Passage

end ErrorDerive
