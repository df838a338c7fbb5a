import ErrorDerive.Proofs.Nesting
import ErrorDerive.Proofs.Outline

/-!
# Marks of lexemes

The marked atoms of a text can be read off its lexemes, without their places: a token is marked if
trivia came before it.  So the lexemes of a text determine the outlines of its trees.
-/

namespace ErrorDerive

/-- Whether rendering shows a gap between two tokens; there is none before the first token, and none
between the brackets of an empty group. -/
def TokenKind.showsGap : Option TokenKind → TokenKind → Bool
  | none, _ => false
  | some (.opener _), .closer _ => false
  | some _, _ => true

namespace Lexeme

open TokenKind (showsGap)

/-- Whether a punctuation mark comes next, without any trivia in between. -/
def touchesMark (ls : List Lexeme) : Bool := ls.head?.any (·.kind == .token (.leaf .punct))

/-- The marked atoms of lexemes, given whether trivia came after the last token, and its kind. -/
def marked (trivia : Bool) (before : Option TokenKind) : List Lexeme → List MarkedAtom
  | [] => []
  | ⟨.trivia _, _⟩ :: ls => marked true before ls
  | ⟨.token k, text⟩ :: ls =>
    (trivia && showsGap before k, k.atom (String.ofList text) (touchesMark ls)) ::
      marked false (some k) ls

theorem Chain.texts_ne_nil {ls : List Lexeme} {r : List Char} (h : Chain ls r) :
    ∀ l ∈ ls, l.text ≠ [] := by
  induction ls with
  | nil => intro l hl; cases hl
  | cons l ls ih => exact List.forall_mem_cons.2 ⟨h.text_ne_nil, ih h.2⟩

end Lexeme

namespace Token

open Lexeme (touchesMark)

variable {label : Option String} {p : Place} {ls : List Lexeme} {n : Nat}

theorem markAt_place_of_lt (h : n < p.offset) : markAt n (place label p ls) = false := by
  induction ls generalizing p with
  | nil => rfl
  | cons l ls ih =>
    obtain ⟨kind, text⟩ := l
    cases kind with
    | trivia k => exact ih (by simp only [Place.offset_after]; omega)
    | token k =>
      have hn : p.offset ≠ n := by omega
      simp [place, markAt, Extent.start, hn]

/-- A token that a mark touches is one whose lexeme is followed by that of a mark. -/
theorem markAt_place (h : ∀ l ∈ ls, l.text ≠ []) (hp : p.offset = n) :
    markAt n (place label p ls) = touchesMark ls := by
  cases ls with
  | nil => rfl
  | cons l ls =>
    obtain ⟨kind, text⟩ := l
    cases kind with
    | trivia k =>
      have ht : 0 < text.length := List.length_pos_iff.2 (h ⟨.trivia k, text⟩ (by simp))
      rw [place, markAt_place_of_lt (by rw [Place.offset_after]; omega)]
      simp [touchesMark]
    | token k => simp [place, markAt, Extent.start, hp, touchesMark]

/-- The last atom before an offset, with the kind of its token, and whether it ends before that. -/
inductive Follows (n : Nat) : Option PlacedAtom → Option TokenKind → Bool → Prop
  | none (trivia : Bool) : Follows n none none trivia
  | some {y : PlacedAtom} {k : TokenKind} {text : String} {joint trivia : Bool}
      (hy : y.atom = k.atom text joint) (hs : y.stop ≤ n) (ht : trivia = decide (y.stop < n)) :
      Follows n (some y) (some k) trivia

theorem Follows.isApart {before : Option PlacedAtom} {kind : Option TokenKind} {trivia : Bool}
    (h : Follows n before kind trivia) {x : PlacedAtom} {k : TokenKind} {text : String}
    {joint : Bool} (hx : x.atom = k.atom text joint) (hs : x.start = n) :
    PlacedAtom.isApart before x = (trivia && TokenKind.showsGap kind k) := by
  obtain ⟨a, s, t⟩ := x
  cases hs
  cases hx
  cases h with
  | none => cases k <;> simp [PlacedAtom.isApart, TokenKind.showsGap]
  | @some y k' _ _ _ hy _ ht =>
    obtain ⟨b, u, v⟩ := y
    cases hy
    cases ht
    cases k <;> cases k' <;> simp [PlacedAtom.isApart, TokenKind.showsGap]

/-- The atoms of tokens are marked as their lexemes are. -/
theorem marked_atoms_place (h : ∀ l ∈ ls, l.text ≠ []) {before : Option PlacedAtom}
    {kind : Option TokenKind} {trivia : Bool} (hf : Follows p.offset before kind trivia) :
    PlacedAtom.marked before (atoms (place label p ls)) = Lexeme.marked trivia kind ls := by
  induction ls generalizing p before kind trivia with
  | nil => rfl
  | cons l ls ih =>
    obtain ⟨ht, hs⟩ := List.forall_mem_cons.1 h
    obtain ⟨k, text⟩ := l
    have hl : 0 < text.length := List.length_pos_iff.2 ht
    cases k with
    | trivia k =>
      refine ih hs ?_
      cases hf with
      | none => exact .none true
      | some hy hs ht =>
        exact .some hy (by simp only [Place.offset_after]; omega)
          (by simp only [Place.offset_after]; exact (decide_eq_true (by omega)).symm)
    | token k =>
      have hm : markAt (p.after text).offset (place label (p.after text) ls) = touchesMark ls :=
        markAt_place hs rfl
      simp only [place, atoms, PlacedAtom.marked, Lexeme.marked, start, stop, Extent.start,
        Extent.stop, hm]
      rw [hf.isApart rfl rfl, ih hs (.some rfl (Nat.le_refl _) (decide_eq_false (Nat.lt_irrefl _)).symm)]

end Token

namespace Tree

/-- The lexemes of a text determine the outlines of its trees. -/
theorem flatAll_outlines_of_read {label : Option String} {source : String} {ls : List Lexeme}
    {ts : List Tree} (hs : Lexeme.split source.toList = (ls, [])) (hr : read label source = .ok ts) :
    Outline.flatAll (outlines none ts) = Lexeme.marked false none ls := by
  have hc := (Lexeme.split_eq_iff.1 hs).2
  rw [flatAll_outlines, flattenAll_of_read (Token.scan_eq_ok_iff.2 ⟨ls, hs, rfl⟩) hr]
  exact Token.marked_atoms_place hc.texts_ne_nil (.none false)

end Tree

end ErrorDerive
