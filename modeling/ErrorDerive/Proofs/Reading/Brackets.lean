import ErrorDerive.Tree.Folding
import Mathlib.Data.List.Forall2

/-!
# Well-nested tokens

`Balanced` says what it is for the brackets among tokens to be well nested, and `Unclosed` which
openers are left where every closer so far matches.  Tokens fold into trees exactly if they are
balanced; otherwise they are refused at the first closer that does not match, or else at the
innermost opener that is left (`Misnested`).
-/

namespace ErrorDerive

namespace Token

/-- Tokens with well-nested brackets. -/
inductive Balanced : List Token → Prop
  | nil : Balanced []
  | leaf {t : Token} {k : LeafKind} {ts : List Token} (hk : t.kind = .leaf k) (ht : Balanced ts) :
      Balanced (t :: ts)
  | group {o c : Token} {d : Delimiter} {us ts : List Token} (ho : o.kind = .opener d)
      (hu : Balanced us) (hc : c.kind = .closer d) (ht : Balanced ts) :
      Balanced (o :: (us ++ c :: ts))

/-- Tokens of which every closer matches, with the openers that are left, the innermost first. -/
inductive Unclosed : List Token → List Token → Prop
  | nil {ts : List Token} (h : Balanced ts) : Unclosed [] ts
  | cons {o : Token} {d : Delimiter} {os us ts : List Token} (hu : Unclosed os us)
      (ho : o.kind = .opener d) (ht : Balanced ts) : Unclosed (o :: os) (us ++ o :: ts)

/-- Why and where tokens are not balanced: the first closer has no opener or is not that of the
innermost open one, or else the innermost opener is left. -/
inductive Misnested : List Token → Unreadable → Prop
  | stray {c : Token} {d : Delimiter} {us ts : List Token} (hu : Balanced us)
      (hc : c.kind = .closer d) : Misnested (us ++ c :: ts) ⟨.strayCloser d, c.extent.span⟩
  | mismatched {o c : Token} {d e : Delimiter} {os us ts : List Token} (hu : Unclosed (o :: os) us)
      (ho : o.kind = .opener e) (hc : c.kind = .closer d) (hd : d ≠ e) :
      Misnested (us ++ c :: ts) ⟨.mismatchedCloser d e, c.extent.span⟩
  | unclosed {o : Token} {d : Delimiter} {os ts : List Token} (ht : Unclosed (o :: os) ts)
      (ho : o.kind = .opener d) : Misnested ts ⟨.unclosed d, o.extent.span⟩

theorem Balanced.append {us ts : List Token} (hu : Balanced us) (ht : Balanced ts) :
    Balanced (us ++ ts) := by
  induction hu with
  | nil => exact ht
  | leaf hk _ ih => exact .leaf hk ih
  | group ho hu hc _ _ ih =>
    rw [List.cons_append, List.append_assoc]
    exact .group ho hu hc ih

theorem Unclosed.append {os us ts : List Token} (hu : Unclosed os us) (ht : Balanced ts) :
    Unclosed os (us ++ ts) := by
  cases hu with
  | nil h => exact .nil (h.append ht)
  | cons hu ho hs =>
    rw [List.append_assoc, List.cons_append]
    exact .cons hu ho (hs.append ht)

/-- Tokens either are misnested or leave some openers, whatever was read of them already. -/
theorem unclosed_or_misnested {os us : List Token} (hu : Unclosed os us) (ts : List Token) :
    (∃ ps, Unclosed ps (us ++ ts)) ∨ ∃ u, Misnested (us ++ ts) u := by
  induction ts generalizing os us with
  | nil => exact .inl ⟨os, by simpa using hu⟩
  | cons t ts ih =>
    have hs : us ++ t :: ts = us ++ [t] ++ ts := by simp
    cases hk : t.kind with
    | leaf k =>
      rw [hs]
      exact ih (hu.append (.leaf hk .nil))
    | opener d =>
      rw [hs]
      exact ih (.cons hu hk .nil)
    | closer d =>
      cases hu with
      | nil h => exact .inr ⟨_, .stray h hk⟩
      | @cons o e os vs ws hv ho hw =>
        by_cases hd : d = e
        · subst hd
          have hg : Balanced (o :: (ws ++ [t])) := .group ho hw hk .nil
          have hs : vs ++ o :: ws ++ t :: ts = vs ++ o :: (ws ++ [t]) ++ ts := by simp
          rw [hs]
          exact ih (hv.append hg)
        · exact .inr ⟨_, .mismatched (.cons hv ho hw) ho hk hd⟩

theorem balanced_or_misnested (ts : List Token) : Balanced ts ∨ ∃ u, Misnested ts u := by
  rcases unclosed_or_misnested (.nil .nil) ts with ⟨ps, h⟩ | h
  · cases h with
    | nil h => exact .inl h
    | cons hu ho ht => exact .inr ⟨_, .unclosed (.cons hu ho ht) ho⟩
  · exact .inr h

end Token

namespace Tree

open Token (Balanced Unclosed Misnested)

variable {label : Option String} {fs : List Frame} {done : List Tree} {t : Token}
  {us ts : List Token}

/-! ## Single tokens -/

theorem fold_leaf {k : LeafKind} (h : t.kind = .leaf k) :
    fold label fs done (t :: ts) =
      fold label fs (.leaf t.extent (.ofLexeme t.text (Token.markAt t.extent.stop ts) k) :: done)
        ts := by
  rw [fold.eq_def]
  simp only [h]

theorem fold_opener {d : Delimiter} (h : t.kind = .opener d) :
    fold label fs done (t :: ts) = fold label (⟨d, t.extent, done⟩ :: fs) [] ts := by
  rw [fold.eq_def]
  simp only [h]

theorem fold_closer {f : Frame} (h : t.kind = .closer f.delimiter) :
    fold label (f :: fs) done (t :: ts) =
      fold label fs (.group ⟨label, f.opening.first, t.extent.past⟩ f.delimiter done.reverse
        t.extent :: f.before) ts := by
  rw [fold.eq_def]
  simp only [h, if_true]

theorem fold_stray {d : Delimiter} (h : t.kind = .closer d) :
    fold label [] done (t :: ts) = .error ⟨.strayCloser d, t.extent.span⟩ := by
  rw [fold.eq_def]
  simp only [h]

theorem fold_mismatched {d : Delimiter} {f : Frame} (h : t.kind = .closer d)
    (hd : d ≠ f.delimiter) :
    fold label (f :: fs) done (t :: ts) =
      .error ⟨.mismatchedCloser d f.delimiter, t.extent.span⟩ := by
  rw [fold.eq_def]
  simp only [h, if_neg hd]

/-! ## Runs of tokens -/

/-- Balanced tokens are read without a change to the open groups. -/
theorem exists_fold_of_balanced (hu : Balanced us) (fs : List Frame) (done : List Tree)
    (ts : List Token) :
    ∃ done', fold label fs done (us ++ ts) = fold label fs done' ts := by
  induction hu generalizing fs done ts with
  | nil => exact ⟨done, rfl⟩
  | leaf hk _ ih =>
    rw [List.cons_append, fold_leaf hk]
    exact ih fs _ ts
  | @group o c d us vs ho _ hc _ ihu ihv =>
    rw [List.cons_append, fold_opener ho, List.append_assoc, List.cons_append]
    obtain ⟨inside, hi⟩ := ihu (⟨d, o.extent, done⟩ :: fs) [] (c :: (vs ++ ts))
    rw [hi, fold_closer hc]
    exact ihv fs _ ts

/-- The open group that an opener stands for. -/
def Opens (o : Token) (f : Frame) : Prop := o.kind = .opener f.delimiter ∧ o.extent = f.opening

/-- The openers that are left are the open groups. -/
theorem exists_fold_of_unclosed {os : List Token} (hu : Unclosed os us) (ts : List Token) :
    ∃ fs done, List.Forall₂ Opens os fs ∧
      fold label [] [] (us ++ ts) = fold label fs done ts := by
  induction hu generalizing ts with
  | nil h =>
    obtain ⟨done, hf⟩ := exists_fold_of_balanced h [] [] ts
    exact ⟨[], done, .nil, hf⟩
  | @cons o d os us vs _ ho hv ih =>
    obtain ⟨fs, before, hs, hf⟩ := ih (o :: (vs ++ ts))
    obtain ⟨done, hd⟩ := exists_fold_of_balanced hv (⟨d, o.extent, before⟩ :: fs) [] ts
    refine ⟨⟨d, o.extent, before⟩ :: fs, done, .cons ⟨ho, rfl⟩ hs, ?_⟩
    rw [List.append_assoc, List.cons_append, hf, fold_opener ho, hd]

theorem fold_of_misnested {u : Unreadable} (h : Misnested ts u) :
    fold label [] [] ts = .error u := by
  cases h with
  | stray hu hc =>
    obtain ⟨done, hf⟩ := exists_fold_of_balanced hu [] [] _
    rw [hf, fold_stray hc]
  | mismatched hu ho hc hd =>
    obtain ⟨fs, done, hs, hf⟩ := exists_fold_of_unclosed hu _
    obtain ⟨f, gs, ⟨hk, -⟩, -, rfl⟩ := List.forall₂_cons_left_iff.1 hs
    cases ho.symm.trans hk
    rw [hf, fold_mismatched hc hd]
  | unclosed ht ho =>
    obtain ⟨fs, done, hs, hf⟩ := exists_fold_of_unclosed ht []
    obtain ⟨f, gs, ⟨hk, he⟩, -, rfl⟩ := List.forall₂_cons_left_iff.1 hs
    cases ho.symm.trans hk
    rw [List.append_nil] at hf
    rw [hf, he, fold.eq_def]

/-- Tokens fold into trees exactly if they are balanced. -/
theorem exists_fold_eq_ok_iff :
    (∃ trees, fold label [] [] ts = .ok trees) ↔ Balanced ts := by
  constructor
  · rintro ⟨trees, hf⟩
    rcases Token.balanced_or_misnested ts with h | ⟨u, h⟩
    · exact h
    · cases hf.symm.trans (fold_of_misnested h)
  · intro h
    obtain ⟨done, hf⟩ : ∃ done, fold label [] [] (ts ++ []) = fold label [] done [] :=
      exists_fold_of_balanced h [] [] []
    rw [List.append_nil] at hf
    exact ⟨done.reverse, by rw [hf, fold.eq_def]⟩

theorem fold_eq_error_iff {u : Unreadable} :
    fold label [] [] ts = .error u ↔ Misnested ts u := by
  refine ⟨fun hf ↦ ?_, fold_of_misnested⟩
  rcases Token.balanced_or_misnested ts with h | ⟨v, h⟩
  · obtain ⟨trees, ht⟩ : ∃ trees, fold label [] [] ts = .ok trees := exists_fold_eq_ok_iff.2 h
    cases hf.symm.trans ht
  · cases hf.symm.trans (fold_of_misnested h)
    exact h

end Tree

end ErrorDerive
