import ErrorDerive.Proofs.Lexing.Context
import Mathlib.Data.List.TakeWhile

/-!
# Identifiers

The texts that are cut off as identifiers: a letter or underscore and then letters, digits and
underscores, perhaps behind the mark `r#`.
-/

namespace ErrorDerive.Lexeme

/-- Whether a text is a letter or underscore followed by letters, digits and underscores. -/
def isName : List Char → Bool
  | c :: cs => isNameStart c && cs.all isNameRest
  | [] => false

/-- Whether a text is an identifier. -/
def isIdent : List Char → Bool
  | 'r' :: '#' :: cs => isName cs
  | cs => isName cs

theorem isName_cons {c : Char} {cs : List Char} :
    isName (c :: cs) = true ↔ isNameStart c = true ∧ ∀ d ∈ cs, isNameRest d = true := by
  simp [isName]

theorem isNameRest_of_isName {cs : List Char} (h : isName cs = true) {c : Char} (hc : c ∈ cs) :
    isNameRest c = true := by
  cases cs with
  | nil => cases hc
  | cons d cs =>
    obtain ⟨hd, hs⟩ := isName_cons.1 h
    rcases List.mem_cons.1 hc with rfl | hc
    · exact isNameRest_of_isNameStart hd
    · exact hs c hc

theorem isIdent_of_isName {cs : List Char} (h : isName cs = true) : isIdent cs = true := by
  unfold isIdent
  split
  · exact absurd (isNameRest_of_isName h (c := '#') (by simp)) (by decide)
  · exact h

/-- An identifier is a name, perhaps behind its mark. -/
theorem isIdent_cases {cs : List Char} (h : isIdent cs = true) :
    isName cs = true ∨ ∃ n, cs = 'r' :: '#' :: n ∧ isName n = true := by
  unfold isIdent at h
  split at h
  · next n => exact .inr ⟨n, rfl, h⟩
  · exact .inl h

/-- Letters, digits and underscores may be put behind a name. -/
theorem isName_append {cs ds : List Char} (hc : isName cs = true)
    (hd : ∀ d ∈ ds, isNameRest d = true) : isName (cs ++ ds) = true := by
  cases cs with
  | nil => cases hc
  | cons c cs =>
    obtain ⟨h, hs⟩ := isName_cons.1 hc
    refine isName_cons.2 ⟨h, fun d hm ↦ ?_⟩
    rcases List.mem_append.1 hm with hm | hm
    · exact hs d hm
    · exact hd d hm

/-! ## Names that are cut off -/

theorem isName_of_name? {cs a b : List Char} (h : name? cs = some (a, b)) : isName a = true := by
  cases cs with
  | nil => cases h
  | cons c cs =>
    rw [name?] at h
    split at h
    · next hc =>
      obtain ⟨x, hx, rfl⟩ := Cut.behind_eq_some_iff.1 h
      cases hx
      exact isName_cons.2 ⟨hc, fun d hd ↦ by simpa using List.mem_takeWhile_imp hd⟩
    · cases h

theorem isIdent_of_ident? {cs a b : List Char} (h : ident? cs = some (a, b)) :
    isIdent a = true := by
  unfold ident? at h
  split at h
  · rcases Option.or_eq_some_iff.1 h with h | ⟨-, h⟩
    · obtain ⟨x, hx, rfl⟩ := Cut.behind_eq_some_iff.1 h
      exact isName_of_name? hx
    · exact isIdent_of_isName (isName_of_name? h)
  · exact isIdent_of_isName (isName_of_name? h)

theorem name?_of_isName {cs : List Char} (h : isName cs = true) : name? cs = some (cs, []) := by
  cases cs with
  | nil => cases h
  | cons c cs =>
    obtain ⟨hc, hs⟩ := isName_cons.1 h
    have ht : cs.takeWhile isNameRest = cs := List.takeWhile_eq_self_iff.2 hs
    have hd : cs.dropWhile isNameRest = [] := List.dropWhile_eq_nil_iff.2 hs
    simp [name?, hc, Cut.behind, Cut.run, ht, hd]

theorem ident?_of_isIdent {cs : List Char} (h : isIdent cs = true) :
    ident? cs = some (cs, []) := by
  unfold isIdent at h
  split at h
  · simp [ident?, name?_of_isName h, Cut.behind]
  · next hr =>
    unfold ident?
    split
    · next n => exact absurd rfl (hr n)
    · exact name?_of_isName h

theorem rawString?_of_isIdent {cs : List Char} (h : isIdent cs = true) :
    rawString? cs = none := by
  have hq : isNameRest '"' = false ∧ isNameRest '#' = false := by decide
  rcases isIdent_cases h with h | ⟨n, rfl, h⟩
  · have hm : '"' ∉ cs := fun hm ↦ by simpa [hq] using isNameRest_of_isName h hm
    unfold rawString?
    split
    · simp at hm
    · simp at hm
    · simp at hm
    · rfl
  · have hm : '"' ∉ n ∧ '#' ∉ n :=
      ⟨fun hm ↦ by simpa [hq] using isNameRest_of_isName h hm,
        fun hm ↦ by simpa [hq] using isNameRest_of_isName h hm⟩
    rcases n with _ | ⟨c, n⟩
    · cases h
    · simp only [List.mem_cons, not_or] at hm
      simp [rawString?, Ne.symm hm.1.1, Ne.symm hm.2.1]

/-- An identifier is a lexeme by itself. -/
theorem leads_of_isIdent {cs : List Char} (h : isIdent cs = true) :
    Leads ⟨.token (.leaf .ident), cs⟩ [] := by
  have hi := ident?_of_isIdent h
  obtain ⟨c, ds, rfl⟩ : ∃ c ds, cs = c :: ds := by
    refine List.exists_cons_of_ne_nil ?_
    rintro rfl
    cases h
  by_cases hr : c = 'r'
  · subst hr
    rw [leads_r_iff rfl, List.append_nil]
    exact .inr ⟨rawString?_of_isIdent h, hi, rfl⟩
  · have hs : isNameStart c = true := by
      rcases isIdent_cases h with h | ⟨n, e, -⟩
      · exact (isName_cons.1 h).1
      · cases e
        exact absurd rfl hr
    rw [leads_iff_of_sole rfl (LexemeKind.sole_ident hs hr), List.append_nil]
    exact hi

/-- What is cut off as an identifier is one. -/
theorem Leads.isIdent {cs r : List Char} (h : Leads ⟨.token (.leaf .ident), cs⟩ r) :
    isIdent cs = true := isIdent_of_ident? (cut?_of_first? h)

theorem ofChar_of_isIdent {cs : List Char} (h : isIdent cs = true) :
    cs.head?.map Edge.ofChar = some .word := by
  have hw : ∀ c, isNameStart c = true → Edge.ofChar c = .word := by
    intro c hc
    have hr := isNameRest_of_isNameStart hc
    simp [Edge.ofChar, hr, isLayout_eq_false_of_isNameRest hr]
  rcases isIdent_cases h with h | ⟨n, rfl, -⟩
  · cases cs with
    | nil => cases h
    | cons c cs => simp [hw c (isName_cons.1 h).1]
  · rfl

end ErrorDerive.Lexeme
