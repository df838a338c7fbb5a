import ErrorDerive.Proofs.Lexing.Identifier
import ErrorDerive.Proofs.Quoting

/-!
# Squeezed text

A text is squeezed by putting single characters that nothing runs into, such as a space, in the
place of stretches of it, and by leaving out its end.  A token that is cut off in front of a text is
cut off in front of the squeezed one too: what comes next either is the same or does not continue
the token, and no end of a comment or of a raw string arises that was not there before.
-/

namespace ErrorDerive

theorem Edge.ofChar_of_isNameRest {c : Char} (h : isNameRest c = true) : ofChar c = .word := by
  simp [ofChar, isLayout_eq_false_of_isNameRest h, h]

/-- The second text comes from the first by squeezing it. -/
inductive Squeezes : List Char → List Char → Prop
  | nil (x : List Char) : Squeezes x []
  | keep {x y : List Char} (c : Char) (h : Squeezes x y) : Squeezes (c :: x) (c :: y)
  | fill {x y : List Char} {c : Char} (w : List Char) (hc : Edge.ofChar c ≠ .word)
      (h : Squeezes x y) : Squeezes (w ++ x) (c :: y)

namespace Squeezes

variable {x y m : List Char}

theorem append (w : List Char) (h : Squeezes x y) : Squeezes (w ++ x) (w ++ y) := by
  induction w with
  | nil => exact h
  | cons c w ih => exact .keep c ih

/-- Behind a start of the squeezed text is what squeezing makes of an end of the text. -/
theorem of_append (h : Squeezes x (m ++ y)) : ∃ u v, x = u ++ v ∧ Squeezes v y := by
  induction m generalizing x with
  | nil => exact ⟨[], x, rfl, h⟩
  | cons c m ih =>
    cases h with
    | keep _ h =>
      obtain ⟨u, v, rfl, hv⟩ := ih h
      exact ⟨c :: u, v, rfl, hv⟩
    | fill w _ h =>
      obtain ⟨u, v, rfl, hv⟩ := ih h
      exact ⟨w ++ u, v, (List.append_assoc w u v).symm, hv⟩

/-- Characters that something may run into are as they were. -/
theorem of_words (h : Squeezes x (m ++ y)) (hm : ∀ c ∈ m, Edge.ofChar c = .word) :
    ∃ v, x = m ++ v ∧ Squeezes v y := by
  induction m generalizing x with
  | nil => exact ⟨x, rfl, h⟩
  | cons c m ih =>
    obtain ⟨hc, hm⟩ := List.forall_mem_cons.1 hm
    cases h with
    | keep _ h =>
      obtain ⟨v, rfl, hv⟩ := ih h hm
      exact ⟨v, rfl, hv⟩
    | fill w hf _ => exact absurd hc hf

theorem isInfix (h : Squeezes x y) (hm : ∀ c ∈ m, Edge.ofChar c = .word) (hi : m <:+: y) :
    m <:+: x := by
  obtain ⟨s, t, rfl⟩ := hi
  rw [List.append_assoc] at h
  obtain ⟨u, v, rfl, hv⟩ := h.of_append
  obtain ⟨w, rfl, -⟩ := hv.of_words hm
  exact ⟨u, w, by rw [List.append_assoc]⟩

theorem mem_head? {c : Char} (h : Squeezes x y) (hc : Edge.ofChar c = .word) (hy : c ∈ y.head?) :
    c ∈ x.head? := by
  obtain ⟨y, rfl⟩ := List.head?_eq_some_iff.1 hy
  obtain ⟨v, rfl, -⟩ := of_words (m := [c]) h (by simpa using hc)
  rfl

theorem head?_not_isNameRest (h : Squeezes x y) (hx : ∀ c ∈ x.head?, isNameRest c = false) :
    ∀ c ∈ y.head?, isNameRest c = false := by
  intro c hc
  rcases hn : isNameRest c with _ | _
  · rfl
  · rw [← hn]
    exact hx c (h.mem_head? (Edge.ofChar_of_isNameRest hn) hc)

end Squeezes

theorem Bracketed.ofChar_closing (b : Bracketed) : ∀ c ∈ b.closing, Edge.ofChar c = .word := by
  cases b with
  | comment => exact List.forall_mem_cons.2 ⟨by decide, List.forall_mem_singleton.2 (by decide)⟩
  | raw n =>
    intro c hc
    rcases List.mem_cons.1 hc with rfl | hc
    · decide
    · rw [(List.mem_replicate.1 hc).2]
      decide

theorem Bracketed.ofChar_opening (b : Bracketed) : ∀ c ∈ b.opening, Edge.ofChar c = .word := by
  cases b with
  | comment => exact List.forall_mem_cons.2 ⟨by decide, List.forall_mem_singleton.2 (by decide)⟩
  | raw n =>
    intro c hc
    simp only [opening, List.cons_append, List.mem_cons, List.mem_append, List.mem_replicate,
      List.not_mem_nil, or_false] at hc
    rcases hc with rfl | ⟨-, rfl⟩ | rfl <;> decide

/-! ## Runs of characters -/

theorem Cut.run_eq_iff {p : Char → Bool} {cs a b : List Char} :
    run p cs = (a, b) ↔
      cs = a ++ b ∧ (∀ c ∈ a, p c = true) ∧ ∀ c ∈ b.head?, p c = false := by
  constructor
  · intro h
    cases h
    refine ⟨List.takeWhile_append_dropWhile.symm, fun c hc ↦ List.mem_takeWhile_imp hc,
      fun c hc ↦ ?_⟩
    have := List.head?_dropWhile_not p cs
    rw [Option.mem_def.1 hc] at this
    simpa using this
  · rintro ⟨rfl, ha, hb⟩
    rw [run, List.takeWhile_append_of_pos ha, List.dropWhile_append_of_pos ha]
    cases b with
    | nil => simp
    | cons c b => simp [hb c rfl]

namespace Lexeme

variable {cs a b x y text : List Char}

theorem name?_eq_some_iff :
    name? cs = some (a, b) ↔
      cs = a ++ b ∧ isName a = true ∧ ∀ c ∈ b.head?, isNameRest c = false := by
  cases cs with
  | nil => cases a <;> simp [name?, isName]
  | cons c cs =>
    rw [name?]
    constructor
    · intro h
      split at h
      · next hc =>
        obtain ⟨n, hn, rfl⟩ := Cut.behind_eq_some_iff.1 h
        obtain ⟨rfl, hn, hb⟩ := Cut.run_eq_iff.1 (Option.some.inj hn)
        exact ⟨rfl, isName_cons.2 ⟨hc, hn⟩, hb⟩
      · cases h
    · rintro ⟨h, ha, hb⟩
      cases a with
      | nil => cases ha
      | cons d a =>
        obtain ⟨rfl, hc⟩ := List.cons.inj h
        obtain ⟨hd, hs⟩ := isName_cons.1 ha
        rw [if_pos hd, Cut.run_eq_iff.2 ⟨hc, hs, hb⟩]
        rfl

theorem number?_squeeze (h : number? (text ++ x) = some (text, x)) (hs : Squeezes x y) :
    number? (text ++ y) = some (text, y) := by
  cases text with
  | nil => exact absurd rfl (number?_splits _ _ _ h).2
  | cons c text =>
    rw [List.cons_append, number?] at h ⊢
    split at h
    · next hc =>
      obtain ⟨n, hn, e⟩ := Cut.behind_eq_some_iff.1 h
      obtain ⟨-, hn, hx⟩ := Cut.run_eq_iff.1 (Option.some.inj hn)
      obtain ⟨-, rfl⟩ := List.cons.inj e
      rw [if_pos hc, Cut.run_eq_iff.2 ⟨rfl, hn, hs.head?_not_isNameRest hx⟩]
      rfl
    · cases h

theorem name?_squeeze (h : name? (text ++ x) = some (text, x)) (hs : Squeezes x y) :
    name? (text ++ y) = some (text, y) := by
  obtain ⟨-, hn, hx⟩ := name?_eq_some_iff.1 h
  exact name?_eq_some_iff.2 ⟨rfl, hn, hs.head?_not_isNameRest hx⟩

/-! ## Lifetimes and names -/

/-- A quote and the first character of a name make a character only with another quote. -/
theorem character?_name {c : Char} (hc : isNameStart c = true) :
    character? ('\'' :: c :: cs) = none ↔ cs.head? ≠ some '\'' := by
  have hs : c ≠ '\\' ∧ c ≠ '\'' ∧ c ≠ '\n' := by
    refine ⟨?_, ?_, ?_⟩ <;> (rintro rfl; exact absurd hc (by decide))
  rcases cs with _ | ⟨d, cs⟩
  · simp [character?, hs, quote?, Cut.behind]
  · by_cases hd : d = '\''
    · simp [character?, hs, quote?, Cut.behind, hd]
    · simp [character?, hs, quote?, Cut.behind, hd]

theorem leads_lifetime_squeeze (h : Leads ⟨.token (.leaf .lifetime), text⟩ x)
    (hs : Squeezes x y) : Leads ⟨.token (.leaf .lifetime), text⟩ y := by
  obtain ⟨c, n, ht, hq⟩ := h.exists_cons
  obtain rfl : c = '\'' := by simpa [LexemeKind.starts] using hq
  simp only at ht
  subst ht
  rw [leads_quote_iff rfl] at h ⊢
  obtain ⟨-, h⟩ | ⟨hc, hl, -⟩ := h
  · cases h
  · simp only [List.cons_append, lifetime?] at hl hc ⊢
    obtain ⟨m, hm, e⟩ := Cut.behind_eq_some_iff.1 hl
    obtain ⟨-, rfl⟩ := List.cons.inj e
    refine .inr ⟨?_, by rw [name?_squeeze hm hs]; rfl, trivial⟩
    obtain ⟨-, hn, -⟩ := name?_eq_some_iff.1 hm
    cases n with
    | nil => cases hn
    | cons d n =>
      obtain ⟨hd, -⟩ := isName_cons.1 hn
      rw [List.cons_append, character?_name hd] at hc ⊢
      cases n with
      | nil => exact fun hy ↦ hc (hs.mem_head? (by decide) hy)
      | cons e n => exact hc

theorem name?_eq_none_iff {c : Char} : name? (c :: cs) = none ↔ isNameStart c = false := by
  simp [name?, Cut.behind]

/-- A name that a text with the mark of raw names starts with is the letter of that mark. -/
theorem eq_r_of_isName (ha : isName a = true) (h : a ++ b = 'r' :: '#' :: cs) :
    a = ['r'] ∧ b = '#' :: cs := by
  rcases a with _ | ⟨c, _ | ⟨d, a⟩⟩
  · cases ha
  · simpa using h
  · have hd : d = '#' := by simp_all
    exact absurd (isNameRest_of_isName ha (c := d) (by simp)) (by rw [hd]; decide)

/-- An identifier ends where a name does, and a single `r` is not the mark of a raw name. -/
theorem ident?_eq_some_iff :
    ident? cs = some (a, b) ↔
      cs = a ++ b ∧ isIdent a = true ∧ (∀ c ∈ b.head?, isNameRest c = false) ∧
        (a = ['r'] → ∀ c ds, b = '#' :: c :: ds → isNameStart c = false) := by
  unfold ident?
  split
  · next cs =>
    rw [Option.or_eq_some_iff, Cut.behind_eq_some_iff]
    constructor
    · rintro (⟨n, hn, rfl⟩ | ⟨hn, h⟩)
      · obtain ⟨rfl, hn, hb⟩ := name?_eq_some_iff.1 hn
        exact ⟨rfl, hn, hb, by simp⟩
      · obtain ⟨e, ha, hb⟩ := name?_eq_some_iff.1 h
        obtain ⟨rfl, rfl⟩ := eq_r_of_isName ha e.symm
        refine ⟨rfl, rfl, hb, ?_⟩
        rintro - c ds e
        cases e
        simpa [Cut.behind, name?_eq_none_iff] using hn
    · rintro ⟨e, ha, hb, hr⟩
      rcases isIdent_cases ha with ha | ⟨n, rfl, hn⟩
      · obtain ⟨rfl, rfl⟩ := eq_r_of_isName ha e.symm
        refine .inr ⟨?_, name?_eq_some_iff.2 ⟨rfl, ha, hb⟩⟩
        cases cs with
        | nil => rfl
        | cons c cs => simp [Cut.behind, name?_eq_none_iff, hr rfl c cs rfl]
      · have e : cs = n ++ b := by simpa using e
        exact .inl ⟨n, name?_eq_some_iff.2 ⟨e, hn, hb⟩, rfl⟩
  · next hne =>
    rw [name?_eq_some_iff]
    constructor
    · rintro ⟨rfl, ha, hb⟩
      refine ⟨rfl, isIdent_of_isName ha, hb, ?_⟩
      rintro rfl c ds rfl
      exact absurd rfl (hne (c :: ds))
    · rintro ⟨rfl, ha, hb, -⟩
      rcases isIdent_cases ha with ha | ⟨n, rfl, hn⟩
      · exact ⟨rfl, ha, hb⟩
      · exact absurd rfl (hne (n ++ b))

theorem rawString?_eq_none_iff :
    rawString? cs = none ↔
      ∀ n r, cs = (Bracketed.raw n).opening ++ r → ¬ (Bracketed.raw n).closing <:+: r := by
  constructor
  · rintro h n r rfl
    rw [rawString?_raw] at h
    exact through_eq_none_of_behind h (by simp [Bracketed.closing])
  · intro h
    by_cases hr : ∃ ds, cs = 'r' :: ds
    · obtain ⟨ds, rfl⟩ := hr
      rw [← List.append_nil ('r' :: ds)]
      refine rawString?_append_none (by simp) fun n hn ↦ ?_
      obtain ⟨r, hr⟩ := hn
      rw [← hr, List.drop_left, List.append_nil]
      exact h n r hr.symm
    · unfold rawString?
      split
      · next ds => exact absurd ⟨_, rfl⟩ hr
      · next ds => exact absurd ⟨_, rfl⟩ hr
      · next ds => exact absurd ⟨_, rfl⟩ hr
      · rfl

theorem rawString?_squeeze (h : rawString? x = none) (hs : Squeezes x y) : rawString? y = none := by
  rw [rawString?_eq_none_iff] at h ⊢
  rintro n r rfl hc
  obtain ⟨v, rfl, hv⟩ := hs.of_words (Bracketed.ofChar_opening _)
  exact h n v rfl (hv.isInfix (Bracketed.ofChar_closing _) hc)

theorem leads_ident_squeeze (h : Leads ⟨.token (.leaf .ident), text⟩ x) (hs : Squeezes x y) :
    Leads ⟨.token (.leaf .ident), text⟩ y := by
  obtain ⟨c, n, ht, hc⟩ := h.exists_cons
  simp only at ht
  obtain ⟨-, hi, hx, hr⟩ := ident?_eq_some_iff.1 (cut?_of_first? h)
  have hy : ident? (text ++ y) = some (text, y) := by
    refine ident?_eq_some_iff.2 ⟨rfl, hi, hs.head?_not_isNameRest hx, ?_⟩
    rintro he d ds rfl
    obtain ⟨v, rfl, hv⟩ := hs.of_words (m := ['#']) (List.forall_mem_singleton.2 (by decide))
    rcases hd : isNameStart d with _ | _
    · rfl
    · have hw := Edge.ofChar_of_isNameRest (isNameRest_of_isNameStart hd)
      obtain ⟨w, rfl, -⟩ := hv.of_words (m := [d]) (by simpa using hw)
      rw [← hd]
      exact hr he d w rfl
  by_cases hcr : c = 'r'
  · subst hcr
    rw [leads_r_iff ht] at h ⊢
    obtain ⟨-, h⟩ | ⟨h, -⟩ := h
    · cases h
    · exact .inr ⟨rawString?_squeeze h (hs.append text), hy, rfl⟩
  · rw [leads_iff_of_sole ht (LexemeKind.sole_ident hc hcr)]
    exact hy

/-! ## Slashes -/

/-- A slash is a mark exactly if it starts no comment. -/
theorem leads_slash_mark_iff :
    Leads ⟨.token (.leaf .punct), ['/']⟩ x ↔
      x.head? ≠ some '/' ∧ ∀ r, x = '*' :: r → ¬ ['*', '/'] <:+: r := by
  rw [leads_slash_iff (rfl : ['/'] = '/' :: [])]
  constructor
  · rintro (⟨-, h⟩ | ⟨-, ⟨-, h⟩ | ⟨hb, ⟨-, h⟩ | ⟨hl, -⟩⟩⟩)
    · cases h
    · cases h
    · cases h
    · refine ⟨fun hx ↦ ?_, ?_⟩
      · obtain ⟨r, rfl⟩ := List.head?_eq_some_iff.1 hx
        cases hl
      · rintro r rfl
        exact through_eq_none_of_behind hb (by simp)
  · rintro ⟨hx, hr⟩
    have h : doc? ('/' :: x) = none ∧ blockComment? ('/' :: x) = none ∧
        lineComment? ('/' :: x) = none := by
      rcases x with _ | ⟨c, r⟩
      · decide
      · by_cases hc : c = '*'
        · subst hc
          have hn : doc? ['/', '*'] = none ∧ blockComment? ['/', '*'] = none ∧
              lineComment? ['/', '*'] = none := by decide
          refine comment?_append hn.1 hn.2.1 hn.2.2 (by simp) ?_
          rintro z hz
          cases hz
          exact hr r rfl
        · have hs : c ≠ '/' := by simpa using hx
          have hn : doc? ['/'] = none ∧ blockComment? ['/'] = none ∧
              lineComment? ['/'] = none := by decide
          exact comment?_append hn.1 hn.2.1 hn.2.2 (by simp [hc, hs]) (by simp)
    simp [h]

theorem leads_slash_squeeze (h : Leads ⟨.token (.leaf .punct), ['/']⟩ x) (hs : Squeezes x y) :
    Leads ⟨.token (.leaf .punct), ['/']⟩ y := by
  rw [leads_slash_mark_iff] at h ⊢
  obtain ⟨hx, hc⟩ := h
  refine ⟨fun hy ↦ hx (hs.mem_head? (by decide) hy), ?_⟩
  rintro r rfl hi
  obtain ⟨v, rfl, hv⟩ := hs.of_words (m := ['*']) (List.forall_mem_singleton.2 (by decide))
  exact hc v rfl (hv.isInfix Bracketed.comment.ofChar_closing hi)

/-! ## Lexemes that say where they end -/

theorem through_self {mark : List Char} (h : Cut.through mark cs = some (a, b)) (hm : mark ≠ []) :
    Cut.through mark a = some (a, []) := by
  have hc := Cut.append_of_through h
  rcases ht : Cut.through mark a with _ | ⟨a', b'⟩
  · exact absurd (Cut.suffix_of_through h).isInfix ((Cut.through_eq_none_iff hm).1 ht)
  · have ht := Cut.through_append ht b
    rw [hc, h] at ht
    simp only [Option.some.injEq, Prod.mk.injEq, List.self_eq_append_left] at ht
    rw [← ht.1, ht.2]

theorem rawString?_self (h : rawString? cs = some (a, b)) : rawString? a = some (a, []) := by
  unfold rawString? at h
  split at h
  · obtain ⟨z, hz, rfl⟩ := Cut.behind_eq_some_iff.1 h
    simp [rawString?, through_self hz, Cut.behind]
  · obtain ⟨z, hz, rfl⟩ := Cut.behind_eq_some_iff.1 h
    simp [rawString?, through_self hz, Cut.behind]
  · obtain ⟨z, hz, rfl⟩ := Cut.behind_eq_some_iff.1 h
    simp [rawString?, through_self hz, Cut.behind]
  · cases h

theorem stringRest?_self (h : stringRest? cs = some (a, b)) : stringRest? a = some (a, []) := by
  fun_induction stringRest? cs generalizing a b with
  | case1 => cases h
  | case2 => cases h; rfl
  | case3 => cases h
  | case4 => cases h; rfl
  | case5 d cs hq ih =>
    obtain ⟨z, hz, rfl⟩ := Cut.behind_eq_some_iff.1 h
    simp [stringRest?_backslash, ih hz, Cut.behind]
  | case6 c d cs hq hb ih =>
    obtain ⟨z, hz, rfl⟩ := Cut.behind_eq_some_iff.1 h
    simp [stringRest?_of_ne hq hb, ih hz, Cut.behind]

theorem string?_self (h : string? cs = some (a, b)) : string? a = some (a, []) := by
  unfold string? at h
  split at h
  · obtain ⟨z, hz, rfl⟩ := Cut.behind_eq_some_iff.1 h
    simp [string?, stringRest?_self hz, Cut.behind]
  · cases h

theorem charEscape?_self (h : charEscape? cs = some (a, b)) : charEscape? a = some (a, []) := by
  unfold charEscape? at h
  split at h
  · split at h
    · next hx => cases h; simp [charEscape?, hx]
    · cases h
  · next cs =>
    split at h
    · next rest hd =>
      split at h
      · next hl =>
        cases h
        have hrun : Cut.run Text.isHexDigit (cs.takeWhile Text.isHexDigit ++ ['}']) = _ :=
          Cut.run_eq_iff.2 ⟨rfl, fun c hc ↦ List.mem_takeWhile_imp hc, by simp; decide⟩
        simp only [Cut.run, Prod.mk.injEq] at hrun
        simp [charEscape?, hrun, hl]
      · cases h
    · cases h
  · next c cs hx hu =>
    split at h
    · next hc =>
      cases h
      simp [charEscape?, hc]
    · cases h
  · cases h

theorem character?_self (h : character? cs = some (a, b)) : character? a = some (a, []) := by
  have hq : ∀ {r z : List Char}, quote? r = some (z, b) → z = ['\''] := by
    intro r z hz
    unfold quote? at hz
    split at hz <;> cases hz
    rfl
  unfold character? at h
  split at h
  · split at h
    · next e rest he =>
      obtain ⟨z, hz, rfl⟩ := Cut.behind_eq_some_iff.1 h
      obtain rfl := hq hz
      simp [character?, charEscape?_append (charEscape?_self he), quote?, Cut.behind]
    · cases h
  · split at h
    · cases h
    · next hc =>
      obtain ⟨z, hz, rfl⟩ := Cut.behind_eq_some_iff.1 h
      obtain rfl := hq hz
      simp [character?, hc, quote?, Cut.behind]
  · cases h

theorem single?_squeeze {p : Char → Bool} (h : single? p (text ++ x) = some (text, x))
    (y : List Char) : single? p (text ++ y) = some (text, y) := by
  cases text with
  | nil => exact absurd rfl (single?_splits _ _ _ _ h).2
  | cons c text =>
    rw [List.cons_append, single?] at h ⊢
    split at h
    · next hc =>
      have ht : text = [] := by simpa using congrArg (fun r ↦ r.map Prod.fst) h
      rw [if_pos hc, ht]
      rfl
    · cases h

theorem leads_punct_squeeze (h : Leads ⟨.token (.leaf .punct), text⟩ x) (hs : Squeezes x y) :
    Leads ⟨.token (.leaf .punct), text⟩ y := by
  obtain ⟨c, cs, ht, hc⟩ := h.exists_cons
  simp only at ht
  by_cases hcs : c = '/'
  · subst hcs
    obtain rfl : text = ['/'] := by
      rw [leads_slash_iff ht] at h
      simp_all
    exact leads_slash_squeeze h hs
  · rw [leads_iff_of_sole ht (LexemeKind.sole_punct hc hcs)]
    exact single?_squeeze (cut?_of_first? h) y

/-- A token other than documentation is cut off in front of the squeezed text too. -/
theorem Leads.squeeze {k : TokenKind} (h : Leads ⟨.token k, text⟩ x) (hs : Squeezes x y)
    (hd : k ≠ .leaf .doc) : Leads ⟨.token k, text⟩ y := by
  obtain ⟨c, cs, ht, hc⟩ := h.exists_cons
  have hk := cut?_of_first? h
  simp only at ht
  match k with
  | .leaf .doc => exact absurd rfl hd
  | .leaf (.literal .rawString) =>
    obtain rfl : c = 'r' := by simpa [LexemeKind.starts] using hc
    simp [leads_r_iff ht, rawString?_append (rawString?_self hk)]
  | .leaf (.literal .string) =>
    obtain rfl : c = '"' := by simpa [LexemeKind.starts] using hc
    rw [leads_iff_of_sole ht LexemeKind.sole_string]
    exact string?_append (string?_self hk) y
  | .leaf (.literal .character) =>
    obtain rfl : c = '\'' := by simpa [LexemeKind.starts] using hc
    simp [leads_quote_iff ht, character?_append (character?_self hk)]
  | .leaf (.literal .number) =>
    rw [leads_iff_of_sole ht (LexemeKind.sole_number hc)]
    exact number?_squeeze hk hs
  | .leaf .lifetime => exact leads_lifetime_squeeze h hs
  | .leaf .ident => exact leads_ident_squeeze h hs
  | .leaf .punct => exact leads_punct_squeeze h hs
  | .opener d =>
    obtain rfl : c = d.opener := by simpa [LexemeKind.starts] using hc
    rw [leads_iff_of_sole ht (LexemeKind.sole_opener d)]
    exact single?_squeeze hk y
  | .closer d =>
    obtain rfl : c = d.closer := by simpa [LexemeKind.starts] using hc
    rw [leads_iff_of_sole ht (LexemeKind.sole_closer d)]
    exact single?_squeeze hk y

end Lexeme

end ErrorDerive
