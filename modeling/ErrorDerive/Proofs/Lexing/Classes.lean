import ErrorDerive.Token.Lexeme

/-!
# Classes of lexemes

A class is tried only on texts that start with one of its characters, and all but three characters
start lexemes of one class.  A lexeme that is cut off a text is cut off a longer text in the same
way, provided that the longer text does not continue it.
-/

namespace ErrorDerive

/-! ## Finding a mark -/

namespace Cut

theorem suffix_of_through {mark cs a b : List Char} (h : through mark cs = some (a, b)) :
    mark <:+ a := by
  induction cs generalizing a b with
  | nil => cases h
  | cons c cs ih =>
    rw [through] at h
    split at h
    · cases h; exact List.suffix_rfl
    · obtain ⟨⟨x, y⟩, hx, hy⟩ := Option.map_eq_some_iff.1 h
      cases hy
      exact (ih hx).trans (List.suffix_append _ _)

theorem length_le_of_through {mark cs a b : List Char} (h : through mark cs = some (a, b)) :
    mark.length ≤ cs.length := by
  have h₁ := (suffix_of_through h).length_le
  have h₂ := congrArg List.length (append_of_through h)
  simp only [List.length_append] at h₂
  omega

/-- A mark that is found is found at the same place in a longer text. -/
theorem through_append {mark cs a b : List Char} (h : through mark cs = some (a, b))
    (r : List Char) : through mark (cs ++ r) = some (a, b ++ r) := by
  induction cs generalizing a b with
  | nil => cases h
  | cons c cs ih =>
    rw [through] at h
    rw [List.cons_append, through]
    split at h
    · next hp =>
      have hp := List.isPrefixOf_iff_prefix.1 hp
      have hp' : mark <+: c :: (cs ++ r) := hp.trans (List.prefix_append (c :: cs) r)
      rw [if_pos (List.isPrefixOf_iff_prefix.2 hp')]
      cases h
      rw [← List.cons_append, List.drop_append_of_le_length hp.length_le]
    · next hp =>
      obtain ⟨⟨x, y⟩, hx, hy⟩ := Option.map_eq_some_iff.1 h
      cases hy
      have hlen := length_le_of_through hx
      have hp' : ¬ mark <+: c :: (cs ++ r) := by
        intro hm
        refine hp (List.isPrefixOf_iff_prefix.2 ?_)
        exact List.prefix_of_prefix_length_le hm (List.prefix_append (c :: cs) r)
          (by simp only [List.length_cons]; omega)
      rw [if_neg fun h ↦ hp' (List.isPrefixOf_iff_prefix.1 h), ih hx]
      rfl

theorem through_eq_none_iff {mark cs : List Char} (hm : mark ≠ []) :
    through mark cs = none ↔ ¬ mark <:+: cs := by
  induction cs with
  | nil => simpa [through] using hm
  | cons c cs ih =>
    rw [through, List.infix_cons_iff]
    split
    · next hp => simp [List.isPrefixOf_iff_prefix.1 hp]
    · next hp =>
      have hp : ¬ mark <+: c :: cs := fun h ↦ hp (List.isPrefixOf_iff_prefix.2 h)
      simp [behind, ih, hp]

/-- A run goes on in front of a text that does not continue it. -/
theorem run_append_of_head {p : Char → Bool} {cs r : List Char}
    (h : cs.dropWhile p = [] → ∀ c ∈ r.head?, p c = false) :
    run p (cs ++ r) = ((run p cs).1, (run p cs).2 ++ r) := by
  induction cs with
  | nil =>
    cases r with
    | nil => rfl
    | cons d r => simp [run, h rfl d (by simp)]
  | cons c cs ih =>
    by_cases hc : p c = true
    · have ih := ih (by simpa [List.dropWhile_cons, hc] using h)
      simp only [run, List.cons_append, List.takeWhile_cons, List.dropWhile_cons, hc,
        if_true] at ih ⊢
      grind
    · simp [run, hc]

end Cut

/-! ## The class of a lexeme and its first character -/

namespace LexemeKind

/-- Whether lexemes of a class may start with a character. -/
def starts : LexemeKind → Char → Bool
  | .trivia .blockComment | .trivia .lineComment | .token (.leaf .doc) => (· == '/')
  | .trivia .blank => isLayout
  | .token (.leaf (.literal .rawString)) => (· == 'r')
  | .token (.leaf (.literal .string)) => (· == '"')
  | .token (.leaf (.literal .character)) | .token (.leaf .lifetime) => (· == '\'')
  | .token (.leaf (.literal .number)) => Char.isDigit
  | .token (.leaf .ident) => isNameStart
  | .token (.leaf .punct) => isMark
  | .token (.opener d) => (· == d.opener)
  | .token (.closer d) => (· == d.closer)

/-- A lexeme of a kind starts with a character that starts this kind. -/
theorem starts_of_cut? {k : LexemeKind} {c : Char} {cs : List Char} {r : Cut}
    (h : k.cut? (c :: cs) = some r) : k.starts c = true := by
  match k with
  | .trivia .blockComment =>
    simp only [cut?] at h; unfold Lexeme.blockComment? at h; split at h <;> simp_all [starts]
  | .trivia .lineComment =>
    simp only [cut?] at h; unfold Lexeme.lineComment? at h; split at h <;> simp_all [starts]
  | .trivia .blank => simp only [cut?, Lexeme.blank?] at h; simp_all [starts]
  | .token (.leaf .doc) =>
    simp only [cut?] at h; unfold Lexeme.doc? at h; split at h <;> simp_all [starts]
  | .token (.leaf (.literal .rawString)) =>
    simp only [cut?] at h; unfold Lexeme.rawString? at h; split at h <;> simp_all [starts]
  | .token (.leaf (.literal .string)) =>
    simp only [cut?] at h; unfold Lexeme.string? at h; split at h <;> simp_all [starts]
  | .token (.leaf (.literal .character)) =>
    simp only [cut?] at h; unfold Lexeme.character? at h; split at h <;> simp_all [starts]
  | .token (.leaf (.literal .number)) => simp only [cut?, Lexeme.number?] at h; simp_all [starts]
  | .token (.leaf .lifetime) =>
    simp only [cut?] at h; unfold Lexeme.lifetime? at h; split at h <;> simp_all [starts]
  | .token (.leaf .ident) =>
    simp only [cut?] at h; unfold Lexeme.ident? at h
    split at h
    · simp_all [starts]; decide
    · simp only [Lexeme.name?] at h; simp_all [starts]
  | .token (.leaf .punct) => simp only [cut?, Lexeme.single?] at h; simp_all [starts]
  | .token (.opener d) => simp only [cut?, Lexeme.single?] at h; simp_all [starts]
  | .token (.closer d) => simp only [cut?, Lexeme.single?] at h; simp_all [starts]

end LexemeKind

namespace Lexeme

/-- What a class makes of a text. -/
def ofKind (cs : List Char) (k : LexemeKind) : Option (Lexeme × List Char) :=
  (k.cut? cs).map fun r ↦ (⟨k, r.1⟩, r.2)

/-- Only the classes that may start with the first character matter. -/
theorem first?_cons (c : Char) (cs : List Char) :
    first? (c :: cs) =
      (LexemeKind.order.filter (·.starts c)).findSome? (ofKind (c :: cs)) := by
  have h : ∀ k : LexemeKind, k.starts c = false → ofKind (c :: cs) k = none := by
    intro k hk
    rw [ofKind, Option.map_eq_none_iff]
    rcases hc : k.cut? (c :: cs) with _ | r
    · rfl
    · exact absurd (LexemeKind.starts_of_cut? hc) (by simp [hk])
  change LexemeKind.order.findSome? (ofKind (c :: cs)) = _
  induction LexemeKind.order with
  | nil => rfl
  | cons k ks ih =>
    rcases hk : k.starts c with _ | _
    · rw [List.filter_cons, hk, List.findSome?_cons, h k hk, ih]
      rfl
    · rw [List.filter_cons, hk, List.findSome?_cons, ih, if_pos rfl, List.findSome?_cons]

/-- A character that only one class starts with decides the class. -/
theorem first?_of_sole {c : Char} {k : LexemeKind}
    (h : LexemeKind.order.filter (·.starts c) = [k]) (cs : List Char) :
    first? (c :: cs) = ofKind (c :: cs) k := by
  rw [first?_cons, h, List.findSome?_cons]
  cases ofKind (c :: cs) k <;> rfl

theorem first?_slash (cs : List Char) :
    first? ('/' :: cs) =
      (ofKind ('/' :: cs) (.token (.leaf .doc))).or
        ((ofKind ('/' :: cs) (.trivia .blockComment)).or
          ((ofKind ('/' :: cs) (.trivia .lineComment)).or
            (some (⟨.token (.leaf .punct), ['/']⟩, cs)))) := by
  have h : LexemeKind.order.filter (·.starts '/') =
      [.token (.leaf .doc), .trivia .blockComment, .trivia .lineComment,
        .token (.leaf .punct)] := by decide
  have hp : ofKind ('/' :: cs) (.token (.leaf .punct)) =
      some (⟨.token (.leaf .punct), ['/']⟩, cs) := rfl
  rw [first?_cons, h]
  simp only [List.findSome?_cons, hp]
  cases ofKind ('/' :: cs) (.token (.leaf .doc)) <;>
    cases ofKind ('/' :: cs) (.trivia .blockComment) <;>
      cases ofKind ('/' :: cs) (.trivia .lineComment) <;> rfl

theorem first?_r (cs : List Char) :
    first? ('r' :: cs) =
      (ofKind ('r' :: cs) (.token (.leaf (.literal .rawString)))).or
        (ofKind ('r' :: cs) (.token (.leaf .ident))) := by
  have h : LexemeKind.order.filter (·.starts 'r') =
      [.token (.leaf (.literal .rawString)), .token (.leaf .ident)] := by decide
  rw [first?_cons, h]
  simp only [List.findSome?_cons, List.findSome?_nil]
  cases ofKind ('r' :: cs) (.token (.leaf (.literal .rawString))) <;>
    cases ofKind ('r' :: cs) (.token (.leaf .ident)) <;> rfl

theorem first?_quote (cs : List Char) :
    first? ('\'' :: cs) =
      (ofKind ('\'' :: cs) (.token (.leaf (.literal .character)))).or
        (ofKind ('\'' :: cs) (.token (.leaf .lifetime))) := by
  have h : LexemeKind.order.filter (·.starts '\'') =
      [.token (.leaf (.literal .character)), .token (.leaf .lifetime)] := by decide
  rw [first?_cons, h]
  simp only [List.findSome?_cons, List.findSome?_nil]
  cases ofKind ('\'' :: cs) (.token (.leaf (.literal .character))) <;>
    cases ofKind ('\'' :: cs) (.token (.leaf .lifetime)) <;> rfl

end Lexeme

/-! ## Classes of characters are disjoint -/

theorem isNameRest_of_isNameStart {c : Char} (h : isNameStart c = true) : isNameRest c = true := by
  simp only [isNameStart, isNameRest, Char.isAlphanum, Bool.or_eq_true] at h ⊢
  rcases h with h | h
  · exact .inl (.inl h)
  · exact .inr h

theorem toNat_of_isNameStart {c : Char} (h : isNameStart c = true) : 'A'.toNat ≤ c.toNat := by
  rcases Bool.or_eq_true_iff.1 h with h | h
  · rcases Bool.or_eq_true_iff.1 h with h | h
    · exact (of_decide_eq_true h).1
    · have ha : 'a'.toNat ≤ c.toNat := of_decide_eq_true (Bool.and_eq_true_iff.1 h).1
      exact Nat.le_trans (by decide) ha
  · rw [beq_iff_eq.1 h]
    decide

theorem isDigit_eq_false_of_isNameStart {c : Char} (h : isNameStart c = true) :
    c.isDigit = false := by
  rcases hd : c.isDigit with _ | _
  · rfl
  · have h₁ := (Char.isDigit_iff_toNat.1 hd).2
    have h₂ := toNat_of_isNameStart h
    have h₃ : '9'.toNat < 'A'.toNat := by decide
    omega

theorem isLayout_iff {c : Char} :
    isLayout c = true ↔ c ∈ [' ', '\t', '\x0c', '\r', '\n'] := by
  simp [isLayout, or_assoc]

theorem isLayout_eq_false_of_isNameRest {c : Char} (h : isNameRest c = true) :
    isLayout c = false := by
  rcases hl : isLayout c with _ | _
  · rfl
  · have hn : [' ', '\t', '\x0c', '\r', '\n'].all (!isNameRest ·) = true := by decide
    have hc := List.all_eq_true.1 hn c (isLayout_iff.1 hl)
    simp [h] at hc

theorem isMark_eq_false_of_isNameRest {c : Char} (h : isNameRest c = true) :
    isMark c = false := by
  rcases hm : isMark c with _ | _
  · rfl
  · have hn : marks.all (!isNameRest ·) = true := by decide
    have hc := List.all_eq_true.1 hn c (by simpa [isMark] using hm)
    simp [h] at hc

theorem isNameRest_of_isDigit {c : Char} (h : c.isDigit = true) : isNameRest c = true := by
  simp [isNameRest, Char.isAlphanum, h]

namespace LexemeKind

/-- Of the characters of names, those that start a name start nothing else, raw strings apart, and
the others are digits. -/
theorem starts_eq_of_isNameRest {c : Char} (h : isNameRest c = true) (hr : c ≠ 'r')
    (k : LexemeKind) : k.starts c = (k = .token (.leaf .ident) ∧ isNameStart c = true ∨
      k = .token (.leaf (.literal .number)) ∧ c.isDigit = true) := by
  have hne : ∀ {d : Char}, isNameRest d = false → c ≠ d := by
    rintro d hd rfl
    simp_all
  match k with
  | .trivia .blockComment => simpa [starts] using hne (by decide)
  | .trivia .lineComment => simpa [starts] using hne (by decide)
  | .trivia .blank => simp [starts, isLayout_eq_false_of_isNameRest h]
  | .token (.leaf .doc) => simpa [starts] using hne (by decide)
  | .token (.leaf (.literal .rawString)) => simp [starts, hr]
  | .token (.leaf (.literal .string)) => simpa [starts] using hne (by decide)
  | .token (.leaf (.literal .character)) => simpa [starts] using hne (by decide)
  | .token (.leaf (.literal .number)) => simp [starts]
  | .token (.leaf .lifetime) => simpa [starts] using hne (by decide)
  | .token (.leaf .ident) => simp [starts]
  | .token (.leaf .punct) => simp [starts, isMark_eq_false_of_isNameRest h]
  | .token (.opener d) => simpa [starts] using hne (by cases d <;> decide)
  | .token (.closer d) => simpa [starts] using hne (by cases d <;> decide)

theorem sole_ident {c : Char} (h : isNameStart c = true) (hr : c ≠ 'r') :
    order.filter (·.starts c) = [.token (.leaf .ident)] := by
  have hd := isDigit_eq_false_of_isNameStart h
  simp [order, starts_eq_of_isNameRest (isNameRest_of_isNameStart h) hr, h, hd]

theorem sole_number {c : Char} (h : c.isDigit = true) :
    order.filter (·.starts c) = [.token (.leaf (.literal .number))] := by
  have hr : c ≠ 'r' := by
    rintro rfl
    exact absurd h (by decide)
  have hs : isNameStart c = false := by
    rcases hs : isNameStart c with _ | _
    · rfl
    · simp [isDigit_eq_false_of_isNameStart hs] at h
  simp [order, starts_eq_of_isNameRest (isNameRest_of_isDigit h) hr, h, hs]

theorem sole_blank {c : Char} (h : isLayout c = true) :
    order.filter (·.starts c) = [.trivia .blank] := by
  have hs : [' ', '\t', '\x0c', '\r', '\n'].all
      (fun d ↦ order.filter (·.starts d) = [.trivia .blank]) = true := by decide
  exact of_decide_eq_true (List.all_eq_true.1 hs c (isLayout_iff.1 h))

theorem sole_punct {c : Char} (h : isMark c = true) (hs : c ≠ '/') :
    order.filter (·.starts c) = [.token (.leaf .punct)] := by
  have hm : marks.all
      (fun d ↦ d ≠ '/' → order.filter (·.starts d) = [.token (.leaf .punct)]) = true := by decide
  exact of_decide_eq_true (List.all_eq_true.1 hm c (by simpa [isMark] using h)) hs

theorem sole_string : order.filter (·.starts '"') = [.token (.leaf (.literal .string))] := by
  decide

theorem sole_opener (d : Delimiter) :
    order.filter (·.starts d.opener) = [.token (.opener d)] := by
  cases d <;> decide

theorem sole_closer (d : Delimiter) :
    order.filter (·.starts d.closer) = [.token (.closer d)] := by
  cases d <;> decide

end LexemeKind

/-! ## Cutting a longer text -/

namespace Cut

theorem behind_eq_some_iff {f a b : List Char} {r : Option Cut} :
    behind f r = some (a, b) ↔ ∃ x, r = some (x, b) ∧ a = f ++ x := by
  constructor
  · intro h
    obtain ⟨⟨x, y⟩, hx, hy⟩ := Option.map_eq_some_iff.1 h
    cases hy
    exact ⟨x, hx, rfl⟩
  · rintro ⟨x, rfl, rfl⟩
    rfl

/-- A character of one class and a run of another. -/
theorem headed_append {p q : Char → Bool} {c : Char} {cs a b r : List Char}
    (h : (if p c then behind [c] (some (run q cs)) else none) = some (a, b))
    (hr : b = [] → ∀ d ∈ r.head?, q d = false) :
    (if p c then behind [c] (some (run q (cs ++ r))) else none) = some (a, b ++ r) := by
  split at h
  · next hp =>
    rw [if_pos hp]
    obtain ⟨x, hx, rfl⟩ := behind_eq_some_iff.1 h
    cases hx
    rw [run_append_of_head hr]
    rfl
  · cases h

end Cut

namespace Lexeme

theorem name?_append {cs a b r : List Char} (h : name? cs = some (a, b))
    (hr : b = [] → ∀ d ∈ r.head?, isNameRest d = false) : name? (cs ++ r) = some (a, b ++ r) := by
  cases cs with
  | nil => cases h
  | cons c cs => exact Cut.headed_append h hr

theorem number?_append {cs a b r : List Char} (h : number? cs = some (a, b))
    (hr : b = [] → ∀ d ∈ r.head?, isNameRest d = false) :
    number? (cs ++ r) = some (a, b ++ r) := by
  cases cs with
  | nil => cases h
  | cons c cs => exact Cut.headed_append h hr

theorem blank?_append {cs a b r : List Char} (h : blank? cs = some (a, b))
    (hr : b = [] → ∀ d ∈ r.head?, isLayout d = false) : blank? (cs ++ r) = some (a, b ++ r) := by
  cases cs with
  | nil => cases h
  | cons c cs => exact Cut.headed_append h hr

theorem single?_append {p : Char → Bool} {cs a b : List Char} (h : single? p cs = some (a, b))
    (r : List Char) : single? p (cs ++ r) = some (a, b ++ r) := by
  cases cs with
  | nil => cases h
  | cons c cs =>
    simp only [single?, List.cons_append] at h ⊢
    split at h
    · next hp => cases h; rw [if_pos hp]
    · cases h

theorem behind_through_append {f mark cs a b : List Char}
    (h : Cut.behind f (Cut.through mark cs) = some (a, b)) (r : List Char) :
    Cut.behind f (Cut.through mark (cs ++ r)) = some (a, b ++ r) := by
  obtain ⟨x, hx, rfl⟩ := Cut.behind_eq_some_iff.1 h
  rw [Cut.through_append hx]
  rfl

theorem behind_line_append {f cs a b r : List Char}
    (h : Cut.behind f (some (Cut.run (· ≠ '\n') cs)) = some (a, b))
    (hr : b = [] → ∀ d ∈ r.head?, d = '\n') :
    Cut.behind f (some (Cut.run (· ≠ '\n') (cs ++ r))) = some (a, b ++ r) := by
  obtain ⟨x, hx, rfl⟩ := Cut.behind_eq_some_iff.1 h
  cases hx
  rw [Cut.run_append_of_head fun hb d hd ↦ by simpa using hr hb d hd]
  rfl

theorem blockComment?_append {cs a b : List Char} (h : blockComment? cs = some (a, b))
    (r : List Char) : blockComment? (cs ++ r) = some (a, b ++ r) := by
  unfold blockComment? at h
  split at h
  · exact behind_through_append h r
  · cases h

theorem lineComment?_append {cs a b r : List Char} (h : lineComment? cs = some (a, b))
    (hr : b = [] → ∀ d ∈ r.head?, d = '\n') : lineComment? (cs ++ r) = some (a, b ++ r) := by
  unfold lineComment? at h
  split at h
  · exact behind_line_append h hr
  · cases h

theorem rawString?_append {cs a b : List Char} (h : rawString? cs = some (a, b))
    (r : List Char) : rawString? (cs ++ r) = some (a, b ++ r) := by
  unfold rawString? at h
  split at h
  · exact behind_through_append h r
  · exact behind_through_append h r
  · exact behind_through_append h r
  · cases h

theorem stringRest?_append {cs a b : List Char} (h : stringRest? cs = some (a, b))
    (r : List Char) : stringRest? (cs ++ r) = some (a, b ++ r) := by
  fun_induction stringRest? cs generalizing a b with
  | case1 => cases h
  | case2 =>
    cases h
    cases r <;> simp [stringRest?]
  | case3 => cases h
  | case4 => cases h; simp [stringRest?]
  | case5 d cs hq ih =>
    obtain ⟨x, hx, rfl⟩ := Cut.behind_eq_some_iff.1 h
    simp [stringRest?, ih hx, Cut.behind]
  | case6 c d cs hq hb ih =>
    obtain ⟨x, hx, rfl⟩ := Cut.behind_eq_some_iff.1 h
    have ih := ih hx
    rw [List.cons_append] at ih
    simp [stringRest?, hq, hb, ih, Cut.behind]

theorem string?_append {cs a b : List Char} (h : string? cs = some (a, b)) (r : List Char) :
    string? (cs ++ r) = some (a, b ++ r) := by
  unfold string? at h
  split at h
  · obtain ⟨x, hx, rfl⟩ := Cut.behind_eq_some_iff.1 h
    simp [string?, stringRest?_append hx, Cut.behind]
  · cases h

theorem quote?_append {cs a b : List Char} (h : quote? cs = some (a, b)) (r : List Char) :
    quote? (cs ++ r) = some (a, b ++ r) := by
  unfold quote? at h
  split at h
  · cases h; rfl
  · cases h

theorem charEscape?_append {cs a b : List Char} (h : charEscape? cs = some (a, b))
    (r : List Char) : charEscape? (cs ++ r) = some (a, b ++ r) := by
  unfold charEscape? at h
  split at h
  · next x y cs =>
    split at h
    · next hx => cases h; simp [charEscape?, hx]
    · cases h
  · next cs =>
    split at h
    · next rest hd =>
      split at h
      · next hl =>
        cases h
        have hrun : Cut.run Text.isHexDigit (cs ++ r) = _ :=
          Cut.run_append_of_head (by simp [hd])
        simp only [Cut.run, Prod.mk.injEq] at hrun
        simp [charEscape?, hrun, hd, hl]
      · cases h
    · cases h
  · next c cs hx hu =>
    split at h
    · next hc =>
      cases h
      have hcx : c ≠ 'x' := by
        rintro rfl
        exact absurd hc (by decide)
      have hcu : c ≠ 'u' := by
        rintro rfl
        exact absurd hc (by decide)
      simp [charEscape?, hcx, hcu, hc]
    · cases h
  · cases h

theorem lifetime?_append {cs a b r : List Char} (h : lifetime? cs = some (a, b))
    (hr : b = [] → ∀ d ∈ r.head?, isNameRest d = false) :
    lifetime? (cs ++ r) = some (a, b ++ r) := by
  unfold lifetime? at h
  split at h
  · obtain ⟨x, hx, rfl⟩ := Cut.behind_eq_some_iff.1 h
    simp [lifetime?, name?_append hx hr, Cut.behind]
  · cases h

/-- A documentation comment ends where it did with more text behind it, unless it is a line that
goes on. -/
theorem doc?_append {cs a b r : List Char} (h : doc? cs = some (a, b))
    (hr : ['/', '/'] <+: a → b = [] → ∀ d ∈ r.head?, d = '\n') :
    doc? (cs ++ r) = some (a, b ++ r) := by
  unfold doc? at h
  split at h
  · next cs =>
    split at h
    · cases h
    · next hc =>
      cases cs with
      | nil => simp [Cut.through, Cut.behind] at h
      | cons c cs =>
        simp only [doc?, List.cons_append]
        rw [if_neg (by simpa using hc)]
        exact behind_through_append h r
  · next cs =>
    split at h
    · cases h
    · next hc =>
      have hr' : b = [] → ∀ d ∈ r.head?, d = '\n' := by
        refine hr ?_
        obtain ⟨x, hx, rfl⟩ := Cut.behind_eq_some_iff.1 h
        exact ⟨'/' :: x, rfl⟩
      have hc' : (cs ++ r).head? ≠ some '/' := by
        cases cs with
        | nil =>
          cases r with
          | nil => simp
          | cons d r =>
            cases h
            simp [hr' rfl d rfl]
        | cons c cs => simpa using hc
      simp only [doc?, List.cons_append]
      rw [if_neg hc']
      exact behind_line_append h hr'
  · cases h

theorem character?_append {cs a b : List Char} (h : character? cs = some (a, b))
    (r : List Char) : character? (cs ++ r) = some (a, b ++ r) := by
  unfold character? at h
  split at h
  · next cs =>
    split at h
    · next e rest he =>
      obtain ⟨x, hx, rfl⟩ := Cut.behind_eq_some_iff.1 h
      simp [character?, charEscape?_append he, quote?_append hx, Cut.behind]
    · cases h
  · split at h
    · cases h
    · next hq =>
      obtain ⟨x, hx, rfl⟩ := Cut.behind_eq_some_iff.1 h
      simp [character?, hq, quote?_append hx, Cut.behind]
  · cases h

/-- The marks `r#` may turn into the start of a raw name, so what follows must not start one. -/
theorem ident?_append {cs a b r : List Char} (h : ident? cs = some (a, b))
    (hr : ∀ d ∈ r.head?, isNameRest d = false ∧ d ≠ '#') :
    ident? (cs ++ r) = some (a, b ++ r) := by
  have hn : b = [] → ∀ d ∈ r.head?, isNameRest d = false := fun _ d hd ↦ (hr d hd).1
  unfold ident? at h
  split at h
  · next cs =>
    rcases Option.or_eq_some_iff.1 h with h | ⟨hc, h⟩
    · obtain ⟨x, hx, rfl⟩ := Cut.behind_eq_some_iff.1 h
      simp [ident?, name?_append hx hn, Cut.behind]
    · have hc' : name? (cs ++ r) = none := by
        cases cs with
        | nil =>
          cases r with
          | nil => rfl
          | cons d r =>
            have hd := (hr d rfl).1
            rw [List.nil_append, name?, if_neg]
            intro hs
            simp [isNameRest_of_isNameStart hs] at hd
        | cons c cs =>
          simp only [Cut.behind, Option.map_eq_none_iff, name?] at hc
          simp only [name?, List.cons_append]
          rw [if_neg (by simpa [Cut.run] using hc)]
      have h := name?_append h hn
      simp only [List.cons_append] at h
      simp [ident?, hc', h, Cut.behind]
  · next hc =>
    have hc' : ∀ x, cs ++ r ≠ 'r' :: '#' :: x := by
      intro x hx
      rcases cs with _ | ⟨c, _ | ⟨d, cs⟩⟩
      · cases h
      · have hx : c = 'r' ∧ r = '#' :: x := by simpa using hx
        exact (hr '#' (by simp [hx.2])).2 rfl
      · have hx : c = 'r' ∧ d = '#' ∧ cs ++ r = x := by simpa using hx
        exact hc cs (by rw [hx.1, hx.2.1])
    unfold ident?
    split
    · next x hx => exact absurd hx (hc' x)
    · exact name?_append h hn

end Lexeme

end ErrorDerive
