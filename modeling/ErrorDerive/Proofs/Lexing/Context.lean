import ErrorDerive.Proofs.Lexing.Classes

/-!
# Lexemes in front of other text

`Leads l r` says that a lexeme is cut off in front of the rest `r`.  For most lexemes the next
character decides this.  The exceptions are a `/` and an `r` that would open a comment or a raw
string if its end were found further on (`Opens`): such a lexeme is cut off as a single character
only in front of texts that do not hold the end.
-/

namespace ErrorDerive

/-- How a text starts or ends: words would run together, and so would white space, but nothing
runs into a solid end. -/
inductive Edge
  | word
  | blank
  | solid
deriving DecidableEq, Repr

namespace Edge

/-- The edge of a text that starts with a character. -/
def ofChar (c : Char) : Edge :=
  if isLayout c then .blank
  else if isNameRest c || ['"', '\'', '#', '/', '*'].contains c then .word
  else .solid

/-- Whether an end may touch a start. -/
def meets (last first : Edge) : Bool := last == .solid || first == .solid || last != first

/-- An end that a text may follow. -/
def Meets (e : Edge) (r : List Char) : Prop := ∀ c ∈ r.head?, e.meets (ofChar c) = true

instance (e : Edge) (r : List Char) : Decidable (e.Meets r) :=
  decidable_of_iff (r.head?.all (fun c ↦ e.meets (ofChar c)) = true) (by
    cases r with
    | nil => simp [Meets]
    | cons c r => simp [Meets])

theorem meets_solid (r : List Char) : solid.Meets r := fun _ _ ↦ rfl

theorem isLayout_of_blank_meets {r : List Char} (h : blank.Meets r) {c : Char}
    (hc : c ∈ r.head?) : isLayout c = false := by
  have h := h c hc
  unfold ofChar at h
  split at h
  · cases h
  · next hl => simpa using hl

theorem of_word_meets {r : List Char} (h : word.Meets r) {c : Char} (hc : c ∈ r.head?) :
    isNameRest c = false ∧ c ∉ ['"', '\'', '#', '/', '*'] := by
  have h := h c hc
  unfold ofChar at h
  split at h
  · next hl =>
    refine ⟨?_, fun hm ↦ ?_⟩
    · rcases hn : isNameRest c with _ | _
      · rfl
      · simp [isLayout_eq_false_of_isNameRest hn] at hl
    · have hb : ['"', '\'', '#', '/', '*'].all (!isLayout ·) = true := by decide
      have hc := List.all_eq_true.1 hb c hm
      simp [hl] at hc
  · split at h
    · cases h
    · next hw => simpa using hw

end Edge

/-- The comments and raw strings that look for an end. -/
inductive Bracketed
  | comment
  | raw (hashes : Fin 3)
deriving DecidableEq, Repr

namespace Bracketed

def opening : Bracketed → List Char
  | .comment => ['/', '*']
  | .raw n => 'r' :: List.replicate n '#' ++ ['"']

def closing : Bracketed → List Char
  | .comment => ['*', '/']
  | .raw n => '"' :: List.replicate n '#'

end Bracketed

namespace Lexeme

/-- A lexeme that is cut off in front of a text. -/
def Leads (l : Lexeme) (r : List Char) : Prop := first? (l.text ++ r) = some (l, r)

instance (l : Lexeme) (r : List Char) : Decidable (l.Leads r) :=
  inferInstanceAs (Decidable (first? (l.text ++ r) = some (l, r)))

/-- How a lexeme ends; nothing but a new line may follow what goes on to the end of its line. -/
def edge? (l : Lexeme) : Option Edge :=
  match l.kind with
  | .trivia .blank => some .blank
  | .trivia .lineComment => none
  | .trivia .blockComment => some .solid
  | .token (.leaf .doc) => if ['/', '/'].isPrefixOf l.text then none else some .solid
  | .token (.leaf (.literal .number)) => some .word
  | .token (.leaf (.literal _)) => some .solid
  | .token (.leaf .lifetime) => some .word
  | .token (.leaf .ident) => some .word
  | .token (.leaf .punct) => some (if l.text = ['/'] then .word else .solid)
  | .token (.opener _) | .token (.closer _) => some .solid

/-- A text that may come next after a lexeme and the text behind it. -/
def Near (l : Lexeme) (rest r : List Char) : Prop :=
  match l.edge? with
  | none => rest = [] → ∀ c ∈ r.head?, c = '\n'
  | some .solid => True
  | some .blank => rest = [] → Edge.blank.Meets r
  | some .word => Edge.word.Meets r

/-- A lexeme and the text behind it that are the start of something that looks for an end: the
lexeme is its first character only. -/
def Opens (l : Lexeme) (rest : List Char) (b : Bracketed) : Prop :=
  l.text.length = 1 ∧ b.opening <+: l.text ++ rest

/-! ## Classes that come before -/

/-- Where a plain comment was found, no documentation is found in a longer text. -/
theorem doc?_append_of_blockComment? {cs a b : List Char} (h : blockComment? cs = some (a, b))
    (hd : doc? cs = none) (r : List Char) : doc? (cs ++ r) = none := by
  unfold blockComment? at h
  split at h
  · next x =>
    obtain ⟨y, hy, rfl⟩ := Cut.behind_eq_some_iff.1 h
    rcases x with _ | ⟨c, x⟩
    · cases hy
    · by_cases hc : c = '*'
      · subst hc
        rcases x with _ | ⟨d, x⟩
        · cases hy
        · by_cases he : d = '*' ∨ d = '/'
          · simp [doc?, he]
          · simp only [Cut.through, List.isPrefixOf, beq_self_eq_true, Bool.true_and,
              Bool.and_true, beq_iff_eq] at hy
            rw [if_neg fun e ↦ he (.inr e.symm)] at hy
            obtain ⟨z, hz, rfl⟩ := Cut.behind_eq_some_iff.1 hy
            have hz : Cut.through ['*', '/'] (d :: x) = some (z, b) := by
              rw [Cut.through]
              simpa [List.isPrefixOf] using hz
            simp [doc?, he, hz, Cut.behind] at hd
      · simp [doc?, hc]
  · cases h

theorem doc?_append_of_lineComment? {cs a b r : List Char} (h : lineComment? cs = some (a, b))
    (hd : doc? cs = none) (hr : b = [] → ∀ d ∈ r.head?, d = '\n') : doc? (cs ++ r) = none := by
  unfold lineComment? at h
  split at h
  · next x =>
    rcases x with _ | ⟨c, x⟩
    · cases h
      rcases r with _ | ⟨d, r⟩
      · rfl
      · simp [doc?, hr rfl d rfl]
    · by_cases hc : c = '/'
      · subst hc
        rcases x with _ | ⟨d, x⟩
        · simp [doc?, Cut.behind] at hd
        · by_cases he : d = '/'
          · simp [doc?, he]
          · simp [doc?, he, Cut.behind] at hd
      · simp [doc?, hc]
  · cases h

theorem blockComment?_append_of_lineComment? {cs a b : List Char}
    (h : lineComment? cs = some (a, b)) (r : List Char) : blockComment? (cs ++ r) = none := by
  unfold lineComment? at h
  split at h
  · rfl
  · cases h

/-- A slash stays a mark in front of a text that neither makes it a comment at once nor ends the
comment that it may open. -/
theorem comment?_append {rest r : List Char} (hd : doc? ('/' :: rest) = none)
    (hb : blockComment? ('/' :: rest) = none) (hl : lineComment? ('/' :: rest) = none)
    (hr : rest = [] → ∀ d ∈ r.head?, d ≠ '/' ∧ d ≠ '*')
    (ho : ∀ x, rest = '*' :: x → ¬ ['*', '/'] <:+: x ++ r) :
    doc? ('/' :: rest ++ r) = none ∧ blockComment? ('/' :: rest ++ r) = none ∧
      lineComment? ('/' :: rest ++ r) = none := by
  rcases rest with _ | ⟨c, x⟩
  · rcases r with _ | ⟨d, r⟩
    · exact ⟨hd, hb, hl⟩
    · simp [doc?, blockComment?, lineComment?, hr rfl d rfl]
  · by_cases hc : c = '/'
    · subst hc
      simp [lineComment?, Cut.behind] at hl
    · by_cases hc' : c = '*'
      · subst hc'
        have hx := ho x rfl
        have hn : Cut.through ['*', '/'] (x ++ r) = none :=
          (Cut.through_eq_none_iff (by simp)).2 hx
        refine ⟨?_, by simp [blockComment?, hn, Cut.behind], by simp [lineComment?]⟩
        simp only [List.cons_append]
        generalize hy : x ++ r = y at hx hn
        rcases y with _ | ⟨d, y⟩
        · rfl
        · have hy' : Cut.through ['*', '/'] y = none :=
            (Cut.through_eq_none_iff (by simp)).2 fun h ↦ hx (h.trans (List.infix_cons_iff.2
              (.inr List.infix_rfl)))
          by_cases he : d = '*'
          · subst he
            simp [doc?, hy', Cut.behind]
          · simp [doc?, he]
      · simp [doc?, blockComment?, lineComment?, hc, hc']

theorem rawString?_raw (n : Fin 3) (x : List Char) :
    rawString? ((Bracketed.raw n).opening ++ x) =
      Cut.behind (Bracketed.raw n).opening (Cut.through (Bracketed.raw n).closing x) := by
  match n with
  | 0 => rfl
  | 1 => rfl
  | 2 => rfl

/-- Whatever is not the opening of a raw string does not become one in front of a text that starts
with neither a quote nor a hash. -/
theorem rawString?_append_of_not_opening {cs r : List Char}
    (h : ∀ n, ¬ (Bracketed.raw n).opening <+: 'r' :: cs)
    (hr : ∀ d ∈ r.head?, d ≠ '"' ∧ d ≠ '#') : rawString? ('r' :: cs ++ r) = none := by
  have h₀ : ∀ x, cs ≠ '"' :: x := fun x e ↦ h 0 ⟨x, by rw [e]; rfl⟩
  have h₁ : ∀ x, cs ≠ '#' :: '"' :: x := fun x e ↦ h 1 ⟨x, by rw [e]; rfl⟩
  have h₂ : ∀ x, cs ≠ '#' :: '#' :: '"' :: x := fun x e ↦ h 2 ⟨x, by rw [e]; rfl⟩
  unfold rawString?
  split
  · next x e =>
    have e : cs ++ r = '#' :: '#' :: '"' :: x := by simpa using e
    rcases cs with _ | ⟨c, _ | ⟨d, _ | ⟨f, cs⟩⟩⟩
    · exact absurd rfl (hr '#' (by rw [← List.nil_append r, e]; rfl)).2
    · have e : c = '#' ∧ r = '#' :: '"' :: x := by simpa using e
      exact absurd rfl (hr '#' (by rw [e.2]; rfl)).2
    · have e : c = '#' ∧ d = '#' ∧ r = '"' :: x := by simpa using e
      exact absurd rfl (hr '"' (by rw [e.2.2]; rfl)).1
    · have e : c = '#' ∧ d = '#' ∧ f = '"' ∧ cs ++ r = x := by simpa using e
      exact absurd (by rw [e.1, e.2.1, e.2.2.1]) (h₂ cs)
  · next x e =>
    have e : cs ++ r = '#' :: '"' :: x := by simpa using e
    rcases cs with _ | ⟨c, _ | ⟨d, cs⟩⟩
    · exact absurd rfl (hr '#' (by rw [← List.nil_append r, e]; rfl)).2
    · have e : c = '#' ∧ r = '"' :: x := by simpa using e
      exact absurd rfl (hr '"' (by rw [e.2]; rfl)).1
    · have e : c = '#' ∧ d = '"' ∧ cs ++ r = x := by simpa using e
      exact absurd (by rw [e.1, e.2.1]) (h₁ cs)
  · next x e =>
    have e : cs ++ r = '"' :: x := by simpa using e
    rcases cs with _ | ⟨c, cs⟩
    · exact absurd rfl (hr '"' (by rw [← List.nil_append r, e]; rfl)).1
    · have e : c = '"' ∧ cs ++ r = x := by simpa using e
      exact absurd (by rw [e.1]) (h₀ cs)
  · rfl

theorem rawString?_append_none {cs r : List Char} (hr : ∀ d ∈ r.head?, d ≠ '"' ∧ d ≠ '#')
    (ho : ∀ n, (Bracketed.raw n).opening <+: 'r' :: cs →
      ¬ (Bracketed.raw n).closing <:+: ('r' :: cs).drop (Bracketed.raw n).opening.length ++ r) :
    rawString? ('r' :: cs ++ r) = none := by
  by_cases hx : ∃ n, (Bracketed.raw n).opening <+: 'r' :: cs
  · obtain ⟨n, x, hx⟩ := hx
    have ho := ho n ⟨x, hx⟩
    rw [← hx, List.drop_left] at ho
    rw [← hx, List.append_assoc, rawString?_raw,
      (Cut.through_eq_none_iff (by simp [Bracketed.closing])).2 ho]
    rfl
  · exact rawString?_append_of_not_opening (by simpa using hx) hr

/-- Names that a raw string would start with are cut after their first letter. -/
theorem length_of_ident?_raw {n : Fin 3} {cs a b : List Char}
    (hn : (Bracketed.raw n).opening <+: cs) (h : ident? cs = some (a, b)) : a.length = 1 := by
  obtain ⟨x, rfl⟩ := hn
  have hr : ident? ((Bracketed.raw n).opening ++ x) =
      some (['r'], (Bracketed.raw n).opening.tail ++ x) := by
    match n with
    | 0 => rfl
    | 1 => rfl
    | 2 => rfl
  cases hr.symm.trans h
  rfl

theorem character?_append_of_lifetime? {cs a b r : List Char} (h : lifetime? cs = some (a, b))
    (hc : character? cs = none) (hr : ∀ d ∈ r.head?, d ≠ '\'') : character? (cs ++ r) = none := by
  unfold lifetime? at h
  split at h
  · next x =>
    obtain ⟨y, hy, rfl⟩ := Cut.behind_eq_some_iff.1 h
    rcases x with _ | ⟨c, x⟩
    · cases hy
    · have hs : isNameStart c = true := by
        simp only [name?] at hy
        split at hy
        · assumption
        · cases hy
      have hs' : c ≠ '\\' ∧ c ≠ '\'' ∧ c ≠ '\n' := by
        refine ⟨?_, ?_, ?_⟩ <;> (rintro rfl; exact absurd hs (by decide))
      rcases x with _ | ⟨d, x⟩
      · rcases r with _ | ⟨d, r⟩
        · exact hc
        · simp [character?, hs', quote?, Cut.behind, hr d rfl]
      · by_cases hd : d = '\''
        · simp [character?, hs', quote?, Cut.behind, hd] at hc
        · simp [character?, hs', quote?, Cut.behind, hd]
  · cases h

/-! ## A lexeme in front of a longer text -/

theorem leads_iff_of_sole {k : LexemeKind} {c : Char} {text cs r : List Char}
    (ht : text = c :: cs) (hs : LexemeKind.order.filter (·.starts c) = [k]) :
    Leads ⟨k, text⟩ r ↔ k.cut? (text ++ r) = some (text, r) := by
  refine ⟨cut?_of_first?, fun h ↦ ?_⟩
  subst ht
  rw [Leads, List.cons_append, first?_of_sole hs, ofKind, ← List.cons_append, h]
  rfl

theorem ofKind_eq_none_iff {cs : List Char} {k : LexemeKind} :
    ofKind cs k = none ↔ k.cut? cs = none := by simp [ofKind]

theorem ofKind_eq_some_iff {cs b : List Char} {k : LexemeKind} {l : Lexeme} :
    ofKind cs k = some (l, b) ↔ k.cut? cs = some (l.text, b) ∧ l.kind = k := by
  rw [ofKind, Option.map_eq_some_iff]
  constructor
  · rintro ⟨⟨x, y⟩, h, e⟩
    cases e
    exact ⟨h, rfl⟩
  · rintro ⟨h, rfl⟩
    exact ⟨(l.text, b), h, rfl⟩

/-- The first character of a lexeme is one that its class starts with. -/
theorem Leads.exists_cons {l : Lexeme} {r : List Char} (h : l.Leads r) :
    ∃ c cs, l.text = c :: cs ∧ l.kind.starts c = true := by
  obtain ⟨c, cs, hc⟩ := List.exists_cons_of_ne_nil (text_ne_nil_of_first? h)
  refine ⟨c, cs, hc, ?_⟩
  have hk := cut?_of_first? h
  rw [hc, List.cons_append] at hk
  exact LexemeKind.starts_of_cut? hk

section Shared

variable {k : LexemeKind} {text cs r : List Char}

theorem leads_slash_iff (ht : text = '/' :: cs) :
    Leads ⟨k, text⟩ r ↔
      doc? (text ++ r) = some (text, r) ∧ k = .token (.leaf .doc) ∨
      doc? (text ++ r) = none ∧
        (blockComment? (text ++ r) = some (text, r) ∧ k = .trivia .blockComment ∨
        blockComment? (text ++ r) = none ∧
          (lineComment? (text ++ r) = some (text, r) ∧ k = .trivia .lineComment ∨
          lineComment? (text ++ r) = none ∧ k = .token (.leaf .punct) ∧ text = ['/'])) := by
  subst ht
  have hp : ((⟨.token (.leaf .punct), ['/']⟩, cs ++ r) : Lexeme × List Char) =
      (⟨k, '/' :: cs⟩, r) ↔ k = .token (.leaf .punct) ∧ '/' :: cs = ['/'] := by
    simp only [Prod.mk.injEq, Lexeme.mk.injEq]
    constructor
    · rintro ⟨⟨rfl, h⟩, -⟩
      exact ⟨rfl, h.symm⟩
    · rintro ⟨rfl, h⟩
      cases h
      exact ⟨⟨rfl, rfl⟩, rfl⟩
  simp only [Leads, List.cons_append, first?_slash, Option.or_eq_some_iff, ofKind_eq_some_iff,
    ofKind_eq_none_iff, Option.some.injEq, hp, LexemeKind.cut?]

theorem leads_r_iff (ht : text = 'r' :: cs) :
    Leads ⟨k, text⟩ r ↔
      rawString? (text ++ r) = some (text, r) ∧ k = .token (.leaf (.literal .rawString)) ∨
      rawString? (text ++ r) = none ∧ ident? (text ++ r) = some (text, r) ∧
        k = .token (.leaf .ident) := by
  subst ht
  simp only [Leads, List.cons_append, first?_r, Option.or_eq_some_iff, ofKind_eq_some_iff,
    ofKind_eq_none_iff, LexemeKind.cut?]

theorem leads_quote_iff (ht : text = '\'' :: cs) :
    Leads ⟨k, text⟩ r ↔
      character? (text ++ r) = some (text, r) ∧ k = .token (.leaf (.literal .character)) ∨
      character? (text ++ r) = none ∧ lifetime? (text ++ r) = some (text, r) ∧
        k = .token (.leaf .lifetime) := by
  subst ht
  simp only [Leads, List.cons_append, first?_quote, Option.or_eq_some_iff, ofKind_eq_some_iff,
    ofKind_eq_none_iff, LexemeKind.cut?]

end Shared

theorem leads_slash {rest r : List Char} (h : Leads ⟨.token (.leaf .punct), ['/']⟩ rest)
    (hr : rest = [] → ∀ d ∈ r.head?, d ≠ '/' ∧ d ≠ '*')
    (ho : ∀ x, rest = '*' :: x → ¬ ['*', '/'] <:+: x ++ r) :
    Leads ⟨.token (.leaf .punct), ['/']⟩ (rest ++ r) := by
  rw [leads_slash_iff (rfl : ['/'] = '/' :: [])] at h ⊢
  simp only [List.cons_append, List.nil_append] at h ⊢
  obtain ⟨hd, hb, hl⟩ : doc? ('/' :: rest) = none ∧ blockComment? ('/' :: rest) = none ∧
      lineComment? ('/' :: rest) = none := by simp_all
  obtain ⟨h₁, h₂, h₃⟩ := comment?_append hd hb hl hr ho
  rw [List.cons_append] at h₁ h₂ h₃
  simp [h₁, h₂, h₃]

section Append

variable {text rest r : List Char}

theorem leads_lifetime_append (h : Leads ⟨.token (.leaf .lifetime), text⟩ rest)
    (hr : Edge.word.Meets r) : Leads ⟨.token (.leaf .lifetime), text⟩ (rest ++ r) := by
  obtain ⟨c, cs, ht, hs⟩ := h.exists_cons
  have hk := cut?_of_first? h
  obtain rfl : c = '\'' := by simpa [LexemeKind.starts] using hs
  have hc : character? (text ++ rest) = none := by
    rw [leads_quote_iff ht] at h
    simp_all
  have hl := lifetime?_append (r := r) hk fun _ d hd ↦ (Edge.of_word_meets hr hd).1
  have hq : ∀ d ∈ r.head?, d ≠ '\'' := by
    rintro d hd rfl
    exact (Edge.of_word_meets hr hd).2 (by simp)
  simp [leads_quote_iff ht, ← List.append_assoc, hl, character?_append_of_lifetime? hk hc hq]

/-- An identifier stays one with more text behind it, unless that closes a raw string it might
start. -/
theorem leads_ident_append (h : Leads ⟨.token (.leaf .ident), text⟩ rest)
    (hr : Edge.word.Meets r)
    (ho : ∀ n, Opens ⟨.token (.leaf .ident), text⟩ rest (.raw n) →
      ¬ (Bracketed.raw n).closing <:+:
        (text ++ rest).drop (Bracketed.raw n).opening.length ++ r) :
    Leads ⟨.token (.leaf .ident), text⟩ (rest ++ r) := by
  obtain ⟨c, cs, ht, hs⟩ := h.exists_cons
  have hk := cut?_of_first? h
  simp only at ht hk
  have hne : ∀ d ∈ r.head?, d ≠ '"' ∧ d ≠ '#' := by
    intro d hd
    constructor <;> (rintro rfl; exact (Edge.of_word_meets hr hd).2 (by simp))
  have hi := ident?_append (r := r) hk fun d hd ↦
    ⟨(Edge.of_word_meets hr hd).1, (hne d hd).2⟩
  by_cases hc : c = 'r'
  · subst hc
    have hraw : rawString? (text ++ rest ++ r) = none := by
      rw [ht, List.cons_append]
      apply rawString?_append_none hne
      intro n hp
      rw [← List.cons_append, ← ht] at hp ⊢
      exact ho n ⟨length_of_ident?_raw hp hk, hp⟩
    simp [leads_r_iff ht, ← List.append_assoc, hi, hraw]
  · rw [leads_iff_of_sole ht (LexemeKind.sole_ident hs hc), ← List.append_assoc]
    exact hi

theorem leads_punct_append (h : Leads ⟨.token (.leaf .punct), text⟩ rest)
    (hr : text = ['/'] → Edge.word.Meets r)
    (ho : Opens ⟨.token (.leaf .punct), text⟩ rest .comment →
      ¬ Bracketed.comment.closing <:+:
        (text ++ rest).drop Bracketed.comment.opening.length ++ r) :
    Leads ⟨.token (.leaf .punct), text⟩ (rest ++ r) := by
  obtain ⟨c, cs, ht, hs⟩ := h.exists_cons
  by_cases hc : c = '/'
  · subst hc
    obtain rfl : text = ['/'] := by
      rw [leads_slash_iff ht] at h
      simp_all
    refine leads_slash h (fun _ d hd ↦ ?_) fun x hx ↦ ?_
    · constructor <;> (rintro rfl; exact (Edge.of_word_meets (hr rfl) hd).2 (by simp))
    · subst hx
      exact ho ⟨rfl, by simp [Bracketed.opening]⟩
  · rw [leads_iff_of_sole ht (LexemeKind.sole_punct hs hc), ← List.append_assoc]
    exact single?_append (cut?_of_first? h) r

end Append

/-- What is cut off in front of a text is cut off in front of a longer one that does not go on
with it, and that does not hold the end of anything that starts with it. -/
theorem leads_append {l : Lexeme} {rest r : List Char} (h : l.Leads rest) (hn : l.Near rest r)
    (ho : ∀ b, l.Opens rest b →
      ¬ b.closing <:+: (l.text ++ rest).drop b.opening.length ++ r) : l.Leads (rest ++ r) := by
  obtain ⟨c, cs, ht, hs⟩ := h.exists_cons
  have hk := cut?_of_first? h
  obtain ⟨kind, text⟩ := l
  simp only at ht hs hk
  match kind with
  | .trivia .blank =>
    rw [leads_iff_of_sole ht (LexemeKind.sole_blank hs)]
    simp only [← List.append_assoc]
    exact blank?_append hk fun hb d hd ↦ Edge.isLayout_of_blank_meets (hn hb) hd
  | .trivia .blockComment =>
    obtain rfl : c = '/' := by simpa [LexemeKind.starts] using hs
    have hd : doc? (text ++ rest) = none := by
      simp only [leads_slash_iff ht] at h
      simp_all
    simp [leads_slash_iff ht, ← List.append_assoc, blockComment?_append hk,
      doc?_append_of_blockComment? hk hd]
  | .trivia .lineComment =>
    obtain rfl : c = '/' := by simpa [LexemeKind.starts] using hs
    have hd : doc? (text ++ rest) = none := by
      simp only [leads_slash_iff ht] at h
      simp_all
    simp [leads_slash_iff ht, ← List.append_assoc, lineComment?_append hk hn,
      blockComment?_append_of_lineComment? hk, doc?_append_of_lineComment? hk hd hn]
  | .token (.leaf .doc) =>
    obtain rfl : c = '/' := by simpa [LexemeKind.starts] using hs
    have hn' : ['/', '/'] <+: text → rest = [] → ∀ d ∈ r.head?, d = '\n' := by
      intro hp
      simpa [Near, edge?, List.isPrefixOf_iff_prefix.2 hp] using hn
    simp [leads_slash_iff ht, ← List.append_assoc, doc?_append hk hn']
  | .token (.leaf (.literal .rawString)) =>
    obtain rfl : c = 'r' := by simpa [LexemeKind.starts] using hs
    simp [leads_r_iff ht, ← List.append_assoc, rawString?_append hk]
  | .token (.leaf (.literal .string)) =>
    obtain rfl : c = '"' := by simpa [LexemeKind.starts] using hs
    rw [leads_iff_of_sole ht LexemeKind.sole_string, ← List.append_assoc]
    exact string?_append hk r
  | .token (.leaf (.literal .character)) =>
    obtain rfl : c = '\'' := by simpa [LexemeKind.starts] using hs
    simp [leads_quote_iff ht, ← List.append_assoc, character?_append hk]
  | .token (.leaf (.literal .number)) =>
    rw [leads_iff_of_sole ht (LexemeKind.sole_number hs), ← List.append_assoc]
    exact number?_append hk fun _ d hd ↦ (Edge.of_word_meets hn hd).1
  | .token (.leaf .lifetime) => exact leads_lifetime_append h hn
  | .token (.leaf .ident) => exact leads_ident_append h hn fun n ↦ ho (.raw n)
  | .token (.leaf .punct) =>
    refine leads_punct_append h (fun hp ↦ ?_) (ho .comment)
    simpa [Near, edge?, hp] using hn
  | .token (.opener d) =>
    obtain rfl : c = d.opener := by simpa [LexemeKind.starts] using hs
    rw [leads_iff_of_sole ht (LexemeKind.sole_opener d), ← List.append_assoc]
    exact single?_append hk r
  | .token (.closer d) =>
    obtain rfl : c = d.closer := by simpa [LexemeKind.starts] using hs
    rw [leads_iff_of_sole ht (LexemeKind.sole_closer d), ← List.append_assoc]
    exact single?_append hk r

theorem leads_of_meets {l : Lexeme} {e : Edge} {r : List Char} (h : l.Leads [])
    (he : l.edge? = some e) (hr : e.Meets r) : l.Leads r := by
  refine leads_append h ?_ ?_
  · cases e with
    | word => simpa [Near, he] using hr
    | blank => simpa [Near, he] using hr
    | solid => simp [Near, he]
  · rintro b ⟨hl, hp⟩
    have hp := hp.length_le
    cases b <;> simp [Bracketed.opening, hl] at hp

/-- Only a new line follows what goes on to the end of its line. -/
theorem Leads.eq_newline {l : Lexeme} {r : List Char} (h : l.Leads r) (he : l.edge? = none)
    {c : Char} (hc : c ∈ r.head?) : c = '\n' := by
  have hrun : ∀ {f x : List Char}, Cut.behind f (some (Cut.run (· ≠ '\n') x)) =
      some (l.text, r) → c = '\n' := by
    intro f x hx
    obtain ⟨y, hy, -⟩ := Cut.behind_eq_some_iff.1 hx
    cases hy
    have := List.head?_dropWhile_not (fun x ↦ decide (x ≠ '\n')) x
    rw [Option.mem_def.1 hc] at this
    simpa using this
  have hk := cut?_of_first? h
  obtain ⟨kind, text⟩ := l
  match kind with
  | .trivia .lineComment =>
    simp only [LexemeKind.cut?] at hk
    unfold lineComment? at hk
    split at hk
    · exact hrun hk
    · cases hk
  | .token (.leaf .doc) =>
    simp only [LexemeKind.cut?] at hk
    unfold doc? at hk
    split at hk
    · split at hk
      · cases hk
      · obtain ⟨x, -, rfl⟩ := Cut.behind_eq_some_iff.1 hk
        simp [edge?, List.isPrefixOf] at he
    · split at hk
      · cases hk
      · exact hrun hk
    · cases hk
  | .token (.leaf (.literal .number)) => simp [edge?] at he
  | .token (.leaf (.literal .string)) => simp [edge?] at he
  | .token (.leaf (.literal .rawString)) => simp [edge?] at he
  | .token (.leaf (.literal .character)) => simp [edge?] at he

theorem length_of_doc? {cs a b : List Char} (h : doc? cs = some (a, b)) : 3 ≤ a.length := by
  unfold doc? at h
  split at h
  · split at h
    · cases h
    · obtain ⟨x, -, rfl⟩ := Cut.behind_eq_some_iff.1 h
      simp
  · split at h
    · cases h
    · obtain ⟨x, -, rfl⟩ := Cut.behind_eq_some_iff.1 h
      simp
  · cases h

theorem through_eq_none_of_behind {f mark cs : List Char}
    (h : Cut.behind f (Cut.through mark cs) = none) (hm : mark ≠ []) : ¬ mark <:+: cs := by
  rw [← Cut.through_eq_none_iff hm]
  simpa [Cut.behind] using h

/-- A start that is read as single characters has no end further on. -/
theorem Leads.not_infix {l : Lexeme} {rest : List Char} {b : Bracketed} (h : l.Leads rest)
    (ho : l.Opens rest b) : ¬ b.closing <:+: (l.text ++ rest).drop b.opening.length := by
  obtain ⟨hl, x, hx⟩ := ho
  obtain ⟨kind, text⟩ := l
  obtain ⟨c, rfl⟩ := List.length_eq_one_iff.1 hl
  rw [← hx, List.drop_left]
  cases b with
  | comment =>
    simp only [Bracketed.opening, List.cons_append, List.nil_append, List.cons.injEq] at hx
    obtain ⟨rfl, rfl⟩ := hx
    rw [leads_slash_iff rfl] at h
    rcases h with ⟨h, -⟩ | ⟨-, ⟨h, -⟩ | ⟨h, -⟩⟩
    · exact absurd (length_of_doc? h) (by simp)
    · obtain ⟨y, -, e⟩ := Cut.behind_eq_some_iff.1 h
      cases e
    · exact through_eq_none_of_behind h (by simp [Bracketed.closing])
  | raw n =>
    have hc : c = 'r' := by simpa [Bracketed.opening] using congrArg List.head? hx.symm
    rw [leads_r_iff (congrArg (fun d ↦ [d]) hc), ← hx, rawString?_raw] at h
    rcases h with ⟨h, -⟩ | ⟨h, -⟩
    · obtain ⟨y, -, e⟩ := Cut.behind_eq_some_iff.1 h
      exact absurd (congrArg List.length e) (by simp [Bracketed.opening])
    · exact through_eq_none_of_behind h (by simp [Bracketed.closing])

end Lexeme

end ErrorDerive
