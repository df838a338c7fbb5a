import ErrorDerive.Proofs.Lexing.Context

/-!
# Runs of lexemes

`Chain ls r` says that the lexemes `ls` are cut off one after the other in front of `r`; this is
how `split` reads a text that is put together from parts.  A run that may open a comment or a raw
string whose end it does not hold is said to leave it open (`LeavesOpen`).
-/

namespace ErrorDerive.Lexeme

theorem split_of_leads {l : Lexeme} {r : List Char} (h : l.Leads r) :
    split (l.text ++ r) = (l :: (split r).1, (split r).2) := by
  rw [split]
  split
  · next h' => cases h.symm.trans h'
  · next h' => cases h.symm.trans h'; rfl

/-- Lexemes that are cut off one after the other in front of a text. -/
def Chain : List Lexeme → List Char → Prop
  | [], _ => True
  | l :: ls, r => l.Leads (ls.flatMap text ++ r) ∧ Chain ls r

theorem chain_append {ls ms : List Lexeme} {r : List Char} :
    Chain (ls ++ ms) r ↔ Chain ls (ms.flatMap text ++ r) ∧ Chain ms r := by
  induction ls with
  | nil => simp [Chain]
  | cons l ls ih => simp [Chain, ih, and_assoc]

theorem split_of_chain {ls : List Lexeme} {r : List Char} (h : Chain ls r) :
    split (ls.flatMap text ++ r) = (ls ++ (split r).1, (split r).2) := by
  induction ls with
  | nil => rfl
  | cons l ls ih =>
    rw [List.flatMap_cons, List.append_assoc, split_of_leads h.1, ih h.2]
    rfl

theorem chain_split (cs : List Char) : Chain (split cs).1 (split cs).2 := by
  fun_induction split cs with
  | case1 => trivial
  | case2 cs l rest h r ih =>
    refine ⟨?_, ih⟩
    have hc := append_of_first? h
    rwa [Leads, flatMap_split, hc]

theorem split_eq_iff {cs : List Char} {ls : List Lexeme} :
    split cs = (ls, []) ↔ ls.flatMap text = cs ∧ Chain ls [] := by
  constructor
  · intro h
    have h₁ := flatMap_split cs
    have h₂ := chain_split cs
    rw [h] at h₁ h₂
    exact ⟨by simpa using h₁, h₂⟩
  · rintro ⟨rfl, h⟩
    have h := split_of_chain h
    have hn : split [] = ([], []) := by rw [split]; rfl
    simpa [hn] using h

/-! ## What a run leaves open -/

/-- Lexemes among which something starts that looks for an end. -/
def LeavesOpen (ls : List Lexeme) (b : Bracketed) : Prop :=
  ∃ front l back, ls = front ++ l :: back ∧ l.Opens (back.flatMap text) b

/-- A text that starts with a mark other than those that continue something. -/
def Solid (r : List Char) : Prop := ∀ c ∈ r.head?, Edge.ofChar c = .solid

theorem Solid.meets {r : List Char} (h : Solid r) (e : Edge) : e.Meets r := by
  intro c hc
  rw [h c hc]
  cases e <;> rfl

theorem LeavesOpen.cons {l : Lexeme} {ls : List Lexeme} {b : Bracketed} (h : LeavesOpen ls b) :
    LeavesOpen (l :: ls) b := by
  obtain ⟨front, m, back, rfl, ho⟩ := h
  exact ⟨l :: front, m, back, rfl, ho⟩

/-- An end is not made of the end of one text and the start of another that is solid. -/
theorem infix_append_solid {b : Bracketed} {cs r : List Char} (hr : Solid r) :
    b.closing <:+: cs ++ r ↔ b.closing <:+: cs ∨ b.closing <:+: r := by
  rw [List.infix_append_iff]
  refine ⟨?_, ?_⟩
  · rintro (h | h | ⟨x, y, hxy, hx, hy⟩)
    · exact .inl h
    · exact .inr h
    · rcases y with _ | ⟨c, y⟩
      · rw [List.append_nil] at hxy
        exact .inl (hxy ▸ hx.isInfix)
      · have hc : Edge.ofChar c = .solid := by
          obtain ⟨z, rfl⟩ := hy
          exact hr c rfl
        rcases x with _ | ⟨d, x⟩
        · rw [List.nil_append] at hxy
          exact .inr (hxy ▸ hy.isInfix)
        · have hm : c ∈ b.closing.tail := by simp [hxy]
          exfalso
          cases b with
          | comment => 
            obtain rfl : c = '/' := by simpa [Bracketed.closing] using hm
            exact absurd hc (by decide)
          | raw n =>
            obtain rfl : c = '#' := by
              simp only [Bracketed.closing, List.tail_cons, List.mem_replicate] at hm
              exact hm.2
            exact absurd hc (by decide)
  · rintro (h | h)
    · exact .inl h
    · exact .inr (.inl h)

theorem Chain.text_ne_nil {l : Lexeme} {ls : List Lexeme} {r : List Char} (h : Chain (l :: ls) r) :
    l.text ≠ [] := text_ne_nil_of_first? h.1

/-- A run of lexemes is cut off in front of a solid text if it does not end within a line comment
and the text does not end what the run leaves open. -/
theorem Chain.of_solid {ls : List Lexeme} {r : List Char} (h : Chain ls []) (hr : Solid r)
    (hl : ∀ l ∈ ls.getLast?, l.edge? ≠ none)
    (ho : ∀ b, LeavesOpen ls b → ¬ b.closing <:+: r) : Chain ls r := by
  induction ls with
  | nil => trivial
  | cons l ls ih =>
    obtain ⟨h₁, h₂⟩ := h
    rw [List.append_nil] at h₁
    refine ⟨leads_append h₁ ?_ ?_, ih h₂ ?_ fun b hb ↦ ho b hb.cons⟩
    · rcases he : l.edge? with _ | e
      · rcases ls with _ | ⟨m, ls⟩
        · exact absurd he (hl l rfl)
        · simp [Near, he, h₂.text_ne_nil]
      · cases e with
        | word => simpa [Near, he] using hr.meets .word
        | blank => simpa [Near, he] using fun _ ↦ hr.meets .blank
        | solid => simp [Near, he]
    · intro b hb
      rw [infix_append_solid hr]
      rintro (hi | hi)
      · exact h₁.not_infix hb hi
      · exact ho b ⟨[], l, ls, rfl, hb⟩ hi
    · rcases ls with _ | ⟨m, ls⟩
      · simp
      · simpa [List.getLast?_cons_cons] using hl

theorem Chain.edge?_ne_none {ls : List Lexeme} {r : List Char} (h : Chain ls r) (hr : Solid r)
    (hne : r ≠ []) {l : Lexeme} (hl : l ∈ ls.getLast?) : l.edge? ≠ none := by
  obtain ⟨front, rfl⟩ := List.getLast?_eq_some_iff.1 hl
  intro he
  obtain ⟨c, cs, rfl⟩ := List.exists_cons_of_ne_nil hne
  have h := ((chain_append.1 h).2).1
  obtain rfl := h.eq_newline he rfl
  exact absurd (hr '\n' rfl) (by decide)

/-- A text that follows a run of lexemes does not end what the run leaves open. -/
theorem Chain.not_infix {ls : List Lexeme} {r : List Char} (h : Chain ls r) {b : Bracketed}
    (ho : LeavesOpen ls b) : ¬ b.closing <:+: r := by
  obtain ⟨front, l, back, rfl, hl, hp⟩ := ho
  have h := ((chain_append.1 h).2).1
  have hp' : b.opening <+: l.text ++ (back.flatMap text ++ r) := by
    rw [← List.append_assoc]
    exact hp.trans (List.prefix_append _ _)
  have hi := h.not_infix ⟨hl, hp'⟩
  rw [← List.append_assoc, List.drop_append_of_le_length hp.length_le] at hi
  exact fun h ↦ hi (List.infix_append_of_infix_right h)

end ErrorDerive.Lexeme
