import ErrorDerive.Proofs.Lexing.Run
import ErrorDerive.Tree.Folding
import Mathlib.Data.List.TakeWhile

/-!
# Tokens in a source text

The tokens of a source lie in it in order: each has the text of the stretch it occupies, and what
lies before, between and behind them is white space and plain comments (`Laid`).
-/

namespace ErrorDerive

/-- The characters of a text from one offset to another. -/
def stretch (cs : List Char) (a b : Nat) : List Char := (cs.drop a).take (b - a)

theorem stretch_append (front cs back : List Char) :
    stretch (front ++ (cs ++ back)) front.length (front.length + cs.length) = cs := by
  simp [stretch]

theorem stretch_append_stretch (cs : List Char) {a b c : Nat} (h : a ≤ b) (h' : b ≤ c) :
    stretch cs a b ++ stretch cs b c = stretch cs a c := by
  have hc : c - a = (b - a) + (c - b) := by omega
  rw [stretch, stretch, stretch, hc, List.take_add, List.drop_drop, Nat.add_sub_cancel' h]

/-! ## White space and plain comments -/

/-- Texts that start as documentation does. -/
def OpensDoc (cs : List Char) : Prop :=
  (∃ x, cs = '/' :: '*' :: '*' :: x ∧ x.head? ≠ some '*' ∧ x.head? ≠ some '/') ∨
    ∃ x, cs = '/' :: '/' :: '/' :: x ∧ x.head? ≠ some '/'

/-- The texts of white space and of plain comments.  A line comment holds no line end, and a block
comment ends at the first `*/` in it. -/
def Trivia.Spells (cs : List Char) : Trivia → Prop
  | .blank => cs ≠ [] ∧ ∀ c ∈ cs, isLayout c = true
  | .lineComment => (∃ x, cs = '/' :: '/' :: x ∧ '\n' ∉ x) ∧ ¬ OpensDoc cs
  | .blockComment =>
    (∃ x, cs = '/' :: '*' :: (x ++ ['*', '/']) ∧ ¬ ['*', '/'] <:+: x ++ ['*']) ∧ ¬ OpensDoc cs

/-- Texts that are put together from white space and plain comments. -/
def Skipped (cs : List Char) : Prop :=
  ∃ ps : List (List Char), ps.flatten = cs ∧ ∀ p ∈ ps, ∃ k : Trivia, k.Spells p

theorem skipped_nil : Skipped [] := ⟨[], rfl, by simp⟩

theorem Skipped.append {cs p : List Char} {k : Trivia} (h : Skipped cs) (hp : k.Spells p) :
    Skipped (cs ++ p) := by
  obtain ⟨ps, rfl, hs⟩ := h
  refine ⟨ps ++ [p], by simp, fun q hq ↦ ?_⟩
  rcases List.mem_append.1 hq with hq | hq
  · exact hs q hq
  · exact ⟨k, List.mem_singleton.1 hq ▸ hp⟩

/-- A mark is found at its first occurrence. -/
theorem Cut.not_infix_of_through {mark cs a b : List Char} (h : through mark cs = some (a, b))
    (hm : mark ≠ []) : ¬ mark <:+: a.dropLast := by
  induction cs generalizing a b with
  | nil => cases h
  | cons c cs ih =>
    rw [through] at h
    split at h
    · cases h
      intro hi
      have hl := hi.length_le
      have hp := List.length_pos_iff.2 hm
      rw [List.length_dropLast] at hl
      omega
    · next hp =>
      obtain ⟨x, hx, rfl⟩ := behind_eq_some_iff.1 h
      have hne : x ≠ [] := by
        rintro rfl
        exact hm (List.suffix_nil.1 (suffix_of_through hx))
      rw [List.singleton_append, List.dropLast_cons_of_ne_nil hne, List.infix_cons_iff]
      rintro (hi | hi)
      · refine hp (List.isPrefixOf_iff_prefix.2 (hi.trans ?_))
        refine (List.cons_prefix_cons.2 ⟨rfl, ?_⟩)
        exact (List.dropLast_prefix x).trans ⟨b, append_of_through hx⟩
      · exact ih hx hi

namespace Lexeme

variable {text r : List Char}

theorem doc?_eq_none_of_leads {k : Trivia} (h : Leads ⟨.trivia k, text⟩ r) :
    doc? (text ++ r) = none := by
  obtain ⟨c, cs, ht, hs⟩ := h.exists_cons
  simp only at ht
  by_cases hc : c = '/'
  · subst hc
    rw [leads_slash_iff ht] at h
    rcases h with ⟨-, h⟩ | ⟨h, -⟩
    · cases h
    · exact h
  · rw [ht]
    simp [doc?, hc]

theorem spells_blank (h : Leads ⟨.trivia .blank, text⟩ r) : Trivia.blank.Spells text := by
  have hk : blank? (text ++ r) = some (text, r) := cut?_of_first? h
  obtain ⟨c, cs, ht, hs⟩ := h.exists_cons
  simp only at ht
  subst ht
  rw [List.cons_append, blank?] at hk
  split at hk
  · next hc =>
    obtain ⟨x, hx, ht⟩ := Cut.behind_eq_some_iff.1 hk
    obtain ⟨-, rfl⟩ := List.cons.inj ht
    have hx : (cs ++ r).takeWhile isLayout = cs := (Prod.mk.inj (Option.some.inj hx)).1
    refine ⟨by simp, List.forall_mem_cons.2 ⟨hc, fun d hd ↦ ?_⟩⟩
    rw [← hx] at hd
    exact List.mem_takeWhile_imp hd
  · cases hk

theorem spells_lineComment (h : Leads ⟨.trivia .lineComment, text⟩ r) :
    Trivia.lineComment.Spells text := by
  have hk : lineComment? (text ++ r) = some (text, r) := cut?_of_first? h
  have hd := doc?_eq_none_of_leads h
  have hn : ∀ c ∈ r.head?, c = '\n' := fun c hc ↦ h.eq_newline rfl hc
  unfold lineComment? at hk
  split at hk
  · next cs ht =>
    obtain ⟨x, hx, rfl⟩ := Cut.behind_eq_some_iff.1 hk
    have hx : cs.takeWhile (· ≠ '\n') = x := (Prod.mk.inj (Option.some.inj hx)).1
    refine ⟨⟨x, rfl, fun hm ↦ ?_⟩, ?_⟩
    · rw [← hx] at hm
      simpa using List.mem_takeWhile_imp hm
    · rintro (⟨y, hy, -⟩ | ⟨y, hy, hh⟩)
      · cases hy
      · obtain rfl : x = '/' :: y := by simpa using hy
        have hh' : (y ++ r).head? ≠ some '/' := by
          cases y with
          | nil =>
            intro he
            exact absurd (hn '/' he) (by decide)
          | cons c y => simpa using hh
        simp only [List.cons_append, List.nil_append, doc?, if_neg hh'] at hd
        cases hd
  · cases hk

theorem spells_blockComment (h : Leads ⟨.trivia .blockComment, text⟩ r) :
    Trivia.blockComment.Spells text := by
  have hk : blockComment? (text ++ r) = some (text, r) := cut?_of_first? h
  have hd := doc?_eq_none_of_leads h
  unfold blockComment? at hk
  split at hk
  · next cs ht =>
    obtain ⟨x, hx, rfl⟩ := Cut.behind_eq_some_iff.1 hk
    obtain ⟨y, rfl⟩ := Cut.suffix_of_through hx
    have hi := Cut.not_infix_of_through hx (by simp)
    refine ⟨⟨y, rfl, by simpa [List.dropLast_append_of_ne_nil] using hi⟩, ?_⟩
    have hc := Cut.append_of_through hx
    rintro (⟨z, hz, hs, hs'⟩ | ⟨z, hz, -⟩)
    · obtain ⟨w, hw⟩ : ∃ w, y ++ ['*', '/'] = '*' :: w := ⟨z, by simpa using hz⟩
      obtain rfl : z = w := by simpa [hw] using hz.symm
      have hz : z ≠ [] := by
        rintro rfl
        exact absurd (congrArg List.length hw) (by simp)
      obtain ⟨c, z, rfl⟩ := List.exists_cons_of_ne_nil hz
      have hs : c ≠ '*' := by simpa using hs
      have hs' : c ≠ '/' := by simpa using hs'
      -- the comment that was found is one of documentation
      rw [hw] at hx hc hd
      have ht : Cut.through ['*', '/'] (c :: (z ++ r)) = some (c :: z, r) := by
        rw [← hc, List.cons_append, Cut.through, if_neg (by simp [List.isPrefixOf, Ne.symm hs'])]
          at hx
        obtain ⟨v, hv, he⟩ := Cut.behind_eq_some_iff.1 hx
        obtain rfl : c :: z = v := by simpa using he
        exact hv
      simp [doc?, hs, hs', ht, Cut.behind] at hd
    · cases hz
  · cases hk

/-- What is cut off as white space or as a plain comment is that. -/
theorem Leads.spells {k : Trivia} (h : Leads ⟨.trivia k, text⟩ r) : k.Spells text := by
  cases k with
  | blank => exact spells_blank h
  | lineComment => exact spells_lineComment h
  | blockComment => exact spells_blockComment h

theorem text_of_single? {p : Char → Bool} {cs : List Char}
    (h : single? p cs = some (text, r)) : ∃ c, text = [c] ∧ p c = true := by
  cases cs with
  | nil => cases h
  | cons c cs =>
    rw [single?] at h
    split at h
    · next hc =>
      cases h
      exact ⟨c, rfl, hc⟩
    · cases h

theorem Leads.text_opener {d : Delimiter} (h : Leads ⟨.token (.opener d), text⟩ r) :
    text = [d.opener] := by
  obtain ⟨c, ht, hc⟩ := text_of_single? (cut?_of_first? h)
  rw [← beq_iff_eq.1 hc]
  exact ht

theorem Leads.text_closer {d : Delimiter} (h : Leads ⟨.token (.closer d), text⟩ r) :
    text = [d.closer] := by
  obtain ⟨c, ht, hc⟩ := text_of_single? (cut?_of_first? h)
  rw [← beq_iff_eq.1 hc]
  exact ht

end Lexeme

/-! ## Tokens -/

namespace Token

def start (t : Token) : Nat := t.extent.start

def stop (t : Token) : Nat := t.extent.stop

/-- Tokens that lie in a source text in order, from an offset on: each has the text of the stretch
that it occupies, and only white space and plain comments lie around them. -/
def Laid (source : List Char) (offset : Nat) : List Token → Prop
  | [] => offset ≤ source.length ∧ Skipped (stretch source offset source.length)
  | t :: ts =>
    (offset ≤ t.start ∧ Skipped (stretch source offset t.start)) ∧
      (t.start < t.stop ∧ t.text.toList = stretch source t.start t.stop) ∧
        Laid source t.stop ts

/-- A token that is a bracket has the text of that bracket. -/
def SpellsBracket (t : Token) : Prop :=
  ∀ d : Delimiter, (t.kind = .opener d → t.text.toList = [d.opener]) ∧
    (t.kind = .closer d → t.text.toList = [d.closer])

open Lexeme (Chain)

variable {label : Option String} {p : Place} {ls : List Lexeme}

/-- The tokens among lexemes lie where the lexemes are cut off. -/
theorem laid_place {front : List Char} {offset : Nat} (h : Chain ls [])
    (hp : p.offset = front.length) (ho : offset ≤ front.length)
    (hs : Skipped (stretch (front ++ ls.flatMap Lexeme.text) offset front.length)) :
    Laid (front ++ ls.flatMap Lexeme.text) offset (place label p ls) := by
  induction ls generalizing p front offset with
  | nil =>
    rw [List.flatMap_nil, List.append_nil] at hs ⊢
    exact ⟨ho, hs⟩
  | cons l ls ih =>
    obtain ⟨kind, text⟩ := l
    have hp' : (p.after text).offset = (front ++ text).length := by simp [hp]
    have hc : front ++ (⟨kind, text⟩ :: ls : List Lexeme).flatMap Lexeme.text =
        front ++ text ++ ls.flatMap Lexeme.text := by simp
    have ht : stretch (front ++ text ++ ls.flatMap Lexeme.text) front.length
        (front ++ text).length = text := by
      rw [List.append_assoc, List.length_append]
      exact stretch_append _ _ _
    rw [hc] at hs ⊢
    cases kind with
    | trivia k =>
      refine ih h.2 hp' (by simp; omega) ?_
      rw [← stretch_append_stretch _ ho (by simp), ht]
      exact hs.append h.1.spells
    | token k =>
      have hl : 0 < text.length := List.length_pos_iff.2 h.text_ne_nil
      refine ⟨⟨?_, ?_⟩, ⟨?_, ?_⟩, ?_⟩
      · change offset ≤ p.offset
        omega
      · change Skipped (stretch _ offset p.offset)
        rwa [hp]
      · change p.offset < (p.after text).offset
        rw [hp', hp, List.length_append]
        omega
      · change (String.ofList text).toList = stretch _ p.offset (p.after text).offset
        rw [hp', hp, ht, String.toList_ofList]
      · change Laid _ (p.after text).offset _
        refine ih h.2 hp' (by rw [hp']) ?_
        rw [hp', stretch, Nat.sub_self, List.take_zero]
        exact skipped_nil

theorem spellsBracket_place (h : Chain ls []) : ∀ t ∈ place label p ls, t.SpellsBracket := by
  induction ls generalizing p with
  | nil => simp
  | cons l ls ih =>
    obtain ⟨kind, text⟩ := l
    cases kind with
    | trivia k => exact ih h.2
    | token k =>
      refine List.forall_mem_cons.2 ⟨fun d ↦ ⟨?_, ?_⟩, ih h.2⟩
      · rintro rfl
        rw [String.toList_ofList]
        exact h.1.text_opener
      · rintro rfl
        rw [String.toList_ofList]
        exact h.1.text_closer

theorem scan_eq_ok_iff {source : List Char} {tokens : List Token} :
    scan label source = .ok tokens ↔
      ∃ ls, Lexeme.split source = (ls, []) ∧ place label .origin ls = tokens := by
  unfold scan
  rcases Lexeme.split source with ⟨ls, _ | ⟨c, cs⟩⟩
  · simp
  · simp

section Scan

variable {source : List Char} {tokens : List Token} (h : scan label source = .ok tokens)
include h

/-- The tokens of a source text lie in it. -/
theorem laid_of_scan : Laid source 0 tokens := by
  obtain ⟨ls, hs, rfl⟩ := scan_eq_ok_iff.1 h
  obtain ⟨rfl, hc⟩ := Lexeme.split_eq_iff.1 hs
  exact laid_place (p := .origin) hc (List.length_nil).symm (Nat.le_refl 0) skipped_nil

theorem spellsBracket_of_scan : ∀ t ∈ tokens, t.SpellsBracket := by
  obtain ⟨ls, hs, rfl⟩ := scan_eq_ok_iff.1 h
  exact spellsBracket_place (Lexeme.split_eq_iff.1 hs).2

end Scan

end Token

end ErrorDerive
