import ErrorDerive.Literal.Quote
import ErrorDerive.Proofs.Lexing.Context

/-!
# Quoted text

What `quote` writes is one string literal, whatever follows it, and its value is the text.  Both
are shown one character of the text at a time.
-/

namespace ErrorDerive

namespace Lexeme

theorem stringRest?_quote (cs : List Char) : stringRest? ('"' :: cs) = some (['"'], cs) := by
  cases cs <;> simp [stringRest?]

theorem stringRest?_backslash (d : Char) (cs : List Char) :
    stringRest? ('\\' :: d :: cs) = Cut.behind ['\\', d] (stringRest? cs) := by
  simp [stringRest?]

theorem stringRest?_of_ne {c : Char} (hq : c ≠ '"') (hb : c ≠ '\\') (cs : List Char) :
    stringRest? (c :: cs) = Cut.behind [c] (stringRest? cs) := by
  cases cs <;> simp [stringRest?, hq, hb, Cut.behind]

theorem stringRest?_append_of_forall {cs : List Char} (h : ∀ c ∈ cs, c ≠ '"' ∧ c ≠ '\\')
    (r : List Char) : stringRest? (cs ++ r) = Cut.behind cs (stringRest? r) := by
  induction cs with
  | nil => simp [Cut.behind]
  | cons c cs ih =>
    obtain ⟨⟨hq, hb⟩, hs⟩ := List.forall_mem_cons.1 h
    rw [List.cons_append, stringRest?_of_ne hq hb, ih hs]
    simp [Cut.behind, Function.comp_def]

end Lexeme

namespace Literal

/-! ## One character -/

/-- A character stands for itself, has an escape of one letter, or is a control character that is
written as its number. -/
theorem escaped_cases (c : Char) :
    (c ≠ '"' ∧ c ≠ '\\' ∧ escaped c = [c]) ∨
      (∃ d, simpleEscape? d = some c ∧ escaped c = ['\\', d]) ∨
      (c.toNat < 0x80 ∧ escaped c = '\\' :: 'u' :: '{' :: Text.hex 0 c.toNat ++ ['}']) := by
  by_cases h₁ : c = '\\'
  · exact .inr (.inl ⟨'\\', by simp [h₁, simpleEscape?], by simp [h₁, escaped]⟩)
  by_cases h₂ : c = '"'
  · exact .inr (.inl ⟨'"', by simp [h₂, simpleEscape?], by simp [h₂, escaped]⟩)
  by_cases h₃ : c = '\n'
  · exact .inr (.inl ⟨'n', by simp [h₃, simpleEscape?], by simp [h₃, escaped]⟩)
  by_cases h₄ : c = '\r'
  · exact .inr (.inl ⟨'r', by simp [h₄, simpleEscape?], by simp [h₄, escaped]⟩)
  by_cases h₅ : c = '\t'
  · exact .inr (.inl ⟨'t', by simp [h₅, simpleEscape?], by simp [h₅, escaped]⟩)
  by_cases h₆ : c = '\x00'
  · exact .inr (.inl ⟨'0', by simp [h₆, simpleEscape?], by simp [h₆, escaped]⟩)
  by_cases h₇ : c.toNat < 0x20 ∨ c.toNat = 0x7F
  · exact .inr (.inr ⟨by omega, by simp [escaped, h₁, h₂, h₃, h₄, h₅, h₆, h₇]⟩)
  · exact .inl ⟨h₂, h₁, by simp [escaped, h₁, h₂, h₃, h₄, h₅, h₆, h₇]⟩

/-- The digits of an ASCII character are digits of an escape, and stand for it. -/
theorem hex_ascii {n : Nat} (hn : n < 0x80) :
    (∀ c ∈ Text.hex 0 n, isScalarDigit c = true ∧ c ≠ '_') ∧
      1 ≤ (Text.hex 0 n).length ∧ (Text.hex 0 n).length ≤ 8 ∧ Text.ofHex (Text.hex 0 n) = n := by
  have hs : ∀ m < 0x80, (Text.hex 0 m).all (fun c ↦ isScalarDigit c && c != '_') = true ∧
      1 ≤ (Text.hex 0 m).length ∧ (Text.hex 0 m).length ≤ 8 ∧ Text.ofHex (Text.hex 0 m) = m := by
    decide
  obtain ⟨hc, hl⟩ := hs n hn
  exact ⟨by simpa using hc, hl⟩

theorem scalarEscape_hex {n : Nat} (hn : n < 0x80) :
    scalarEscape (Text.hex 0 n) = .ok (Char.ofNat n) := by
  obtain ⟨hd, h₁, -, hv⟩ := hex_ascii hn
  have hf : (Text.hex 0 n).filter (· ≠ '_') = Text.hex 0 n :=
    List.filter_eq_self.2 fun c hc ↦ by simpa using (hd c hc).2
  have hne : Text.hex 0 n ≠ [] := List.length_pos_iff.1 h₁
  have hs : n < 0xD800 := by omega
  simp only [scalarEscape, hf, hv]
  simp [hne, hs]

theorem scalarBody?_of_forall {ds : List Char} (hd : ∀ c ∈ ds, isScalarDigit c = true)
    (h₁ : 1 ≤ ds.length) (h₈ : ds.length ≤ 8) (r : List Char) :
    scalarBody? ('{' :: (ds ++ '}' :: r)) = some (ds, r) := by
  have hb : isScalarDigit '}' = false := by decide
  have ht : (ds ++ '}' :: r).takeWhile isScalarDigit = ds := by
    rw [List.takeWhile_append_of_pos hd]
    simp [hb]
  have hr : (ds ++ '}' :: r).dropWhile isScalarDigit = '}' :: r := by
    rw [List.dropWhile_append_of_pos hd]
    simp [hb]
  simp [scalarBody?, ht, hr, h₁, h₈]

theorem escape_of_simpleEscape? {c d : Char} (h : simpleEscape? d = some c) (r : List Char) :
    escape d r = .ok ([c], r) := by
  unfold simpleEscape? at h
  split at h <;> cases h <;> rfl

theorem unescapeChars_backslash {d : Char} {cs t rest : List Char}
    (h : escape d cs = .ok (t, rest)) :
    unescapeChars ('\\' :: d :: cs) = (unescapeChars rest).map (t ++ ·) := by
  rw [unescapeChars, if_pos rfl]
  split
  · next h' => cases h.symm.trans h'; rfl
  · next h' => cases h.symm.trans h'

theorem unescapeChars_of_ne {c : Char} (hb : c ≠ '\\') (cs : List Char) :
    unescapeChars (c :: cs) = (unescapeChars cs).map (c :: ·) := by
  cases cs with
  | nil => simp [unescapeChars, Except.map]
  | cons d cs => rw [unescapeChars, if_neg hb]

theorem unescapeChars_escaped (c : Char) (r : List Char) :
    unescapeChars (escaped c ++ r) = (unescapeChars r).map (c :: ·) := by
  rcases escaped_cases c with ⟨-, hb, he⟩ | ⟨d, hd, he⟩ | ⟨hc, he⟩
  · rw [he]
    exact unescapeChars_of_ne hb r
  · rw [he]
    exact unescapeChars_backslash (escape_of_simpleEscape? hd r)
  · obtain ⟨hd, h₁, h₈, -⟩ := hex_ascii hc
    have hb := scalarBody?_of_forall (fun d hx ↦ (hd d hx).1) h₁ h₈ r
    have hx : escape 'u' ('{' :: (Text.hex 0 c.toNat ++ '}' :: r)) = .ok ([c], r) := by
      simp [escape, hb, scalarEscape_hex hc, Except.map]
    rw [he]
    simpa using unescapeChars_backslash hx

/-- A string goes on behind an escaped character. -/
theorem stringRest?_escaped (c : Char) (r : List Char) :
    Lexeme.stringRest? (escaped c ++ r) = Cut.behind (escaped c) (Lexeme.stringRest? r) := by
  rcases escaped_cases c with ⟨hq, hb, he⟩ | ⟨d, -, he⟩ | ⟨hc, he⟩
  · rw [he]
    exact Lexeme.stringRest?_of_ne hq hb r
  · rw [he]
    exact Lexeme.stringRest?_backslash d r
  · have hd : ∀ d ∈ '{' :: Text.hex 0 c.toNat ++ ['}'], d ≠ '"' ∧ d ≠ '\\' := by
      have hx := (hex_ascii hc).1
      intro d hd
      simp only [List.cons_append, List.mem_cons, List.mem_append, List.not_mem_nil,
        or_false] at hd
      rcases hd with rfl | hd | rfl
      · decide
      · constructor <;> (rintro rfl; exact absurd (hx _ hd).1 (by decide))
      · decide
    rw [he, List.cons_append, List.cons_append, List.cons_append, List.cons_append,
      Lexeme.stringRest?_backslash, ← List.cons_append, ← List.cons_append,
      Lexeme.stringRest?_append_of_forall hd]
    simp [Cut.behind, Function.comp_def]

/-! ## A whole text -/

theorem unescapeChars_flatMap_escaped (cs : List Char) :
    unescapeChars (cs.flatMap escaped) = .ok cs := by
  induction cs with
  | nil => simp [unescapeChars]
  | cons c cs ih => rw [List.flatMap_cons, unescapeChars_escaped, ih]; rfl

theorem stringRest?_flatMap_escaped (cs r : List Char) :
    Lexeme.stringRest? (cs.flatMap escaped ++ '"' :: r) =
      some (cs.flatMap escaped ++ ['"'], r) := by
  induction cs with
  | nil => exact Lexeme.stringRest?_quote r
  | cons c cs ih =>
    rw [List.flatMap_cons, List.append_assoc, stringRest?_escaped, ih]
    simp [Cut.behind]

@[simp] theorem toList_quote (s : String) :
    (quote s).toList = '"' :: (quoteBody s ++ ['"']) := by
  simp [quote]

/-- The value of a quoted text is the text. -/
theorem value_quote (s : String) : value .string (quote s) = .ok s := by
  simp only [value, toList_quote, List.drop_succ_cons, List.drop_zero, List.dropLast_concat,
    quoteBody, unescapeChars_flatMap_escaped]
  exact congrArg Except.ok String.ofList_toList

/-- A quoted text is one literal, whatever follows it. -/
theorem leads_quote (s : String) (r : List Char) :
    Lexeme.Leads ⟨.token (.leaf (.literal .string)), (quote s).toList⟩ r := by
  rw [Lexeme.leads_iff_of_sole (toList_quote s) LexemeKind.sole_string, toList_quote, quoteBody]
  simp only [LexemeKind.cut?, List.cons_append, List.append_assoc, List.nil_append,
    Lexeme.string?, stringRest?_flatMap_escaped]
  rfl

end Literal

end ErrorDerive
