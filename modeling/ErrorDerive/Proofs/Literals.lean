import ErrorDerive.Proofs.Lexing.Run
import ErrorDerive.Proofs.Quoting
import ErrorDerive.Tree.Folding
import Mathlib.Data.List.Infix

/-!
# Literals read back

A literal that is written for a text is read as this literal alone, and its value is the text again
(`Literal.Denotes`).  Quoting works for every text; a raw string works for every text that does not
hold its end.
-/

namespace ErrorDerive

/-- A text that is one leaf is read as that leaf. -/
theorem Tree.read_of_leads {text : String} {k : LeafKind}
    (h : Lexeme.Leads ⟨.token (.leaf k), text.toList⟩ []) (label : Option String) :
    read label text =
      .ok [.leaf ⟨named label, .origin, .endOf text.toList⟩ (.ofLexeme text false k)] := by
  have hs : Lexeme.split text.toList = ([⟨.token (.leaf k), text.toList⟩], []) :=
    Lexeme.split_eq_iff.2 ⟨by simp, h, trivial⟩
  simp only [read, Token.scan, hs, Token.place, fold, Token.markAt, String.ofList_toList,
    List.reverse_cons, List.reverse_nil, List.nil_append]
  rfl

/-! ## Raw strings -/

/-- A mark is found at the end of a text that does not hold it before, provided that its first
character does not come again in it. -/
theorem Cut.through_append_mark {c : Char} {mark cs : List Char} (hc : c ∉ mark)
    (h : ¬ c :: mark <:+: cs) (r : List Char) :
    through (c :: mark) (cs ++ (c :: mark ++ r)) = some (cs ++ c :: mark, r) := by
  induction cs with
  | nil => simp [through, List.isPrefixOf_iff_prefix]
  | cons d cs ih =>
    have hn : ¬ c :: mark <+: d :: cs ++ (c :: mark ++ r) := by
      rintro ⟨z, hz⟩
      rcases List.append_eq_append_iff.1 hz with ⟨x, hx, -⟩ | ⟨x, hx, hr⟩
      · exact h (List.IsPrefix.isInfix ⟨x, hx.symm⟩)
      · -- the mark would start in the text and go on into the mark behind it
        cases x with
        | nil => exact h (by rw [hx, List.append_nil])
        | cons e x =>
          have he : c = e := (List.cons.inj hr).1
          have hm : mark = cs ++ e :: x := (List.cons.inj hx).2
          exact hc (by simp [hm, he])
    rw [List.infix_cons_iff, not_or] at h
    rw [List.cons_append, through, if_neg (by rwa [List.isPrefixOf_iff_prefix]), ih h.2]
    rfl

namespace Literal

/-- A text as a raw string, with hashes around its quotes. -/
def rawQuote (n : Fin 3) (s : String) : String :=
  String.ofList ((Bracketed.raw n).opening ++ (s.toList ++ (Bracketed.raw n).closing))

variable {n : Fin 3} {s : String}

theorem toList_rawQuote (n : Fin 3) (s : String) :
    (rawQuote n s).toList = 'r' :: (List.replicate n '#' ++
      '"' :: (s.toList ++ '"' :: List.replicate n '#')) := by
  simp [rawQuote, Bracketed.opening, Bracketed.closing]

/-- A raw string is one literal, whatever follows it, if its text does not hold its end. -/
theorem leads_rawQuote (h : ¬ (Bracketed.raw n).closing <:+: s.toList) (r : List Char) :
    Lexeme.Leads ⟨.token (.leaf (.literal .rawString)), (rawQuote n s).toList⟩ r := by
  rw [Lexeme.leads_r_iff (toList_rawQuote n s)]
  refine .inl ⟨?_, rfl⟩
  have hc : '"' ∉ List.replicate n '#' := by simp [List.mem_replicate]
  rw [rawQuote, String.toList_ofList, List.append_assoc, Lexeme.rawString?_raw, List.append_assoc,
    Bracketed.closing, Cut.through_append_mark hc h]
  rfl

/-- The value of a raw string is its text. -/
theorem value_rawQuote (n : Fin 3) (s : String) : value .rawString (rawQuote n s) = .ok s := by
  have ht : (List.replicate n '#' ++ '"' :: (s.toList ++ '"' :: List.replicate n '#')).takeWhile
      (· = '#') = List.replicate n '#' := by
    rw [List.takeWhile_append_of_pos (by simp [List.mem_replicate])]
    simp
  have hd : (rawQuote n s).toList.drop (2 + n) = s.toList ++ '"' :: List.replicate n '#' := by
    have hc : (rawQuote n s).toList = ('r' :: (List.replicate n '#' ++ ['"'])) ++
        (s.toList ++ '"' :: List.replicate n '#') := by simp [toList_rawQuote]
    rw [hc]
    exact List.drop_left' (by simp; omega)
  have hl : (rawQuote n s).toList.length - 3 - 2 * n = s.toList.length := by
    simp only [toList_rawQuote, List.length_cons, List.length_append, List.length_replicate]
    omega
  have hb : rawBody (rawQuote n s).toList = s.toList := by
    rw [rawBody, toList_rawQuote, List.drop_succ_cons, List.drop_zero, ht, ← toList_rawQuote,
      List.length_replicate, hd, hl, List.take_left]
  rw [value, hb, String.ofList_toList]

/-! ## Literals and what they denote -/

/-- A text that is read as one literal of a kind, which is all of it, and that has a value. -/
def Denotes (kind : LiteralKind) (text value : String) : Prop :=
  ∀ label, ∃ l : Lit, Tree.read label text = .ok [l.toTree] ∧
    l.kind = kind ∧ l.text = text ∧ l.value = .ok value

theorem denotes_of_leads {kind : LiteralKind} {text v : String}
    (h : Lexeme.Leads ⟨.token (.leaf (.literal kind)), text.toList⟩ [])
    (hv : value kind text = .ok v) : Denotes kind text v :=
  fun label ↦ ⟨⟨⟨named label, .origin, .endOf text.toList⟩, kind, text⟩,
    Tree.read_of_leads h label, rfl, rfl, hv⟩

/-- Literals read back: what stands between the quotes of a quoted text is decoded to the text, and
the literal that a text is quoted as denotes it; so does the raw string of any text that does not
hold the end of it. -/
theorem denotes_written (s : String) :
    unescape (String.ofList ((quote s).toList.drop 1).dropLast) = .ok s ∧
      Denotes .string (quote s) s ∧
        ∀ n : Fin 3, ¬ (Bracketed.raw n).closing <:+: s.toList →
          Denotes .rawString (rawQuote n s) s := by
  refine ⟨?_, denotes_of_leads (leads_quote s []) (value_quote s),
    fun n h ↦ denotes_of_leads (leads_rawQuote h []) (value_rawQuote n s)⟩
  rw [unescape, String.toList_ofList, toList_quote, List.drop_succ_cons, List.drop_zero,
    List.dropLast_concat, quoteBody, unescapeChars_flatMap_escaped]
  exact congrArg Except.ok String.ofList_toList

/-- A text with a backslash at its end, a line end, and quotes that one hash follows. -/
theorem denotes_written_hashes :
    ¬ (Bracketed.raw 2).closing <:+: "\"# \n\"\"#\\".toList ∧
      Denotes .string (quote "\"# \n\"\"#\\") "\"# \n\"\"#\\" ∧
        Denotes .rawString (rawQuote 2 "\"# \n\"\"#\\") "\"# \n\"\"#\\" := by
  have h : ¬ (Bracketed.raw 2).closing <:+: "\"# \n\"\"#\\".toList := by decide
  obtain ⟨-, hq, hr⟩ := denotes_written "\"# \n\"\"#\\"
  exact ⟨h, hq, hr 2 h⟩

end Literal

end ErrorDerive
