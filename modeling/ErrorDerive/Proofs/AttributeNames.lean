import ErrorDerive.Proofs.Printing.Drafts
import ErrorDerive.Proofs.Settings
import ErrorDerive.Proofs.Sites

/-!
# Names of settings as attributes

Settings take identifiers of any script as names, while the words of a source text are ASCII.  So a
name of settings can be written as an attribute exactly if all of its characters are ASCII; written
with any other name, an attribute is refused at the first character that is not.
-/

namespace ErrorDerive

/-! ## ASCII -/

namespace Text

/-- Whether a character is one of the first 128. -/
def isAscii (c : Char) : Bool := decide (c.toNat < 0x80)

/-- Ranges that start too late for a character can be left out. -/
theorem Ranges.has_filter {b : Nat} {c : Char} (h : c.toNat < b) (rs : Ranges) :
    Ranges.has (rs.filter fun r ↦ decide (r.1 < b)) c = rs.has c := by
  rw [Bool.eq_iff_iff, has_eq_true_iff, has_eq_true_iff]
  constructor
  · rintro ⟨r, hr, hc⟩
    exact ⟨r, (List.mem_filter.1 hr).1, hc⟩
  · rintro ⟨r, hr, hc⟩
    exact ⟨r, List.mem_filter.2 ⟨hr, decide_eq_true (by omega)⟩, hc⟩

/-- An ASCII character has its place in an identifier exactly if it has it in a word. -/
theorem isIdentifier_classes_of_isAscii {c : Char} (h : isAscii c = true) :
    isIdentifierStart c = isNameStart c ∧ isIdentifierContinue c = isNameRest c := by
  have hs : identifierStart.filter (fun r ↦ decide (r.1 < 0x80)) =
      [(0x41, 0x5A), (0x5F, 0x5F), (0x61, 0x7A)] := by
    decide +kernel
  have he : identifierExtra.filter (fun r ↦ decide (r.1 < 0x80)) = [(0x30, 0x39)] := by
    decide +kernel
  have ht : ∀ n : Fin 0x80,
      Ranges.has [(0x41, 0x5A), (0x5F, 0x5F), (0x61, 0x7A)] (Char.ofNat n) =
          isNameStart (Char.ofNat n) ∧
        (Ranges.has [(0x41, 0x5A), (0x5F, 0x5F), (0x61, 0x7A)] (Char.ofNat n) ||
          Ranges.has [(0x30, 0x39)] (Char.ofNat n)) = isNameRest (Char.ofNat n) := by
    decide +kernel
  have hc := ht ⟨c.toNat, of_decide_eq_true h⟩
  rwa [Char.ofNat_toNat, ← hs, ← he, Ranges.has_filter (of_decide_eq_true h),
    Ranges.has_filter (of_decide_eq_true h)] at hc

end Text

open Text (isAscii)

theorem isAscii_of_isNameRest {c : Char} (h : isNameRest c = true) : isAscii c = true := by
  refine decide_eq_true ?_
  rcases Bool.or_eq_true_iff.1 h with h | h
  · rcases Bool.or_eq_true_iff.1 h with h | h
    · rcases Bool.or_eq_true_iff.1 h with h | h
      · have hz : c.toNat ≤ 'Z'.toNat := (of_decide_eq_true h).2
        exact Nat.lt_of_le_of_lt hz (by decide)
      · have hz : c.toNat ≤ 'z'.toNat := of_decide_eq_true (Bool.and_eq_true_iff.1 h).2
        exact Nat.lt_of_le_of_lt hz (by decide)
    · exact Nat.lt_of_le_of_lt (Char.isDigit_iff_toNat.1 h).2 (by decide)
  · rw [beq_iff_eq.1 h]
    decide

theorem isAscii_of_mem {c : Char} {cs : List Char} (h : c ∈ cs) (hs : cs.all isAscii = true) :
    isAscii c = true := List.all_eq_true.1 hs c h

theorem isAscii_of_isLayout {c : Char} (h : isLayout c = true) : isAscii c = true :=
  isAscii_of_mem (isLayout_iff.1 h) (by decide)

/-- A text is ASCII, or there is a first character in it that is not. -/
theorem all_isAscii_or (cs : List Char) :
    cs.all isAscii = true ∨
      ∃ front x back, cs = front ++ x :: back ∧ front.all isAscii = true ∧ isAscii x = false := by
  cases h : cs.find? (!isAscii ·) with
  | none => exact .inl (by simpa using h)
  | some x =>
    obtain ⟨hx, front, back, hs, hf⟩ := List.find?_eq_some_iff_append.1 h
    exact .inr ⟨front, x, back, hs, by simpa using hf, by simpa using hx⟩

/-- Lexemes of every class start with an ASCII character. -/
theorem LexemeKind.isAscii_of_starts {c : Char} {k : LexemeKind} (h : k.starts c = true) :
    isAscii c = true := by
  match k with
  | .trivia .blockComment | .trivia .lineComment | .token (.leaf .doc)
  | .token (.leaf (.literal .rawString)) | .token (.leaf (.literal .string))
  | .token (.leaf (.literal .character)) | .token (.leaf .lifetime) =>
    rw [beq_iff_eq.1 h]
    decide
  | .trivia .blank => exact isAscii_of_isLayout h
  | .token (.leaf (.literal .number)) => exact isAscii_of_isNameRest (isNameRest_of_isDigit h)
  | .token (.leaf .ident) => exact isAscii_of_isNameRest (isNameRest_of_isNameStart h)
  | .token (.leaf .punct) =>
    have hm : c ∈ marks := List.contains_iff_mem.1 h
    exact isAscii_of_mem hm (by decide)
  | .token (.opener d) =>
    rw [beq_iff_eq.1 h]
    cases d <;> decide
  | .token (.closer d) =>
    rw [beq_iff_eq.1 h]
    cases d <;> decide

namespace Lexeme

variable {c : Char} {cs front back : List Char}

/-- A text that does not start with an ASCII character is not cut any further. -/
theorem split_of_not_isAscii (h : isAscii c = false) : split (c :: cs) = ([], c :: cs) := by
  have hn : first? (c :: cs) = none := by
    have hf : LexemeKind.order.filter (·.starts c) = [] := by
      refine List.filter_eq_nil_iff.2 fun k _ hk ↦ ?_
      rw [LexemeKind.isAscii_of_starts hk] at h
      cases h
    rw [first?_cons, hf]
    rfl
  rw [split]
  split
  · rfl
  · next he => cases hn.symm.trans he

/-! ## Names in two alphabets -/

/-- What comes first in an identifier and is ASCII makes a word, if there is any of it. -/
theorem isName_of_isIdentifier {a : String} (h : Text.isIdentifier a = true)
    (hs : a.toList = front ++ back) (hne : front ≠ []) (hf : front.all isAscii = true) :
    isName front = true := by
  obtain ⟨c, cs, rfl⟩ := List.exists_cons_of_ne_nil hne
  rw [Text.isIdentifier, hs] at h
  obtain ⟨hc, hr⟩ := Bool.and_eq_true_iff.1 h
  obtain ⟨hca, hra⟩ := List.forall_mem_cons.1 (List.all_eq_true.1 hf)
  refine isName_cons.2 ⟨(Text.isIdentifier_classes_of_isAscii hca).1 ▸ hc, fun d hd ↦ ?_⟩
  rw [← (Text.isIdentifier_classes_of_isAscii (hra d hd)).2]
  exact List.all_eq_true.1 hr d (List.mem_append_left _ hd)

/-- Nothing runs into a character that is not ASCII. -/
theorem ofChar_of_not_isAscii (h : isAscii c = false) : Edge.ofChar c = .solid := by
  have hl : ¬ isLayout c = true := by
    intro hl
    rw [isAscii_of_isLayout hl] at h
    cases h
  have hw : ¬ (isNameRest c || ['"', '\'', '#', '/', '*'].contains c) = true := by
    intro hw
    have ha : isAscii c = true := by
      rcases Bool.or_eq_true_iff.1 hw with hw | hw
      · exact isAscii_of_isNameRest hw
      · exact isAscii_of_mem (List.contains_iff_mem.1 hw) (by decide)
    rw [ha] at h
    cases h
  rw [Edge.ofChar, if_neg hl, if_neg hw]

/-- The lexemes of an attribute up to where its name stops to be ASCII. -/
theorem split_attribute_of_not_isAscii (hn : front = [] ∨ isName front = true)
    (h : isAscii c = false) (cs : List Char) :
    ∃ ls : List Lexeme, ls.flatMap text = '#' :: '[' :: front ∧
      split ('#' :: '[' :: front ++ c :: cs) = (ls, c :: cs) := by
  have hr : Edge.word.Meets (c :: cs) := by
    rintro _ ⟨⟩
    rw [ofChar_of_not_isAscii h]
    rfl
  obtain ⟨ns, rfl, hc⟩ : ∃ ns : List Lexeme, front = ns.flatMap text ∧ Chain ns (c :: cs) := by
    rcases hn with rfl | hn
    · exact ⟨[], rfl, trivial⟩
    · exact ⟨[⟨.token (.leaf .ident), front⟩], by simp,
        leads_of_meets (leads_of_isIdent (isIdent_of_isName hn)) rfl hr, trivial⟩
  have hl : Chain (⟨.token (.leaf .punct), ['#']⟩ :: ⟨.token (.opener .bracket), ['[']⟩ :: ns)
      (c :: cs) :=
    ⟨leads_of_meets (by decide) rfl (Edge.meets_solid _), leads_opener .bracket _, hc⟩
  have hx := split_of_chain hl
  rw [split_of_not_isAscii h, List.append_nil] at hx
  exact ⟨_, by simp, hx⟩

end Lexeme

/-! ## Attributes with a configured name -/

namespace Settings

variable {c : Changes} {s : Settings} {a : String} {label : Option String}

/-- Whether an attribute of a name that stands alone is read as one, without arguments, and nothing
else. -/
def Usable (label : Option String) (a : String) : Prop :=
  ∃ ts x d, Tree.read label ("#[" ++ a ++ "]") = .ok ts ∧
    Parse.attributes (Cursor.ofSource label ("#[" ++ a ++ "]") ts) = (.ok [x], d) ∧
    d.rest = [] ∧ x.isBare = true ∧ x.name = a

theorem usable_of_isName (h : Lexeme.isName a.toList = true) : Usable label a := by
  have hp : Phrase .word .solid (Form.attribute a Form.nothing) ("#[" ++ a ++ "]") :=
    (Phrase.ident (Lexeme.isIdent_of_isName h)).before_nothing.attributed
  obtain ⟨ts, ht, hf⟩ := hp.exists_read label
  have hc : (Cursor.ofSource label ("#[" ++ a ++ "]") ts).rest = ts := rfl
  obtain ⟨e, joint, e', e'', us, y, rfl, hu⟩ := Tree.Has.exists_attribute ⟨none, hf⟩
  obtain rfl := hu.eq_nil
  obtain ⟨_, d, hd, ⟨x, rfl, hn, hb⟩, hr⟩ := Parse.reaches_attributes_one
    (Parse.reaches_attribute? hc (Parse.reaches_attributeContent_bare rfl)) (by simp)
  exact ⟨_, x, d, ht, hd, hr, hb, hn⟩

/-- A name that is an identifier but not ASCII cannot be read. -/
theorem read_of_not_isAscii (h : Text.isIdentifier a = true) {front back : List Char} {x : Char}
    (hs : a.toList = front ++ x :: back) (hf : front.all isAscii = true)
    (hx : isAscii x = false) :
    Tree.read label ("#[" ++ a ++ "]") =
      .error ⟨.unlexable x, ⟨label, some 1, some (front.length + 3), none, none⟩⟩ := by
  have hn : front = [] ∨ Lexeme.isName front = true :=
    or_iff_not_imp_left.2 fun hne ↦ Lexeme.isName_of_isIdentifier h hs hne hf
  obtain ⟨ls, hl, hsp⟩ := Lexeme.split_attribute_of_not_isAscii hn hx (back ++ [']'])
  have ha : ("#[" ++ a ++ "]").toList = '#' :: '[' :: front ++ x :: (back ++ [']']) := by
    simp [hs]
  have hm : '\n' ∉ '#' :: '[' :: front := by
    rcases hn with rfl | hn
    · decide
    · have hr : '\n' ∉ front := fun hm ↦
        absurd (Lexeme.isNameRest_of_isName hn hm) (by decide)
      simp [hr]
  have hline : (Place.origin.after ('#' :: '[' :: front)).line = 1 := by
    rw [Place.line_after, List.count_eq_zero_of_not_mem hm]
    rfl
  have hcol : (Place.origin.after ('#' :: '[' :: front)).column = front.length + 3 := by
    rw [Place.column_after _ hm]
    simp [Place.origin]
    omega
  rw [Tree.read, Token.scan, ha, hsp]
  simp only [hl, hline, hcol]
  rfl

/-- A name of settings can be used exactly if it is ASCII.  The source of an attribute with any
other name is refused at the first character that is not. -/
theorem usable_iff_isAscii (h : ofChanges c = .ok s) (ha : a ∈ s.names) (label : Option String) :
    (Usable label a ↔ a.toList.all isAscii = true) ∧
      ∀ front x back, a.toList = front ++ x :: back → front.all isAscii = true →
        isAscii x = false →
        Tree.read label ("#[" ++ a ++ "]") =
          .error ⟨.unlexable x, ⟨label, some 1, some (front.length + 3), none, none⟩⟩ := by
  have hi : Text.isIdentifier a = true := ((override_eq_ok_iff.1 h).1.admissible a ha).1
  refine ⟨⟨?_, fun hall ↦ ?_⟩, fun front x back hs hf hx ↦ read_of_not_isAscii hi hs hf hx⟩
  · rintro ⟨ts, -, -, ht, -⟩
    refine (all_isAscii_or a.toList).resolve_right ?_
    rintro ⟨front, x, back, hs, hf, hx⟩
    cases ht.symm.trans (read_of_not_isAscii hi hs hf hx)
  · refine usable_of_isName (Lexeme.isName_of_isIdentifier hi (List.append_nil _).symm ?_ hall)
    intro hn
    rw [Text.isIdentifier, hn] at hi
    cases hi

/-- Of the names of settings that are accepted, short ones, a keyword and one that starts as a raw
string does can be used; one with an accent cannot, and its attribute is refused at the accent. -/
theorem usable_iff_isAscii_accented :
    ∃ s, ofChanges { messageNames := some ["r", "raw"], noDisplayName := some "tu_é9" } = .ok s ∧
      Usable none "r" ∧ Usable none "raw" ∧ Usable none "from" ∧ ¬ Usable none "tu_é9" ∧
      Tree.read none "#[tu_é9]" =
        .error ⟨.unlexable 'é', ⟨none, some 1, some 6, none, none⟩⟩ := by
  have h : ofChanges { messageNames := some ["r", "raw"], noDisplayName := some "tu_é9" } =
      .ok { messageNames := ["r", "raw"], noDisplayName := "tu_é9" } := by
    decide +kernel
  obtain ⟨hu, hr⟩ := usable_iff_isAscii h (a := "tu_é9") (by decide) none
  refine ⟨_, h, ?_, ?_, ?_, fun hx ↦ absurd (hu.1 hx) (by decide), ?_⟩
  · exact (usable_iff_isAscii h (by decide) none).1.2 (by decide)
  · exact (usable_iff_isAscii h (by decide) none).1.2 (by decide)
  · exact (usable_iff_isAscii h (by decide) none).1.2 (by decide)
  · exact hr ['t', 'u', '_'] 'é' ['9'] (by decide) (by decide) (by decide)

end Settings

end ErrorDerive
