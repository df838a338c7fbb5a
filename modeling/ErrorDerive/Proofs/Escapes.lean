import ErrorDerive.Proofs.Nesting
import ErrorDerive.Proofs.Parsing.Steps
import ErrorDerive.Proofs.Quoting
import Mathlib.Data.List.TakeWhile

/-!
# Escapes in the literals of a source

A string ends at the first quote that no backslash takes along, whatever the backslash means;
escapes are interpreted later, and may be longer than the pair of characters that the first pass
skips.  Both passes agree on where an escape ends: a string of a source has a value exactly if its
body is put together from characters and escapes by the grammar, and the value is what these stand
for (`value_of_read`).
-/

namespace ErrorDerive

theorem Lexeme.literal?_eq_some_iff {l : Lexeme} {k : LiteralKind} {text : String} :
    l.literal? = some (k, text) ↔
      l.kind = .token (.leaf (.literal k)) ∧ String.ofList l.text = text := by
  unfold literal?
  split
  · simp
  · next h =>
    refine ⟨fun hx ↦ (nomatch hx), fun hx ↦ ?_⟩
    exact absurd (congrArg (mk · l.text) hx.1) (h k l.text)

namespace Literal

variable {c d : Char} {e t cs body rest v : List Char}

/-! ## The grammar of bodies -/

/-- The escapes of one letter, with what they stand for. -/
def simpleEscapes : List (Char × Char) :=
  [('n', '\n'), ('r', '\r'), ('t', '\t'), ('0', '\x00'), ('\\', '\\'), ('\'', '\''), ('"', '"')]

/-- An escape that stands for a character, without its backslash. -/
inductive Escape : List Char → Char → Prop
  | simple {d c : Char} (h : (d, c) ∈ simpleEscapes) : Escape [d] c
  | hex {a b : Char} (ha : Text.isHexDigit a = true) (hb : Text.isHexDigit b = true)
      (h : Text.ofHex [a, b] ≤ 0x7F) : Escape ['x', a, b] (Char.ofNat (Text.ofHex [a, b]))
  | scalar {ds : List Char} (hd : ∀ c ∈ ds, Text.isHexDigit c = true ∨ c = '_')
      (hl : 1 ≤ ds.length ∧ ds.length ≤ 8) (hx : ∃ c ∈ ds, Text.isHexDigit c = true)
      (hv : (Text.ofHex (ds.filter (· ≠ '_'))).isValidChar) :
      Escape ('u' :: '{' :: (ds ++ ['}'])) (Char.ofNat (Text.ofHex (ds.filter (· ≠ '_'))))

/-- The body of a string and its value, piece by piece.  A backslash at the end of a line goes with
all white space behind it, and stands for nothing. -/
inductive Decodes : List Char → List Char → Prop
  | nil : Decodes [] []
  | plain {c : Char} {cs v : List Char} (hb : c ≠ '\\') (hq : c ≠ '"') (h : Decodes cs v) :
      Decodes (c :: cs) (c :: v)
  | escape {e : List Char} {c : Char} {cs v : List Char} (he : Escape e c) (h : Decodes cs v) :
      Decodes ('\\' :: (e ++ cs)) (c :: v)
  | continuation {ws cs v : List Char} (hw : ∀ c ∈ ws, Text.isBlank c = true)
      (hn : ∀ c ∈ cs.head?, Text.isBlank c = false) (h : Decodes cs v) :
      Decodes ('\\' :: '\n' :: (ws ++ cs)) v

/-- A body as strings are delimited: each backslash takes the character behind it along, and no
quote stands alone. -/
inductive Paired : List Char → Prop
  | nil : Paired []
  | plain {c : Char} {cs : List Char} (hb : c ≠ '\\') (hq : c ≠ '"') (h : Paired cs) :
      Paired (c :: cs)
  | pair {d : Char} {cs : List Char} (h : Paired cs) : Paired ('\\' :: d :: cs)

/-! ## Strings as they are delimited -/

theorem exists_paired_of_stringRest? {a b : List Char} (h : Lexeme.stringRest? cs = some (a, b)) :
    ∃ body, a = body ++ ['"'] ∧ Paired body := by
  fun_induction Lexeme.stringRest? cs generalizing a b with
  | case1 => cases h
  | case2 =>
    cases h
    exact ⟨[], rfl, .nil⟩
  | case3 => cases h
  | case4 =>
    cases h
    exact ⟨[], rfl, .nil⟩
  | case5 d cs _ ih =>
    obtain ⟨x, hx, rfl⟩ := Cut.behind_eq_some_iff.1 h
    obtain ⟨body, rfl, hp⟩ := ih hx
    exact ⟨_ :: d :: body, rfl, hp.pair⟩
  | case6 c d cs hq hb ih =>
    obtain ⟨x, hx, rfl⟩ := Cut.behind_eq_some_iff.1 h
    obtain ⟨body, rfl, hp⟩ := ih hx
    exact ⟨c :: body, rfl, hp.plain hb hq⟩

theorem exists_paired_of_string? {a b : List Char} (h : Lexeme.string? cs = some (a, b)) :
    ∃ body, a = '"' :: (body ++ ['"']) ∧ Paired body := by
  unfold Lexeme.string? at h
  split at h
  · obtain ⟨x, hx, rfl⟩ := Cut.behind_eq_some_iff.1 h
    obtain ⟨body, rfl, hp⟩ := exists_paired_of_stringRest? hx
    exact ⟨body, rfl, hp⟩
  · cases h

/-- A string of a source is a body between quotes. -/
theorem exists_paired_of_read {label : Option String} {source : String} {ts : List Tree}
    (h : Tree.read label source = .ok ts) {l : Lit} (hl : l ∈ Tree.literals ts)
    (hk : l.kind = .string) : ∃ body, l.text.toList = '"' :: (body ++ ['"']) ∧ Paired body := by
  have hm : (l.kind, l.text) ∈ (Tree.literals ts).map fun l ↦ (l.kind, l.text) :=
    List.mem_map_of_mem hl
  rw [Tree.literals_of_read h, hk] at hm
  obtain ⟨x, hx, hlit⟩ := List.mem_filterMap.1 hm
  obtain ⟨hxk, hxt⟩ := Lexeme.literal?_eq_some_iff.1 hlit
  obtain ⟨front, back, hs⟩ := List.append_of_mem hx
  have hc := Lexeme.chain_split source.toList
  rw [hs] at hc
  have hcut := Lexeme.cut?_of_first? (Lexeme.chain_append.1 hc).2.1
  rw [hxk] at hcut
  obtain ⟨body, hb, hp⟩ := exists_paired_of_string? hcut
  exact ⟨body, by rw [← hxt, String.toList_ofList, hb], hp⟩

theorem Paired.tail_of_ne (h : Paired (c :: cs)) (hb : c ≠ '\\') : c ≠ '"' ∧ Paired cs := by
  cases h with
  | plain _ hq h => exact ⟨hq, h⟩
  | pair _ => exact absurd rfl hb

theorem Paired.tail_of_pair (h : Paired ('\\' :: d :: cs)) : Paired cs := by
  cases h with
  | plain hb _ _ => exact absurd rfl hb
  | pair h => exact h

theorem not_paired_backslash : ¬ Paired ['\\'] := by
  intro h
  cases h with
  | plain hb _ _ => exact hb rfl

/-- What is left of a body behind characters other than backslashes is delimited as before. -/
theorem Paired.of_append (h : Paired (e ++ cs)) (he : '\\' ∉ e) : Paired cs := by
  induction e with
  | nil => exact h
  | cons c e ih =>
    rw [List.mem_cons, not_or] at he
    exact ih (h.tail_of_ne (Ne.symm he.1)).2 he.2

/-! ## One escape -/

theorem simpleEscape?_eq_some_iff : simpleEscape? d = some c ↔ (d, c) ∈ simpleEscapes := by
  unfold simpleEscape?
  split <;> simp_all [simpleEscapes, eq_comm]

theorem hexEscape_eq_ok_iff {a b : Char} : hexEscape a b = .ok c ↔
    Text.ofHex [a, b] ≤ 0x7F ∧ Char.ofNat (Text.ofHex [a, b]) = c := by
  by_cases hn : Text.ofHex [a, b] ≤ 0x7F <;> simp [hexEscape, hn]

theorem isScalarDigit_iff : isScalarDigit c = true ↔ Text.isHexDigit c = true ∨ c = '_' := by
  rw [isScalarDigit, Bool.or_eq_true, beq_iff_eq]

theorem scalarBody?_eq_some_iff {ds : List Char} : scalarBody? cs = some (ds, rest) ↔
    cs = '{' :: (ds ++ '}' :: rest) ∧ (∀ c ∈ ds, isScalarDigit c = true) ∧
      1 ≤ ds.length ∧ ds.length ≤ 8 := by
  constructor
  · intro h
    unfold scalarBody? at h
    split at h
    · next cs =>
      split at h
      · next hd =>
        split at h
        · next hl =>
          cases h
          have ht := List.takeWhile_append_dropWhile (p := isScalarDigit) (l := cs)
          rw [hd] at ht
          exact ⟨congrArg _ ht.symm, fun c hc ↦ List.mem_takeWhile_imp hc, hl⟩
        · cases h
      · cases h
    · cases h
  · rintro ⟨rfl, hd, h₁, h₈⟩
    exact scalarBody?_of_forall hd h₁ h₈ rest

/-- The number of a scalar has a digit, and is that of a character. -/
theorem scalarEscape_eq_ok_iff {ds : List Char} (hd : ∀ c ∈ ds, isScalarDigit c = true) :
    scalarEscape ds = .ok c ↔ (∃ c ∈ ds, Text.isHexDigit c = true) ∧
      (Text.ofHex (ds.filter (· ≠ '_'))).isValidChar ∧
        Char.ofNat (Text.ofHex (ds.filter (· ≠ '_'))) = c := by
  have he : (ds.filter (· ≠ '_')).isEmpty = false ↔ ∃ c ∈ ds, Text.isHexDigit c = true := by
    rw [List.isEmpty_eq_false_iff_exists_mem]
    constructor
    · rintro ⟨c, hc⟩
      obtain ⟨hc, hn⟩ := List.mem_filter.1 hc
      exact ⟨c, hc, (isScalarDigit_iff.1 (hd c hc)).resolve_right (by simpa using hn)⟩
    · rintro ⟨c, hc, hx⟩
      refine ⟨c, List.mem_filter.2 ⟨hc, ?_⟩⟩
      rw [decide_eq_true_eq]
      rintro rfl
      cases hx
  have hv : (Text.ofHex (ds.filter (· ≠ '_'))).isValidChar ↔
      Text.ofHex (ds.filter (· ≠ '_')) < 0xD800 ∨ 0xDFFF < Text.ofHex (ds.filter (· ≠ '_')) ∧
        Text.ofHex (ds.filter (· ≠ '_')) ≤ 0x10FFFF := by
    rw [Nat.isValidChar]
    omega
  rw [← he, hv, scalarEscape]
  generalize ds.filter (· ≠ '_') = xs
  cases xs.isEmpty with
  | true => simp
  | false =>
    rw [if_neg Bool.false_ne_true]
    split
    · next hn => simp [hn]
    · next hn => simp [hn]

/-- An escape that is interpreted is one of the grammar, or drops a line end. -/
theorem escape_cases (h : escape d cs = .ok (t, rest)) :
    (∃ e c, Escape (d :: e) c ∧ cs = e ++ rest ∧ t = [c]) ∨
      d = '\n' ∧ t = [] ∧ ∃ ws, cs = ws ++ rest ∧ (∀ c ∈ ws, Text.isBlank c = true) ∧
        ∀ c ∈ rest.head?, Text.isBlank c = false := by
  unfold escape at h
  split at h
  · next a b cs =>
    split at h
    · next hab =>
      obtain ⟨c, hc, hr⟩ := Except.map_eq_ok_iff.1 h
      cases hr
      obtain ⟨hn, rfl⟩ := hexEscape_eq_ok_iff.1 hc
      exact .inl ⟨[a, b], _, .hex hab.1 hab.2 hn, rfl, rfl⟩
    · cases h
  · split at h
    · next ds rest' hb =>
      obtain ⟨c, hc, hr⟩ := Except.map_eq_ok_iff.1 h
      cases hr
      obtain ⟨rfl, hd, hl⟩ := scalarBody?_eq_some_iff.1 hb
      obtain ⟨hx, hv, rfl⟩ := (scalarEscape_eq_ok_iff hd).1 hc
      have he := Escape.scalar (fun c hc ↦ isScalarDigit_iff.1 (hd c hc)) hl hx hv
      exact .inl ⟨'{' :: (ds ++ ['}']), _, he, by simp, rfl⟩
    · cases h
  · cases h
    refine .inr ⟨rfl, rfl, cs.takeWhile Text.isBlank, List.takeWhile_append_dropWhile.symm, ?_, ?_⟩
    · exact fun c hc ↦ List.mem_takeWhile_imp hc
    · intro c hc
      have hd := List.head?_dropWhile_not Text.isBlank cs
      rwa [Option.mem_def.1 hc] at hd
  · split at h
    · next hs =>
      cases h
      exact .inl ⟨[], _, .simple (simpleEscape?_eq_some_iff.1 hs), rfl, rfl⟩
    · cases h

theorem escape_of_escape (he : Escape (d :: e) c) (cs : List Char) :
    escape d (e ++ cs) = .ok ([c], cs) := by
  cases he with
  | simple h => exact escape_of_simpleEscape? (simpleEscape?_eq_some_iff.2 h) cs
  | hex ha hb hn => simp [escape, ha, hb, hexEscape, hn, Except.map]
  | @scalar ds hd hl hx hv =>
    have hd : ∀ c ∈ ds, isScalarDigit c = true := fun c hc ↦ isScalarDigit_iff.2 (hd c hc)
    have hb : scalarBody? ('{' :: (ds ++ ['}']) ++ cs) = some (ds, cs) :=
      scalarBody?_eq_some_iff.2 ⟨by simp, hd, hl⟩
    have hs := (scalarEscape_eq_ok_iff hd).2 ⟨hx, hv, rfl⟩
    rw [escape]
    simp only [hb, hs, Except.map]

theorem escape_newline {ws : List Char} (hw : ∀ c ∈ ws, Text.isBlank c = true)
    (hn : ∀ c ∈ cs.head?, Text.isBlank c = false) : escape '\n' (ws ++ cs) = .ok ([], cs) := by
  have hd : (ws ++ cs).dropWhile Text.isBlank = cs := by
    rw [List.dropWhile_append_of_pos hw]
    cases cs with
    | nil => rfl
    | cons c cs => rw [List.dropWhile_cons_of_neg (by simp [hn c rfl])]
  rw [escape, hd]

/-- An escape takes no other backslash along than the one that it may stand for. -/
theorem Escape.exists_cons (h : Escape e c) : ∃ d e', e = d :: e' ∧ '\\' ∉ e' := by
  have hx : Text.isHexDigit '\\' = false := rfl
  cases h with
  | simple _ => exact ⟨_, [], rfl, by simp⟩
  | hex ha hb _ =>
    refine ⟨_, _, rfl, fun hm ↦ ?_⟩
    simp only [List.mem_cons, List.not_mem_nil, or_false] at hm
    rcases hm with rfl | rfl
    · exact absurd ha (by simp [hx])
    · exact absurd hb (by simp [hx])
  | scalar hd _ _ _ =>
    refine ⟨_, _, rfl, fun hm ↦ ?_⟩
    have hm := (List.mem_append.1 ((List.mem_cons.1 hm).resolve_left (by decide))).resolve_right
      (by decide)
    rcases hd _ hm with h | h
    · exact absurd h (by simp [hx])
    · exact absurd h (by decide)

/-! ## Bodies -/

/-- Each escape that is interpreted ends where the body can be delimited again. -/
theorem decodes_of_unescapeChars (hp : Paired cs) (h : unescapeChars cs = .ok v) :
    Decodes cs v := by
  fun_induction unescapeChars cs generalizing v with
  | case1 =>
    cases h
    exact .nil
  | case2 c =>
    cases h
    have hc : c ≠ '\\' := by
      rintro rfl
      exact not_paired_backslash hp
    exact .plain hc (hp.tail_of_ne hc).1 .nil
  | case3 d cs t rest he ih =>
    obtain ⟨v, hv, rfl⟩ := Except.map_eq_ok_iff.1 h
    rcases escape_cases he with ⟨e, c, hx, rfl, rfl⟩ | ⟨rfl, rfl, ws, rfl, hw, hn⟩
    · obtain ⟨_, _, hc, hb⟩ := hx.exists_cons
      cases hc
      exact .escape hx (ih (hp.tail_of_pair.of_append hb) hv)
    · refine .continuation hw hn (ih (hp.tail_of_pair.of_append fun hb ↦ ?_) hv)
      exact absurd (hw _ hb) (by decide)
  | case4 => cases h
  | case5 c d cs hc ih =>
    obtain ⟨v, hv, rfl⟩ := Except.map_eq_ok_iff.1 h
    obtain ⟨hq, ht⟩ := hp.tail_of_ne hc
    exact .plain hc hq (ih ht hv)

theorem unescapeChars_of_decodes (h : Decodes cs v) : unescapeChars cs = .ok v := by
  induction h with
  | nil => rw [unescapeChars]
  | plain hb _ _ ih =>
    rw [unescapeChars_of_ne hb, ih]
    rfl
  | @escape e c cs v he _ ih =>
    obtain ⟨d, e', rfl, -⟩ := he.exists_cons
    rw [List.cons_append, unescapeChars_backslash (escape_of_escape he cs), ih]
    rfl
  | continuation hw hn _ ih =>
    rw [unescapeChars_backslash (escape_newline hw hn), ih]
    rfl

theorem unescapeChars_eq_ok_iff (hp : Paired cs) : unescapeChars cs = .ok v ↔ Decodes cs v :=
  ⟨decodes_of_unescapeChars hp, unescapeChars_of_decodes⟩

/-- A string of a source has a value exactly if its body decodes, namely what the body decodes to;
otherwise an escape in it is refused. -/
theorem value_of_read {label : Option String} {source : String} {ts : List Tree}
    (h : Tree.read label source = .ok ts) {l : Lit} (hl : l ∈ Tree.literals ts)
    (hk : l.kind = .string) :
    ∃ body, l.text.toList = '"' :: (body ++ ['"']) ∧
      (∀ v : String, l.value = .ok v ↔ Decodes body v.toList) ∧
        ((¬ ∃ v, Decodes body v) → ∃ e, l.value = .error (.escape e)) := by
  obtain ⟨body, ht, hp⟩ := exists_paired_of_read h hl hk
  have hv : l.value = ((unescapeChars body).map String.ofList).mapError .escape := by
    simp only [Lit.value, value, hk, ht, List.drop_succ_cons, List.drop_zero, List.dropLast_concat]
  refine ⟨body, ht, fun v ↦ ?_, fun hn ↦ ?_⟩
  · rw [← unescapeChars_eq_ok_iff hp, hv]
    cases unescapeChars body with
    | ok w =>
      simp only [Except.map, Except.mapError, Except.ok.injEq]
      exact ⟨fun h ↦ by rw [← h, String.toList_ofList], fun h ↦ by rw [h, String.ofList_toList]⟩
    | error e => simp [Except.map, Except.mapError]
  · cases hu : unescapeChars body with
    | ok w => exact absurd ⟨w, decodes_of_unescapeChars hp hu⟩ hn
    | error e => exact ⟨e, by rw [hv, hu]; rfl⟩

/-- A string in brackets, with an escape of each form. -/
def escapedSource : String := "(\"\\u\x7b1_F600\x7d\\x41\\\n \t\\\\\\\"\")"

theorem value_of_read_escaped :
    ∃ ts l, Tree.read none escapedSource = .ok ts ∧ l ∈ Tree.literals ts ∧ l.kind = .string ∧
      l.value = .ok "😀A\\\"" ∧
      ∃ body, l.text.toList = '"' :: (body ++ ['"']) ∧
        (∀ v : String, l.value = .ok v ↔ Decodes body v.toList) ∧
          ((¬ ∃ v, Decodes body v) → ∃ e, l.value = .error (.escape e)) := by
  have h : (Tree.read none escapedSource).toOption.map
      (fun ts ↦ (Tree.literals ts).map fun l ↦ (l.kind, l.value.toOption)) =
        some [(.string, some "😀A\\\"")] := by
    decide +kernel
  obtain ⟨ts, ht, hls⟩ := Option.map_eq_some_iff.1 h
  obtain ⟨l, hl, hkv⟩ := List.map_eq_singleton_iff.1 hls
  obtain ⟨hk, hv⟩ := Prod.mk.inj hkv
  have hr := Except.toOption_eq_some_iff.1 ht
  have hm : l ∈ Tree.literals ts := hl ▸ List.mem_singleton_self l
  exact ⟨ts, l, hr, hm, hk, Except.toOption_eq_some_iff.1 hv, value_of_read hr hm hk⟩

end Literal

end ErrorDerive
