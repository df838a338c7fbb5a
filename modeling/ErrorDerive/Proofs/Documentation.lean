import ErrorDerive.Item.Variant
import ErrorDerive.Proofs.Documentation.Lines
import ErrorDerive.Proofs.Layout.Items
import ErrorDerive.Proofs.Literals
import ErrorDerive.Proofs.Printing.Drafts
import ErrorDerive.Proofs.Printing.Preceding

/-!
# Three spellings of documentation

Lines of documentation can be written as line comments, as attributes with a string, or as one block
comment.  Unless they hold something that would end or change a comment, the three are read as the
same text: the lines that are not blank, without white space around them, joined by spaces.
-/

namespace ErrorDerive

open Text (Unbroken Trimmed Blank kept)

variable {l : String} {ls : List String} {label : Option String}

/-! ## The spellings -/

namespace Documentation

/-- A line that can be spelled in all three ways. -/
structure Plain (l : List Char) : Prop where
  unbroken : Unbroken l
  not_closing : ¬ ['*', '/'] <:+: l
  not_star : (Text.trim l).head? ≠ some '*'

/-- A line comment for each line. -/
def lineComments (ls : List String) : String :=
  ls.foldr (fun l rest ↦ "/// " ++ l ++ "\n" ++ rest) ""

/-- An attribute for each line. -/
def attributeLines (ls : List String) : String :=
  ls.foldr (fun l rest ↦ "#[doc = " ++ Literal.quote l ++ "]" ++ "\n" ++ rest) ""

/-- One block comment for all lines. -/
def blockComment (ls : List String) : String := "/** " ++ "\n".intercalate ls ++ " */"

/-- The lines that are not blank, without white space around them, joined by spaces. -/
def summary (ls : List String) : String :=
  " ".intercalate ((((ls.map String.toList).map Text.trim).filter (!·.isEmpty)).map String.ofList)

/-- A source that holds nothing but attributes, with documentation of a given text. -/
def Documents (label : Option String) (source text : String) : Prop :=
  ∃ ts as d, Tree.read label source = .ok ts ∧
    Parse.attributes (Cursor.ofSource label source ts) = (.ok as, d) ∧ d.rest = [] ∧
    Attribute.documentation as = text

/-- A source of attributes that document given texts, one after the other. -/
def Texts (label : Option String) (source : String) (texts : List String) : Prop :=
  ∃ ts as d, Tree.read label source = .ok ts ∧
    Parse.attributes (Cursor.ofSource label source ts) = (.ok as, d) ∧ d.rest = [] ∧
    (as.filter (·.name == "doc")).filterMap Attribute.doc = texts

theorem Texts.documents {source : String} {texts : List String} (h : Texts label source texts) :
    Documents label source (" ".intercalate (texts.flatMap Attribute.docLines)) := by
  obtain ⟨ts, as, d, ht, ha, hd, rfl⟩ := h
  exact ⟨ts, as, d, ht, ha, hd, rfl⟩

/-! ## One attribute after the other -/

/-- An attribute that documents a text. -/
def Carries (text : String) (a : Attribute) : Prop := a.name = "doc" ∧ a.doc = some text

/-- A form of trees that are read as an attribute that documents a text. -/
def ReadsAs (F : Form) (text : String) : Prop :=
  ∀ us rest c, Tree.Has F us → c.rest = us ++ rest →
    Parse.Reaches Parse.attribute? c (fun r ↦ ∃ a, r = some a ∧ Carries text a) rest

theorem texts_nil (label : Option String) : Texts label "" [] := by
  have hs : Lexeme.split "".toList = ([], []) := Lexeme.split_eq_iff.2 ⟨rfl, trivial⟩
  have hr : Tree.read label "" = .ok [] := by
    rw [Tree.read, Token.scan, hs]
    rfl
  have hc : (Cursor.ofSource label "" []).rest = [] := rfl
  obtain ⟨_, d, ha, rfl, hd⟩ := Parse.reaches_attributes_none hc (by simp)
  exact ⟨[], [], d, hr, ha, hd, rfl⟩

/-- A line that is read as an attribute puts its text in front of those of the lines behind it. -/
theorem Texts.cons {F : Form} {s source text : String} {texts : List String} (hs : OwnLine F s)
    (hF : ReadsAs F text) (h : Texts label source texts) :
    Texts label (s ++ "\n" ++ source) (text :: texts) := by
  obtain ⟨ts, as, d, ht, ha, hd, hx⟩ := h
  obtain ⟨us, ts', hr, hu, hts⟩ := hs.exists_read_before ht label
  have hc : (Cursor.ofSource label (s ++ "\n" ++ source) (us ++ ts')).rest = us ++ ts' := rfl
  obtain ⟨a, as', d', ha', ⟨hn, hv⟩, has, hdd⟩ :=
    Parse.attributes_before (hF us ts' _ hu hc) hts ha
  refine ⟨us ++ ts', a :: as', d', hr, ha', ?_, ?_⟩
  · rcases Tree.Alike.cases hdd with ⟨-, he⟩ | ⟨t, _, _, _, he, -⟩
    · exact he
    · cases hd.symm.trans he
  · rw [← hx, Attribute.docs_eq has, List.filter_cons, if_pos (by simp [hn]), List.filterMap_cons,
      hv]

/-! ## Line comments -/

theorem leads_lineComment (hl : Unbroken l.toList) (r : List Char) :
    Lexeme.Leads ⟨.token (.leaf .doc), ("/// " ++ l).toList⟩ ('\n' :: r) := by
  have hn : '\n' ∉ l.toList := fun hm ↦ absurd (hl _ hm) (by decide)
  have hc : Cut.run (· ≠ '\n') (' ' :: l.toList ++ '\n' :: r) = (' ' :: l.toList, '\n' :: r) := by
    refine Cut.run_eq_iff.2 ⟨rfl, fun c hc ↦ ?_, fun c hc ↦ ?_⟩
    · rcases List.mem_cons.1 hc with rfl | hc
      · decide
      · exact decide_eq_true fun he ↦ hn (he ▸ hc)
    · cases hc
      decide
  have ht : ("/// " ++ l).toList = '/' :: '/' :: '/' :: ' ' :: l.toList := by simp
  rw [Lexeme.leads_slash_iff ht, ht]
  refine .inl ⟨?_, rfl⟩
  rw [List.cons_append, List.cons_append, List.cons_append, Lexeme.doc?, if_neg (by simp), hc]
  rfl

theorem ownLine_lineComment (hl : Unbroken l.toList) :
    OwnLine (Form.leaf (.doc (" " ++ l))) ("/// " ++ l) := by
  refine ⟨[⟨.token (.leaf .doc), ("/// " ++ l).toList⟩], by simp,
    fun r ↦ ⟨leads_lineComment hl r, trivial⟩, rfl, fun ms ↦ ?_⟩
  have ht : Leaf.docText ("/// " ++ l).toList = (" " ++ l).toList := by
    simp [Leaf.docText]
  refine ⟨.leaf false (.doc (" " ++ l)), [], .leaf .doc, ⟨false, rfl⟩, by simp, ?_⟩
  have hd : (TokenKind.leaf .doc).atom ("/// " ++ l) (Lexeme.touchesMark ms) =
      .leaf (.doc (" " ++ l)) := by
    rw [TokenKind.atom, Leaf.ofLexeme, ht, String.ofList_toList]
  rw [List.singleton_append, Lexeme.marked, String.ofList_toList]
  simp [hd]

theorem readsAs_comment (text : String) : ReadsAs (Form.leaf (.doc text)) text := by
  intro us rest c hu hc
  obtain ⟨e, rfl⟩ := hu.exists_leaf
  have hv : Parse.docComment? (.leaf e (.doc text)) =
      some { name := "doc", extent := e, doc := some text } := rfl
  refine (Parse.reaches_eat hc hv).bind fun r d hr hd ↦ ?_
  rw [hr]
  exact Parse.reaches_pure hd ⟨_, rfl, rfl, rfl⟩

theorem texts_lineComments (label : Option String) (h : ∀ l ∈ ls, Plain l.toList) :
    Texts label (lineComments ls) (ls.map (" " ++ ·)) := by
  induction ls with
  | nil => exact texts_nil label
  | cons l ls ih =>
    obtain ⟨hl, hs⟩ := List.forall_mem_cons.1 h
    exact .cons (ownLine_lineComment hl.unbroken) (readsAs_comment _) (ih hs)

/-! ## Attributes with a string -/

/-- An attribute with a string literal as its value. -/
def valued (s : String) : Form :=
  Form.attribute "doc" (Form.append (Form.mark "=") (Form.leaf (.literal .string (Literal.quote s))))

theorem phrase_valued (s : String) :
    Phrase .word .solid (valued s) ("#[doc = " ++ Literal.quote s ++ "]") := by
  have hi : Phrase .word .word (Form.leaf (.ident "doc")) "doc" := .ident (by decide)
  have he : Phrase .solid .solid (Form.mark "=") "=" :=
    .mark (by decide) (by decide) (by decide) (by decide)
  have hp : Phrase .word .solid (valued s) _ := (hi.spaced (he.spaced (.quote s))).attributed
  have hs : "#[" ++ ("doc" ++ " " ++ ("=" ++ " " ++ Literal.quote s)) ++ "]" =
      "#[doc = " ++ Literal.quote s ++ "]" := by
    simp [← String.toList_inj]
  rwa [hs] at hp

theorem reaches_attributeContent_valued {e e' e'' : Extent} {joint : Bool} {s : String} {c : Cursor}
    (hc : c.rest = [.leaf e (.ident "doc"), .leaf e' (.punct "=" joint),
      .leaf e'' (.literal .string (Literal.quote s))]) :
    Parse.Reaches Parse.attributeContent c (Carries s) [] := by
  refine (Parse.reaches_path hc (by simp [Tree.isJointMark])).bind fun x d hx hd ↦ ?_
  rw [hx]
  refine (Parse.reaches_eat_none hd (by simp [Tree.group?])).bind fun r f hr hf ↦ ?_
  rw [hr]
  have hm : Parse.mark? "=" (.leaf e' (.punct "=" joint)) = some ⟨e', "=", joint⟩ := rfl
  refine (Parse.reaches_eat hf hm).bind fun r g hr hg ↦ ?_
  rw [hr]
  have hl : Tree.lit? (.leaf e'' (.literal .string (Literal.quote s))) =
      some ⟨e'', .string, Literal.quote s⟩ := rfl
  refine (Parse.reaches_expect hg hl).bind fun v k hv hk ↦ ?_
  have hd : Parse.docValue "doc" ⟨e'', .string, Literal.quote s⟩ = .ok (some s) := by
    rw [Parse.docValue, if_pos (by rfl), Parse.litValue, Lit.value, Literal.value_quote]
    rfl
  refine (Parse.reaches_ofExcept hk (hv ▸ hd)).bind fun w m hw hm ↦ ?_
  refine (Parse.reaches_expectEnd hm).bind fun _ n _ hn ↦ ?_
  exact Parse.reaches_pure hn ⟨rfl, hw⟩

theorem readsAs_valued (s : String) : ReadsAs (valued s) s := by
  intro us rest c hu hc
  obtain ⟨e, joint, e', e'', vs, x, rfl, hv⟩ := hu.exists_attribute
  obtain ⟨ms, ws, rfl, hm, hw⟩ := hv.exists_append
  obtain ⟨y, joint', rfl⟩ := hm.exists_mark
  obtain ⟨z, rfl⟩ := hw.exists_leaf
  exact Parse.reaches_attribute? hc (reaches_attributeContent_valued rfl)

theorem texts_attributeLines (label : Option String) (ls : List String) :
    Texts label (attributeLines ls) ls := by
  induction ls with
  | nil => exact texts_nil label
  | cons l ls ih => exact .cons (phrase_valued l).ownLine (readsAs_valued l) ih

/-! ## Block comments -/

/-- What stands between the stars of a block comment. -/
def blockText (ls : List String) : List Char :=
  ' ' :: ['\n'].intercalate (ls.map String.toList) ++ [' ']

theorem toList_blockComment (ls : List String) :
    (blockComment ls).toList = '/' :: '*' :: '*' :: (blockText ls ++ ['*', '/']) := by
  simp [blockComment, blockText, String.toList_intercalate]

/-- A mark in a text lies on one side of a character that it does not hold. -/
theorem infix_append_cons {mark front back : List Char} {c : Char} (hc : c ∉ mark)
    (h : mark <:+: front ++ c :: back) : mark <:+: front ∨ mark <:+: back := by
  have hn : ∀ y : List Char, c ∉ y → y <+: c :: back → y = [] := by
    intro y hy hp
    refine (List.prefix_cons_iff.1 hp).resolve_right ?_
    rintro ⟨t, rfl, -⟩
    exact hy List.mem_cons_self
  rcases List.infix_append_iff.1 h with h | h | ⟨x, y, rfl, hx, hy⟩
  · exact .inl h
  · rcases List.infix_cons_iff.1 h with h | h
    · rw [hn mark hc h]
      exact .inl List.nil_infix
    · exact .inr h
  · rw [hn y (fun hm ↦ hc (List.mem_append_right x hm)) hy, List.append_nil]
    exact .inl hx.isInfix

theorem not_closing_intercalate (h : ∀ l ∈ ls, Plain l.toList) :
    ¬ ['*', '/'] <:+: ['\n'].intercalate (ls.map String.toList) := by
  induction ls with
  | nil => decide
  | cons l ls ih =>
    obtain ⟨hl, hs⟩ := List.forall_mem_cons.1 h
    cases ls with
    | nil => simpa using hl.not_closing
    | cons m ls =>
      rw [List.map_cons, List.map_cons, List.intercalate_cons_cons, List.append_assoc,
        List.singleton_append]
      intro hi
      exact (infix_append_cons (by decide) hi).elim hl.not_closing (ih hs)

theorem not_closing_blockText (h : ∀ l ∈ ls, Plain l.toList) : ¬ ['*', '/'] <:+: blockText ls := by
  intro hi
  rcases infix_append_cons (by decide) hi with hi | hi
  · have hi : ['*', '/'] <:+: [] ++ ' ' :: ['\n'].intercalate (ls.map String.toList) := hi
    exact (infix_append_cons (by decide) hi).elim (by decide) (not_closing_intercalate h)
  · exact absurd hi (by decide)

theorem leads_blockComment (h : ∀ l ∈ ls, Plain l.toList) :
    Lexeme.Leads ⟨.token (.leaf .doc), (blockComment ls).toList⟩ [] := by
  have ht := toList_blockComment ls
  have hc : Cut.through ['*', '/'] (blockText ls ++ ['*', '/']) =
      some (blockText ls ++ ['*', '/'], []) :=
    Cut.through_append_mark (by decide) (not_closing_blockText h) []
  rw [Lexeme.leads_slash_iff ht, List.append_nil, ht]
  refine .inl ⟨?_, rfl⟩
  rw [Lexeme.doc?, if_neg (by simp [blockText]), hc]
  rfl

theorem texts_blockComment (label : Option String) (h : ∀ l ∈ ls, Plain l.toList) :
    Texts label (blockComment ls) [String.ofList (Leaf.docText (blockComment ls).toList)] := by
  have hu : ∀ e l, Tree.Has (Form.leaf l) [.leaf e l] := fun e l ↦ ⟨none, _, Tree.outlines_cons ..⟩
  obtain ⟨_, d, ha, ⟨a, rfl, hn, hv⟩, hd⟩ := Parse.reaches_attributes_one
    (readsAs_comment _ _ [] (Cursor.ofSource label (blockComment ls) _) (hu _ _) rfl) (by simp)
  exact ⟨_, [a], d, Tree.read_of_leads (leads_blockComment h) label, ha, hd, by simp [hn, hv]⟩

theorem Plain.starless_eq {x : List Char} (h : Plain l.toList)
    (hx : Text.trim x = Text.trim l.toList) : Leaf.starless x = Text.trim x := by
  unfold Leaf.starless
  split
  · next he => exact absurd (congrArg List.head? (hx.symm.trans he)) h.not_star
  · rfl

/-- The lines of a block comment without a star in front are the lines without white space around
them. -/
theorem map_starless_lines (h : ∀ l ∈ ls, Plain l.toList) (hne : ls ≠ []) :
    (Text.lines (blockText ls)).map Leaf.starless = (ls.map String.toList).map Text.trim := by
  have hm : (Text.lines (blockText ls)).map Text.trim = (ls.map String.toList).map Text.trim := by
    refine Text.map_trim_lines_padded (w := [' ']) ?_ (by simpa using hne) ?_ ?_
    · exact List.forall_mem_map.2 fun l hl ↦ (h l hl).unbroken
    · simp [Blank, Text.isBlank]
    · simp [Unbroken, Text.isLineBreak]
  rw [← hm]
  refine List.map_congr_left fun x hx ↦ ?_
  have hx : Text.trim x ∈ (ls.map String.toList).map Text.trim := hm ▸ List.mem_map_of_mem hx
  obtain ⟨_, hy, hx⟩ := List.mem_map.1 hx
  obtain ⟨l, hl, rfl⟩ := List.mem_map.1 hy
  exact (h l hl).starless_eq hx.symm

theorem kept_lines_docText (h : ∀ l ∈ ls, Plain l.toList) :
    kept (Text.lines (Leaf.docText (blockComment ls).toList)) = kept (ls.map String.toList) := by
  have ht : Leaf.docText (blockComment ls).toList =
      ['\n'].intercalate ((Text.lines (blockText ls)).map Leaf.starless) := by
    simp [Leaf.docText, toList_blockComment]
  rw [ht]
  by_cases hne : ls = []
  · rw [hne]
    rfl
  · rw [map_starless_lines h hne, Text.kept_lines_intercalate, Text.kept_map_trim]
    intro x hx
    obtain ⟨_, hy, rfl⟩ := List.mem_map.1 hx
    obtain ⟨l, hl, rfl⟩ := List.mem_map.1 hy
    exact fun c hc ↦ (h l hl).unbroken c (Text.mem_of_mem_trim hc)

/-! ## The same text -/

theorem flatMap_docLines {f : String → String}
    (h : ∀ l ∈ ls, kept (Text.lines (f l).toList) = kept [l.toList]) :
    (ls.map f).flatMap Attribute.docLines = (kept (ls.map String.toList)).map String.ofList := by
  induction ls with
  | nil => rfl
  | cons l ls ih =>
    obtain ⟨hl, hs⟩ := List.forall_mem_cons.1 h
    have hd : Attribute.docLines (f l) = (kept [l.toList]).map String.ofList :=
      congrArg (List.map String.ofList) hl
    rw [List.map_cons, List.flatMap_cons, ih hs, hd, ← List.map_append, ← Text.kept_cons,
      List.map_cons]

theorem kept_lines_toList (hl : Unbroken l.toList) :
    kept (Text.lines l.toList) = kept [l.toList] := by
  have hk : kept (Text.lines (['\n'].intercalate [l.toList])) = kept [l.toList] :=
    Text.kept_lines_intercalate (by simpa using hl)
  rwa [List.intercalate_singleton] at hk

theorem kept_lines_space (hl : Unbroken l.toList) :
    kept (Text.lines (" " ++ l).toList) = kept [l.toList] := by
  have hu : Unbroken (" " ++ l).toList := by
    rw [String.toList_append]
    exact List.forall_mem_append.2 ⟨by simp [Text.isLineBreak], hl⟩
  have hb : Blank [' '] := by simp [Blank, Text.isBlank]
  have ht : Text.trim (" " ++ l).toList = Text.trim l.toList := by
    rw [String.toList_append]
    exact Text.trim_append_left hb _
  rw [kept_lines_toList hu, kept, kept, List.map_singleton, ht, List.map_singleton]

/-- Documentation is the same text in all three spellings, on one line without white space around
it. -/
theorem documents_summary (label : Option String) (h : ∀ l ∈ ls, Plain l.toList) :
    Documents label (lineComments ls) (summary ls) ∧
      Documents label (attributeLines ls) (summary ls) ∧
      Documents label (blockComment ls) (summary ls) ∧
      (∀ c ∈ (summary ls).toList, Text.isLineBreak c = false) ∧
      Text.trim (summary ls).toList = (summary ls).toList := by
  have hu : ∀ l ∈ ls.map String.toList, Unbroken l :=
    List.forall_mem_map.2 fun l hl ↦ (h l hl).unbroken
  have hs : (summary ls).toList = [' '].intercalate (kept (ls.map String.toList)) := by
    simp [summary, kept, String.toList_intercalate, Function.comp_def]
  obtain ⟨hb, ht⟩ := Text.intercalate_kept hu
  rw [hs]
  refine ⟨?_, ?_, ?_, hb, ht.trim_eq⟩
  · have hd := (texts_lineComments label h).documents
    rwa [flatMap_docLines fun l hl ↦ kept_lines_space (h l hl).unbroken] at hd
  · have hd := (texts_attributeLines label ls).documents
    have hf := flatMap_docLines (f := id) fun l hl ↦ kept_lines_toList (h l hl).unbroken
    rw [List.map_id] at hf
    rwa [hf] at hd
  · have hd := (texts_blockComment label h).documents
    have hk : Attribute.docLines (String.ofList (Leaf.docText (blockComment ls).toList)) =
        (kept (ls.map String.toList)).map String.ofList := by
      rw [← kept_lines_docText h, Attribute.docLines, String.toList_ofList]
      rfl
    rwa [List.flatMap_singleton, hk] at hd

/-- Lines of which two are blank; the others hold what only seems to open or close something. -/
def oddLines : List String :=
  ["", "  a / b\u00a0", "\u3000", "x * /", "\\\"\x7b0\x7d\t", "/// y **"]

/-- The odd lines are read as the same text from each of their spellings. -/
theorem documents_summary_odd :
    Documents none
        "/// \n///   a / b\u00a0\n/// \u3000\n/// x * /\n/// \\\"\x7b0\x7d\t\n/// /// y **\n"
        "a / b x * / \\\"\x7b0\x7d /// y **" ∧
      Documents none (attributeLines oddLines) "a / b x * / \\\"\x7b0\x7d /// y **" ∧
      Documents none "/** \n  a / b\u00a0\n\u3000\nx * /\n\\\"\x7b0\x7d\t\n/// y ** */"
        "a / b x * / \\\"\x7b0\x7d /// y **" := by
  have hp : ∀ l ∈ oddLines, (l.toList.all fun c ↦ !Text.isLineBreak c) = true ∧
      ¬ ['*', '/'] <:+: l.toList ∧ (Text.trim l.toList).head? ≠ some '*' := by
    decide +kernel
  have hs : summary oddLines = "a / b x * / \\\"\x7b0\x7d /// y **" := by decide +kernel
  obtain ⟨hl, ha, hb, -⟩ := documents_summary none fun l hl ↦
    ⟨by simpa [Unbroken] using (hp l hl).1, (hp l hl).2.1, (hp l hl).2.2⟩
  rw [hs] at hl ha hb
  exact ⟨hl, ha, hb⟩

end Documentation

end ErrorDerive
