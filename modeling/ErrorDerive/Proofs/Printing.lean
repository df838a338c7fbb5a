import ErrorDerive.Item.Definition
import ErrorDerive.Proofs.Printing.Variants

/-!
# Parsing undoes printing

Whatever drafts are printed as an enum, and with whatever spacing, parsing the text succeeds with the
name of the enum and one variant for each draft, in order, as the draft describes it
(`Definition.parse_printEnum`).
-/

namespace ErrorDerive

open List (Forall₂)
open ErrorDerive.Tree (Has)

namespace Draft

variable {d : Draft} {v : Variant} {ds : List Draft} {vs : List Variant}

theorem Describes.displayNames (h : d.Describes v) : v.displayNames = d.displayNames := by
  unfold Variant.displayNames Draft.displayNames
  rw [h.fields]
  cases hs : d.shape with
  | tuple =>
    have hb : v.binding = tupleAlias := by
      funext k
      rw [Variant.binding, h.shape, hs]
    rw [hb]
  | _ =>
    have hb : v.binding = id := by
      funext k
      rw [Variant.binding, h.shape, hs]
      rfl
    rw [hb, List.map_id]

/-- The variants that proper drafts describe have messages with known names. -/
theorem check_of_forall₂ (hd : ∀ d ∈ ds, d.Proper) (h : Forall₂ Describes ds vs) :
    Definition.check vs = .ok () := by
  rw [Definition.check_eq_ok_iff]
  induction h with
  | nil => simp
  | @cons d v _ _ hv _ ih =>
    obtain ⟨hp, hs⟩ := List.forall_mem_cons.1 hd
    refine List.forall_mem_cons.2 ⟨?_, ih hs⟩
    obtain ⟨t, ht, hne, hns⟩ := hp.template
    obtain rfl : t = v.template := Except.ok.inj (ht.symm.trans hv.template)
    exact ⟨hne, hv.displayNames ▸ hns _ hv.displayFields⟩

end Draft

namespace Parse

variable {c : Cursor} {name : String} {ds : List Draft}

theorem reaches_variants (hd : ∀ d ∈ ds, d.Proper) (hc : Has (Form.row Form.draft ds) c.rest) :
    Reaches (variants {} false) c (Forall₂ Draft.Describes ds) [] :=
  reaches_many (fun before d behind done c us rest rest' hi _ hc hu hr ↦
    reaches_variant (hd d (by simp [hi])) hc hu hr) hc

/-- The trees of a printed enum are read as its definition. -/
theorem reaches_definition (hd : ∀ d ∈ ds, d.Proper) (hc : Has (Form.enum name ds) c.rest) :
    Reaches (definition {}) c
      (fun d ↦ d.name = name ∧ d.noDisplay = false ∧ Forall₂ Draft.Describes ds d.variants) [] := by
  obtain ⟨xs, ys, hc, hx, hy⟩ := hc.exists_append
  obtain ⟨zs, ws, rfl, hz, hw⟩ := hy.exists_append
  obtain ⟨e₁, rfl⟩ := hx.exists_leaf
  obtain ⟨e₂, rfl⟩ := hz.exists_leaf
  obtain ⟨e₃, ts, x, rfl, ht⟩ := hw.exists_group
  simp only [List.cons_append, List.nil_append] at hc
  refine (reaches_attributes_none hc (by simpa using blunt_ident e₁ "enum")).bind
    fun as k ha hk ↦ ?_
  rw [ha]
  refine (reaches_ofExcept (a := false) hk rfl).bind fun noDisplay k hn hk ↦ ?_
  have hv : Reaches visibility k (fun _ ↦ True) k.rest := by
    refine (reaches_eat_none rfl ?_).bind fun r l hr hl ↦ ?_
    · simp [hk, word?, Tree.ident?]
    · rw [hr]
      exact reaches_pure hl trivial
  refine hv.bind fun _ l _ hl ↦ ?_
  rw [hk] at hl
  have h₁ : word? "enum" (.leaf e₁ (.ident "enum")) = some ⟨e₁, "enum"⟩ := rfl
  refine (reaches_expect hl h₁).bind fun keyword k _ hk ↦ ?_
  have h₂ : Tree.ident? (.leaf e₂ (.ident name)) = some ⟨e₂, name⟩ := rfl
  refine (reaches_expect hk h₂).bind fun i k hi hk ↦ ?_
  have h₃ : brackets? .brace (.group e₃ .brace ts x) = some ⟨e₃, .brace, ts, x⟩ := rfl
  refine (reaches_expect hk h₃).bind fun g k hg hk ↦ ?_
  obtain ⟨vs, hvs, hf⟩ :=
    (reaches_variants (c := Cursor.ofGroup ⟨e₃, .brace, ts, x⟩) hd ht).within
  rw [hg, hn]
  refine (reaches_ofExcept hk hvs).bind fun vs' k hvs' hk ↦ ?_
  have hm : Reaches nothingMore k (fun _ ↦ True) [] :=
    ⟨(), k, by rw [nothingMore, hk], trivial, hk⟩
  refine hm.bind fun _ k _ hk ↦ ?_
  rw [hvs']
  refine (reaches_ofExcept hk (Draft.check_of_forall₂ hd hf)).bind fun _ k _ hk ↦ ?_
  exact reaches_pure hk ⟨congrArg Ident.text hi, rfl, hf⟩

end Parse

namespace Definition

/-- Drafts that are printed as an enum are parsed back: the name, the variants in order, and of each
variant its shape, fields, cause and template are those of its draft. -/
theorem parse_printEnum {name : String} {ds : List Draft}
    (hn : Lexeme.isIdent name.toList = true) (hd : ∀ d ∈ ds, d.Proper) (sp : Spacing)
    (label : Option String) :
    ∃ d, parse {} label (Draft.printEnum sp name ds) = .ok d ∧ d.name = name ∧
      d.noDisplay = false ∧ Forall₂ Draft.Describes ds d.variants := by
  obtain ⟨ts, ht, hf⟩ := (Draft.phrase_printEnum sp hn hd).exists_read label
  obtain ⟨d, _, hp, hd, -⟩ := Parse.reaches_definition
    (c := Cursor.ofSource label (Draft.printEnum sp name ds) ts) hd ⟨none, hf⟩
  refine ⟨d, ?_, hd⟩
  rw [parse, ht]
  simp only [hp]

/-- Print with a space before and inside braces, and none elsewhere but behind commas and colons. -/
def braced : Spacing where
  before d := d == .brace
  inside d := d == .brace
  comma := false
  colon := false

/-- Drafts of each shape, with nested types, both causes, and messages that need escapes. -/
def drafts : List Draft :=
  [{ name := "A", shape := .tuple, fields := [("0", "a::B<C, D<r#x>>")], cause := .conversion "0",
     message := "\"\x7b0:?\x7d\" \x7b\x7b\n" },
   { name := "r#B", shape := .struct, fields := [("k", "a::B<C, D<r#x>>"), ("m", "a::B<C, D<r#x>>")],
     cause := .sourceOnly "m", message := "\x7bk\x7d, \x7bm\x7d" },
   { name := "C", shape := .tuple, message := "// \\" },
   { name := "D", message := "\x7d\x7d" }]

theorem proper_drafts : ∀ d ∈ drafts, d.Proper := by
  -- all but the types and the cause is computed
  have hm : ∀ d ∈ drafts, (Template.pieces d.message).toOption.isSome = true := by decide +kernel
  have ht : ∀ d ∈ drafts, (d.template.toOption.any fun t ↦ t != "" &&
      (Template.names t).toOption.all fun ns ↦ ns.all (d.displayNames.contains ·)) = true := by
    decide +kernel
  have hf : ∀ d ∈ drafts, ∀ f ∈ d.fields, f.2 = "a::B<C, D<r#x>>" := by decide
  intro d hd
  refine ⟨?_, ?_, fun f h ↦ hf d hd f h ▸ isType_hostile, ?_, ?_, ?_⟩
  · revert d
    decide
  · revert d
    decide
  · simp only [drafts, List.mem_cons, List.not_mem_nil, or_false] at hd
    rcases hd with rfl | rfl | rfl | rfl
    · exact .inr (.inr ⟨"0", by decide, rfl, rfl⟩)
    · exact .inr (.inl ⟨"m", by decide, rfl⟩)
    · exact .inl rfl
    · exact .inl rfl
  · obtain ⟨ps, hps⟩ := Option.isSome_iff_exists.1 (hm d hd)
    exact ⟨ps, Except.toOption_eq_some_iff.1 hps⟩
  · have ht := ht d hd
    cases hx : d.template with
    | error e => simp [hx, Except.toOption] at ht
    | ok t =>
      rw [hx, Except.toOption, Option.any_some, Bool.and_eq_true] at ht
      refine ⟨t, rfl, by simpa using ht.1, fun ns hns n hn ↦ ?_⟩
      have hc := ht.2
      rw [hns, Except.toOption, Option.all_some, List.all_eq_true] at hc
      exact List.contains_iff_mem.1 (hc n hn)

theorem parse_printEnum_drafts :
    Draft.printEnum braced "E" drafts =
      "enum E \x7b #[error(\"\\\"\x7b0:?\x7d\\\" \x7b\x7b\\n\")] A(#[from] a::B<C, D<r#x>>), "
        ++ "#[error(\"\x7bk\x7d, \x7bm\x7d\")] r#B "
        ++ "\x7b k: a::B<C, D<r#x>>, #[source] m: a::B<C, D<r#x>> \x7d, "
        ++ "#[error(\"// \\\\\")] C(), #[error(\"\x7d\x7d\")] D \x7d" ∧
    Lexeme.isIdent "E".toList = true ∧ (∀ d ∈ drafts, d.Proper) ∧
    ∃ d, parse {} none (Draft.printEnum braced "E" drafts) = .ok d ∧ d.name = "E" ∧
      d.noDisplay = false ∧ Forall₂ Draft.Describes drafts d.variants :=
  ⟨by decide +kernel, by decide, proper_drafts, parse_printEnum (by decide) proper_drafts braced none⟩

end Definition

end ErrorDerive
