import ErrorDerive.Proofs.Generated.Impls
import ErrorDerive.Proofs.DigitLimit
import ErrorDerive.Proofs.Lexing.Passage
import ErrorDerive.Proofs.Outline.Marks

/-!
# Failures as code

The code that stands in for the impls is a single call of a macro, whatever the message holds: its
trees are those of the call with one literal, and the literal stands for the message
(`Tree.outlines_compileError`).  So an expansion either reports one failure and has this code, or it
reports nothing and has code that folds into trees.
-/

namespace ErrorDerive

/-! ## The call of the macro -/

/-- The outlines of `::core::compile_error!(...);` with a string literal between the brackets. -/
def Outline.compileError (lit : String) : List Outline :=
  [.leaf false (.punct ":" true), .leaf false (.punct ":" false), .leaf false (.ident "core"),
    .leaf false (.punct ":" true), .leaf false (.punct ":" false),
    .leaf false (.ident "compile_error"), .leaf false (.punct "!" false),
    .group false .paren [.leaf false (.literal .string lit)] false,
    .leaf false (.punct ";" false)]

namespace Lexeme

/-- What stands before the literal in a call of the macro. -/
def compileErrorHead : List Lexeme :=
  [⟨.token (.leaf .punct), [':']⟩, ⟨.token (.leaf .punct), [':']⟩,
    ⟨.token (.leaf .ident), "core".toList⟩, ⟨.token (.leaf .punct), [':']⟩,
    ⟨.token (.leaf .punct), [':']⟩, ⟨.token (.leaf .ident), "compile_error".toList⟩,
    ⟨.token (.leaf .punct), ['!']⟩, ⟨.token (.opener .paren), ['(']⟩]

/-- What stands behind the literal. -/
def compileErrorTail : List Lexeme :=
  [⟨.token (.closer .paren), [')']⟩, ⟨.token (.leaf .punct), [';']⟩]

/-- The lexemes of a call of the macro with a literal. -/
def compileError (lit : String) : List Lexeme :=
  compileErrorHead ++ ⟨.token (.leaf (.literal .string)), lit.toList⟩ :: compileErrorTail

theorem nested_compileError (lit : String) : Nested (compileError lit) := rfl

theorem marked_compileError (lit : String) :
    marked false none (compileError lit) = Outline.flatAll (Outline.compileError lit) := by
  simp [compileError, compileErrorHead, compileErrorTail, Outline.compileError, marked,
    TokenKind.atom, Leaf.ofLexeme, touchesMark, TokenKind.showsGap]

/-- The message is quoted, so nothing in it ends the literal or runs into what stands around it. -/
theorem split_compileError (message : String) :
    split (ErrorDerive.compileError message).toList = (compileError (Literal.quote message), []) := by
  have hh : ending? compileErrorHead = some .solid := by decide
  have ht : ending? compileErrorTail = some .solid := by decide
  have hs : compileErrorHead.flatMap text = "::core::compile_error!(".toList := by decide
  have hs' : compileErrorTail.flatMap text = ");".toList := by decide
  rw [split_eq_iff, compileError, chain_append]
  refine ⟨?_, chain_of_ending? hh (Edge.meets_solid _), Literal.leads_quote message _,
    chain_of_ending? ht (Edge.meets_solid _)⟩
  unfold ErrorDerive.compileError
  rw [List.flatMap_append, List.flatMap_cons, hs, hs', String.append_assoc, String.toList_append,
    String.toList_append]

end Lexeme

/-- The code for a message is read as one call of the macro, with the quoted message. -/
theorem Tree.outlines_compileError (label : Option String) (message : String) :
    ∃ ts, read label (compileError message) = .ok ts ∧
      outlines none ts = Outline.compileError (Literal.quote message) := by
  have hs := Lexeme.split_compileError message
  obtain ⟨ts, ht⟩ : ∃ ts, read label (compileError message) = .ok ts :=
    read_ok_iff.2 ⟨_, hs, Lexeme.nested_compileError _⟩
  refine ⟨ts, ht, Outline.flatAll_inj ?_⟩
  rw [flatAll_outlines_of_read hs ht, Lexeme.marked_compileError]

/-! ## Expansions -/

namespace Definition

variable {d : Definition} {l : Library}

/-- Code that cannot be put together is reported at the definition. -/
theorem span_of_generate {f : Failure} (h : d.generate l = .error f) : f.span = d.span := by
  unfold generate at h
  cases hx : d.assemble l >>= recheck with
  | ok text =>
    rw [hx] at h
    cases h
  | error g =>
    rw [hx] at h
    cases h
    rfl

/-- Code that is given out folds into trees, whatever it is labelled. -/
theorem exists_read_of_generate {code : String} (h : d.generate l = .ok code)
    (label : Option String) : ∃ ts, Tree.read label code = .ok ts := by
  exact Tree.read_ok_iff.2 (Tree.read_ok_iff.1 (generate_eq_ok_iff.1 h).2)

end Definition

namespace Expansion

variable {s : Settings} {label : Option String} {source : String} {e : Expansion}

theorem reports_of_expand (h : expand s label source = .ok e) : e.Reports s label source := by
  unfold expand at h
  split at h
  · next d hd =>
    cases h
    unfold ofDefinition
    cases hg : d.generate s.library with
    | ok code => exact .inl ⟨d, code, hd, hg, rfl⟩
    | error f => exact .inr ⟨f, rfl, .inr ⟨d, hd, hg⟩⟩
  · next f hf =>
    cases h
    exact .inr ⟨f, rfl, .inl hf⟩
  · cases h

/-- Code that stands in for what a diagnostic reports: its trees are those of one call of the macro,
with a literal whose value is the message. -/
def Substitutes (code : String) (d : Diagnostic) : Prop :=
  ∃ message lit, d.message = .ofString message ∧ Literal.value .string lit = .ok message ∧
    code = "::core::compile_error!(" ++ lit ++ ");" ∧
    ∀ label, ∃ ts, Tree.read label code = .ok ts ∧
      Tree.outlines none ts = Outline.compileError lit

theorem substitutes_ofFailure (f : Failure) : Substitutes (ofFailure f).code f.diagnostic :=
  ⟨f.message, Literal.quote f.message, rfl, Literal.value_quote f.message, rfl,
    fun label ↦ Tree.outlines_compileError label f.message⟩

/-- An expansion that is not fine has a single diagnostic, no definition, and the code that stands
in for what the diagnostic reports; one that is fine has no diagnostic, but a definition, and code
that folds into trees. -/
theorem substitutes_or_folds (h : expand s label source = .ok e) :
    (e.ok = false → e.definition = none ∧
      ∃ d, e.diagnostics = [d] ∧ Substitutes e.code d) ∧
    (e.ok = true → e.diagnostics = [] ∧ (∃ d, e.definition = some d) ∧
      ∀ label, ∃ ts, Tree.read label e.code = .ok ts) := by
  obtain ⟨d, code, -, hg, rfl⟩ | ⟨f, rfl, -⟩ := reports_of_expand h
  · constructor
    · intro hf
      cases hf
    · exact fun _ ↦ ⟨rfl, ⟨d, rfl⟩, d.exists_read_of_generate hg⟩
  · constructor
    · exact fun _ ↦ ⟨rfl, f.diagnostic, rfl, substitutes_ofFailure f⟩
    · intro hf
      cases hf

/-- A literal where a name should stand is in the message, with its quotes, its backslash and what
looks like the end of the call. -/
theorem substitutes_or_folds_literal :
    ∃ e d, expand {} none "enum \"\\\");\" \x7b\x7d" = .ok e ∧ e.ok = false ∧
      e.definition = none ∧ e.diagnostics = [d] ∧
      d.message = .ofString "expected identifier, found `\"\\\");\"`" ∧
      Substitutes e.code d := by
  have h : (expand {} none "enum \"\\\");\" \x7b\x7d").toOption.map
      (fun e ↦ (e.ok, e.diagnostics.map Diagnostic.message)) =
        some (false, [.ofString "expected identifier, found `\"\\\");\"`"]) := by
    decide +kernel
  obtain ⟨e, he, hm⟩ := Option.map_eq_some_iff.1 h
  have he := Except.toOption_eq_some_iff.1 he
  obtain ⟨hk, hm⟩ := Prod.mk.inj hm
  obtain ⟨hd, d, hs, hc⟩ := (substitutes_or_folds he).1 hk
  rw [hs] at hm
  exact ⟨e, d, he, hk, hd, hs, (List.cons.inj hm).1, hc⟩

end Expansion

end ErrorDerive
