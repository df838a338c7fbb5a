import ErrorDerive.Expansion
import ErrorDerive.Proofs.Layout.Items
import ErrorDerive.Proofs.Outline.Marks
import ErrorDerive.Proofs.Parsing.Steps

/-!
# Layout does not matter

Two texts with the same tokens, in which the same tokens touch, have like trees or are refused for
the same fault; so they are expanded in the same way, and only places and labels may differ
(`expand_layout`).
-/

namespace ErrorDerive

open List (Forall₂)

/-! ## Trees of the same tokens -/

namespace Token

/-- A token without its place. -/
def bare (t : Token) : TokenKind × String := (t.kind, t.text)

/-- For each token but the last, whether it touches the next. -/
def touches : List Token → List Bool
  | t :: u :: ts => (u.start == t.stop) :: touches (u :: ts)
  | _ => []

/-- Tokens that differ in their places only. -/
def Alike (t t' : Token) : Prop := t.bare = t'.bare

theorem Alike.kind {t t' : Token} (h : t.Alike t') : t.kind = t'.kind := (Prod.mk.inj h).1

theorem Alike.text {t t' : Token} (h : t.Alike t') : t.text = t'.text := (Prod.mk.inj h).2

variable {t t' : Token} {ts ts' : List Token} {source source' : List Char}

theorem markAt_eq (hk : Forall₂ Alike ts ts') (ht : touches (t :: ts) = touches (t' :: ts')) :
    markAt t.stop ts = markAt t'.stop ts' := by
  cases hk with
  | nil => rfl
  | cons hu _ =>
    obtain ⟨hs, -⟩ := List.cons.inj ht
    simp only [start] at hs
    rw [markAt, markAt, hs, hu.kind]

/-- Tokens behind a token have the same marks in both texts, if the same of them touch. -/
theorem marked_eq (hl : Laid source t.stop ts) (hl' : Laid source' t'.stop ts')
    (hb : t.Alike t') (hk : Forall₂ Alike ts ts')
    (ht : touches (t :: ts) = touches (t' :: ts')) (j j' : Bool) :
    PlacedAtom.marked (some ⟨t.kind.atom t.text j, t.start, t.stop⟩) (atoms ts) =
      PlacedAtom.marked (some ⟨t'.kind.atom t'.text j', t'.start, t'.stop⟩) (atoms ts') := by
  induction hk generalizing t t' j j' with
  | nil => rfl
  | @cons u u' us us' hu hk ih =>
    obtain ⟨⟨ho, -⟩, -, hl⟩ := hl
    obtain ⟨⟨ho', -⟩, -, hl'⟩ := hl'
    obtain ⟨hs, ht⟩ := List.cons.inj ht
    have hg : decide (t.stop < u.start) = decide (t'.stop < u'.start) := by
      have hs : u.start = t.stop ↔ u'.start = t'.stop := by
        rw [← beq_iff_eq, hs, beq_iff_eq]
      exact decide_eq_decide.2 (by omega)
    rw [atoms, atoms, PlacedAtom.marked, PlacedAtom.marked,
      (Follows.some rfl ho rfl).isApart rfl rfl, (Follows.some rfl ho' rfl).isApart rfl rfl,
      hg, ih hl hl' hu ht _ (markAt u'.stop us'), markAt_eq hk ht, hb.kind, hu.kind, hu.text]

end Token

namespace Tree

variable {label label' : Option String} {source source' : String} {tokens tokens' : List Token}

/-- Open groups with the same brackets. -/
def FramesAlike (fs fs' : List Frame) : Prop :=
  Forall₂ (fun f f' ↦ f.delimiter = f'.delimiter) fs fs'

theorem FramesAlike.opener {fs fs' : List Frame} (h : FramesAlike fs fs') (d : Delimiter)
    (e e' : Extent) (done done' : List Tree) :
    FramesAlike (⟨d, e, done⟩ :: fs) (⟨d, e', done'⟩ :: fs') := .cons rfl h

/-- Tokens of the same kinds both fold, or are refused for the same fault. -/
theorem fold_alike (label label' : Option String) (hk : Forall₂ Token.Alike tokens tokens')
    {fs fs' : List Frame} (hf : FramesAlike fs fs') (done done' : List Tree) :
    (∃ ts ts', fold label fs done tokens = .ok ts ∧ fold label' fs' done' tokens' = .ok ts') ∨
      ∃ u u', fold label fs done tokens = .error u ∧ fold label' fs' done' tokens' = .error u' ∧
        u.fault = u'.fault := by
  induction hk generalizing fs fs' done done' with
  | nil =>
    cases hf with
    | nil => exact .inl ⟨_, _, rfl, rfl⟩
    | cons hf _ => exact .inr ⟨_, _, rfl, rfl, congrArg TreeFault.unclosed hf⟩
  | @cons t t' _ _ ht _ ih =>
    cases hd : t.kind with
    | leaf k =>
      rw [fold_leaf hd, fold_leaf (ht.kind ▸ hd)]
      exact ih hf _ _
    | opener d =>
      rw [fold_opener hd, fold_opener (ht.kind ▸ hd)]
      exact ih (hf.opener d _ _ _ _) _ _
    | closer d =>
      have hd' : t'.kind = .closer d := ht.kind ▸ hd
      cases hf with
      | nil =>
        rw [fold_stray hd, fold_stray hd']
        exact .inr ⟨_, _, rfl, rfl, rfl⟩
      | @cons f f' _ _ hff hf =>
        by_cases he : d = f.delimiter
        · rw [fold_closer (he ▸ hd), fold_closer (he.trans hff ▸ hd')]
          exact ih hf _ _
        · rw [fold_mismatched hd he, fold_mismatched hd' (hff ▸ he)]
          exact .inr ⟨_, _, rfl, rfl, congrArg (TreeFault.mismatchedCloser d) hff⟩

/-- The trees of the same tokens are alike, if the same of them touch. -/
theorem alike_of_read (hs : Token.scan label source.toList = .ok tokens)
    (hs' : Token.scan label' source'.toList = .ok tokens') (hk : Forall₂ Token.Alike tokens tokens')
    (ht : Token.touches tokens = Token.touches tokens') {ts ts' : List Tree}
    (hr : read label source = .ok ts) (hr' : read label' source' = .ok ts') : Alike ts ts' := by
  refine Outline.flatAll_inj ?_
  rw [flatAll_outlines, flatAll_outlines, flattenAll_of_read hs hr, flattenAll_of_read hs' hr']
  have hl := Token.laid_of_scan hs
  have hl' := Token.laid_of_scan hs'
  cases hk with
  | nil => rfl
  | @cons t t' us us' hb hk =>
    rw [Token.atoms, Token.atoms, PlacedAtom.marked, PlacedAtom.marked,
      (Token.Follows.none false).isApart rfl rfl, (Token.Follows.none false).isApart rfl rfl,
      Token.marked_eq hl.2.2 hl'.2.2 hb hk ht _ (Token.markAt t'.stop us'), Token.markAt_eq hk ht,
      hb.kind, hb.text]

end Tree

/-! ## Definitions -/

namespace Definition

variable {s : Settings} {label label' : Option String} {source source' : String}
  {tokens tokens' : List Token}

/-- The same tokens make the same definition but for its places, or are refused for the same
cause. -/
theorem agree_parse (hs : Token.scan label source.toList = .ok tokens)
    (hs' : Token.scan label' source'.toList = .ok tokens') (hk : Forall₂ Token.Alike tokens tokens')
    (ht : Token.touches tokens = Token.touches tokens') :
    Agree (fun d d' ↦ d.unplaced = d'.unplaced) (parse s label source)
      (parse s label' source') := by
  unfold parse
  have hf := Tree.fold_alike label label' hk .nil [] []
  rw [← Tree.read_eq_fold hs, ← Tree.read_eq_fold hs'] at hf
  rcases hf with ⟨ts, ts', hr, hr'⟩ | ⟨u, u', hr, hr', hu⟩
  · have ha : Parse.Ends _ (Parse.definition s (Cursor.ofSource label source ts))
        (Parse.definition s (Cursor.ofSource label' source' ts')) :=
      Parse.agree_definition s (Tree.alike_of_read hs hs' hk ht hr hr')
    rw [hr, hr']
    simp only
    generalize Parse.definition s (Cursor.ofSource label source ts) = x at ha
    generalize Parse.definition s (Cursor.ofSource label' source' ts') = x' at ha
    cases ha with
    | ok h _ => exact .ok h
    | error h => exact .error h
  · rw [hr, hr']
    simp only [Unreadable.refusal, hu]
    exact .errorAt _ _ _

theorem conversionImpls_unplaced (d : Definition) (l : Library) :
    d.unplaced.conversionImpls l = d.conversionImpls l := by
  have hf : ∀ vs : List Variant,
      (vs.map Variant.unplaced).filter (·.cause.kind == .conversion) =
        (vs.filter (·.cause.kind == .conversion)).map Variant.unplaced :=
    fun vs ↦ List.filter_map
  unfold conversionImpls
  change ((d.variants.map Variant.unplaced).filter _).mapM _ = _
  rw [hf]
  generalize d.variants.filter _ = vs
  induction vs with
  | nil => rfl
  | cons v vs ih =>
    rw [List.map_cons, List.mapM_cons, List.mapM_cons, ih]
    rfl

theorem causeArms_unplaced (d : Definition) : d.unplaced.causeArms = d.causeArms := by
  have hm : (d.variants.map Variant.unplaced).filterMap Variant.causeArm? =
      d.variants.filterMap Variant.causeArm? := List.filterMap_map
  simp only [causeArms, unplaced, hm, List.length_map]

theorem displayArms_unplaced (d : Definition) : d.unplaced.displayArms = d.displayArms :=
  List.map_map

theorem assemble_unplaced (d : Definition) (l : Library) : d.unplaced.assemble l = d.assemble l := by
  rw [assemble, assemble, conversionImpls_unplaced, errorImpl, errorImpl, causeArms_unplaced,
    displayImpl?, displayImpl?, displayArms_unplaced]
  rfl

/-- Generated code does not show where anything stood. -/
theorem assemble_of_unplaced {d d' : Definition} (h : d.unplaced = d'.unplaced) (l : Library) :
    d.assemble l = d'.assemble l := by
  rw [← assemble_unplaced, h, assemble_unplaced]

end Definition

/-! ## Expansions -/

/-- A diagnostic without its place. -/
def Diagnostic.unplaced (d : Diagnostic) : Diagnostic := { d with span := {} }

namespace Expansion

/-- An expansion without the places in it. -/
def unplaced (e : Expansion) : Expansion :=
  { e with diagnostics := e.diagnostics.map Diagnostic.unplaced,
           definition := e.definition.map Definition.unplaced }

theorem unplaced_ofFailure (cause : Cause) (span span' : Span) :
    (ofFailure ⟨cause, span⟩).unplaced = (ofFailure ⟨cause, span'⟩).unplaced := rfl

theorem unplaced_ofDefinition (s : Settings) {d d' : Definition} (h : d.unplaced = d'.unplaced) :
    (ofDefinition s d).unplaced = (ofDefinition s d').unplaced := by
  unfold ofDefinition Definition.generate
  rw [Definition.assemble_of_unplaced h]
  cases d'.assemble s.library >>= Definition.recheck with
  | ok code => simp only [Except.mapError, unplaced, Option.map_some, h]
  | error f => exact unplaced_ofFailure _ _ _

end Expansion

/-- Two texts with the same tokens, of which the same touch, are expanded in the same way: code,
definition and diagnostics are the same but for the places in them. -/
theorem expand_layout {label label' : Option String} {source source' : String}
    {tokens tokens' : List Token} (hs : Token.scan label source.toList = .ok tokens)
    (hs' : Token.scan label' source'.toList = .ok tokens')
    (hk : tokens.map Token.bare = tokens'.map Token.bare)
    (ht : Token.touches tokens = Token.touches tokens') (s : Settings) :
    (expand s label source).map Expansion.unplaced =
      (expand s label' source').map Expansion.unplaced := by
  have h := Definition.agree_parse (s := s) hs hs' (map_eq_iff_forall₂.1 hk) ht
  unfold expand
  generalize Definition.parse s label source = x at h
  generalize Definition.parse s label' source' = x' at h
  cases h with
  | ok h => exact congrArg Except.ok (Expansion.unplaced_ofDefinition s h)
  | error h =>
    cases h with
    | «at» span span' cause => exact congrArg Except.ok (Expansion.unplaced_ofFailure _ _ _)
    | limit l => rfl

/-- An item on one line, and the same with comments and lines of its own under another label. -/
theorem expand_layout_comments :
    ∃ tokens tokens',
      Token.scan none "enum E \x7b#[error(\"\x7b0\x7d\")] A(#[from] B::C) \x7d".toList = .ok tokens ∧
      Token.scan (some "f")
        "enum/**/E\n\x7b#[error(\"\x7b0\x7d\")] // a\n A(#[from]\tB::C)  \x7d\n".toList = .ok tokens' ∧
      tokens.map Token.bare = tokens'.map Token.bare ∧
      Token.touches tokens = Token.touches tokens' ∧
      (expand {} none "enum E \x7b#[error(\"\x7b0\x7d\")] A(#[from] B::C) \x7d").map
          Expansion.unplaced =
        (expand {} (some "f")
          "enum/**/E\n\x7b#[error(\"\x7b0\x7d\")] // a\n A(#[from]\tB::C)  \x7d\n").map
            Expansion.unplaced := by
  have h : (Token.scan none
      "enum E \x7b#[error(\"\x7b0\x7d\")] A(#[from] B::C) \x7d".toList).toOption.isSome ∧
      (Token.scan (some "f")
        "enum/**/E\n\x7b#[error(\"\x7b0\x7d\")] // a\n A(#[from]\tB::C)  \x7d\n".toList).toOption.map
          (fun ts ↦ (ts.map Token.bare, Token.touches ts)) =
        (Token.scan none
          "enum E \x7b#[error(\"\x7b0\x7d\")] A(#[from] B::C) \x7d".toList).toOption.map
            fun ts ↦ (ts.map Token.bare, Token.touches ts) := by
    decide +kernel
  obtain ⟨tokens, hs⟩ := Option.isSome_iff_exists.1 h.1
  rw [hs] at h
  obtain ⟨tokens', hs', ht⟩ := Option.map_eq_some_iff.1 h.2
  obtain ⟨hk, ht⟩ := Prod.mk.inj ht
  have hs := Except.toOption_eq_some_iff.1 hs
  have hs' := Except.toOption_eq_some_iff.1 hs'
  exact ⟨tokens, tokens', hs, hs', hk.symm, ht.symm, expand_layout hs hs' hk.symm ht.symm {}⟩

end ErrorDerive
