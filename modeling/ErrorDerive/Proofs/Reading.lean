import ErrorDerive.Proofs.Parsing.Steps
import ErrorDerive.Proofs.Reading.Flattening

/-!
# Reading a source text

What becomes of a text that is cut into tokens: it has trees exactly if its brackets are well
nested, the trees hold its tokens and nothing else, and what is refused is refused at the bracket
that is at fault.
-/

namespace ErrorDerive.Tree

variable {label : Option String} {source : String} {tokens : List Token}

theorem read_eq_fold (h : Token.scan label source.toList = .ok tokens) :
    read label source = fold label [] [] tokens := by
  rw [read, h]

theorem exists_scan_of_read {ts : List Tree} (h : read label source = .ok ts) :
    ∃ tokens, Token.scan label source.toList = .ok tokens := by
  unfold read at h
  split at h
  · next tokens hs => exact ⟨tokens, hs⟩
  · cases h

theorem flattenAll_of_read (h : Token.scan label source.toList = .ok tokens) {ts : List Tree}
    (hr : read label source = .ok ts) : flattenAll ts = Token.atoms tokens := by
  rw [read_eq_fold h] at hr
  have hs := (Token.laid_of_scan h).slim (Token.spellsBracket_of_scan h)
  simpa [pendingAtoms] using flattenAll_of_fold hs hr

theorem lieAll_of_read (h : Token.scan label source.toList = .ok tokens) {ts : List Tree}
    (hr : read label source = .ok ts) : LieAll source.toList ts := by
  have hl := Token.laid_of_scan h
  apply lieAll_of_flattenAll
  · rw [flattenAll_of_read h hr]
    exact hl.ordered
  · rw [flattenAll_of_read h hr]
    exact hl.lies (Token.spellsBracket_of_scan h)

/-- A text that is cut into tokens has trees exactly if they are balanced; the trees flatten to the
tokens and lie in the text as they do, and otherwise the bracket at fault is reported. -/
theorem read_of_scan (h : Token.scan label source.toList = .ok tokens) :
    Token.Laid source.toList 0 tokens ∧
      ((∃ ts, read label source = .ok ts) ↔ Token.Balanced tokens) ∧
        (∀ ts, read label source = .ok ts →
          flattenAll ts = Token.atoms tokens ∧ LieAll source.toList ts) ∧
            ∀ u, read label source = .error u ↔ Token.Misnested tokens u := by
  refine ⟨Token.laid_of_scan h, ?_, fun ts hr ↦ ⟨flattenAll_of_read h hr, lieAll_of_read h hr⟩,
    fun u ↦ ?_⟩
  · rw [read_eq_fold h]
    exact exists_fold_eq_ok_iff
  · rw [read_eq_fold h]
    exact fold_eq_error_iff

/-- Nested groups with comments around and between them. -/
theorem read_of_scan_nested :
    ∃ tokens, Token.scan none "a /* ( */\x7bb::<'c>[ ]\x7d // )".toList = .ok tokens ∧
      tokens.length = 11 ∧ Token.Laid "a /* ( */\x7bb::<'c>[ ]\x7d // )".toList 0 tokens ∧
        ((∃ ts, read none "a /* ( */\x7bb::<'c>[ ]\x7d // )" = .ok ts) ↔
          Token.Balanced tokens) ∧
          (∀ ts, read none "a /* ( */\x7bb::<'c>[ ]\x7d // )" = .ok ts →
            flattenAll ts = Token.atoms tokens ∧
              LieAll "a /* ( */\x7bb::<'c>[ ]\x7d // )".toList ts) ∧
            ∀ u, read none "a /* ( */\x7bb::<'c>[ ]\x7d // )" = .error u ↔
              Token.Misnested tokens u := by
  have h : (Token.scan none "a /* ( */\x7bb::<'c>[ ]\x7d // )".toList).toOption.map
      List.length = some 11 := by
    decide +kernel
  obtain ⟨tokens, ht, hl⟩ := Option.map_eq_some_iff.1 h
  have ht := Except.toOption_eq_some_iff.1 ht
  exact ⟨tokens, ht, hl, read_of_scan ht⟩

end ErrorDerive.Tree
