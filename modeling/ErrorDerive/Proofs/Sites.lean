import ErrorDerive.Proofs.Reading.Brackets
import ErrorDerive.Proofs.Sites.Grammar
import ErrorDerive.Proofs.Substitution
import Mathlib.Data.List.Induction

/-!
# Diagnostics have a place in the source

The diagnostic of an expansion carries the label of the source, and its line and column are those of
an offset where a token starts, of the first character that starts no token, or of the end of the
source (`Expansion.located_of_expand`).
-/

namespace ErrorDerive

/-! ## Places -/

/-- A place that lies in a text: its line is one more than there are newlines before it, and its
column counts from just past the last of them. -/
structure Place.In (source : List Char) (p : Place) : Prop where
  offset_le : p.offset ≤ source.length
  line : p.line = (source.take p.offset).count '\n' + 1
  column : ∃ front row, source.take p.offset = front ++ row ∧ '\n' ∉ row ∧
    (front = [] ∨ front.getLast? = some '\n') ∧ p.column = p.offset - front.length + 1

namespace Place

theorem line_after (p : Place) (cs : List Char) :
    (p.after cs).line = p.line + cs.count '\n' := by
  induction cs generalizing p with
  | nil => rfl
  | cons c cs ih =>
    rw [after_cons, ih, advance]
    split
    · next hc => simp only [hc, List.count_cons_self]; omega
    · next hc => rw [List.count_cons_of_ne hc]

/-- A text without newlines only moves the column. -/
theorem column_after (p : Place) {cs : List Char} (h : '\n' ∉ cs) :
    (p.after cs).column = p.column + cs.length := by
  induction cs generalizing p with
  | nil => rfl
  | cons c cs ih =>
    obtain ⟨hc, hs⟩ := List.ne_and_not_mem_of_not_mem_cons h
    rw [after_cons, ih _ hs, advance, if_neg (Ne.symm hc), List.length_cons]
    simp only
    omega

/-- A text is what comes up to its last newline, and a row without any behind it. -/
theorem exists_row (cs : List Char) :
    ∃ front row, cs = front ++ row ∧ '\n' ∉ row ∧
      (front = [] ∨ front.getLast? = some '\n') := by
  induction cs using List.reverseRecOn with
  | nil => exact ⟨[], [], rfl, by simp, .inl rfl⟩
  | append_singleton cs c ih =>
    obtain ⟨front, row, rfl, hr, hf⟩ := ih
    by_cases hc : c = '\n'
    · exact ⟨front ++ row ++ [c], [], by simp, by simp, .inr (by simp [hc])⟩
    · exact ⟨front, row ++ [c], by simp, by simp [hr, Ne.symm hc], hf⟩

/-- The place behind the start of a text lies in it. -/
theorem in_after (cs rest : List Char) : (origin.after cs).In (cs ++ rest) := by
  have ho : (origin.after cs).offset = cs.length := by simp [origin]
  have ht : (cs ++ rest).take (origin.after cs).offset = cs := by rw [ho, List.take_left]
  obtain ⟨front, row, hs, hr, hf⟩ := exists_row cs
  have hc : (origin.after front).column = 1 := by
    rcases hf with rfl | hf
    · rfl
    · obtain ⟨ds, rfl⟩ := List.getLast?_eq_some_iff.1 hf
      simp [after_append, advance]
  refine ⟨?_, ?_, front, row, ht.trans hs, hr, hf, ?_⟩
  · rw [ho, List.length_append]
    omega
  · rw [ht, line_after, origin, Nat.add_comm]
  · rw [ho, hs, after_append, column_after _ hr, hc, List.length_append]
    omega

end Place

/-! ## Landmarks -/

/-- An offset of a text where a token starts, that of the first character that starts no token, or
that of the end. -/
inductive Landmark (source : List Char) : Nat → Prop
  | token {front back : List Lexeme} {k : TokenKind} {text : List Char}
      (h : (Lexeme.split source).1 = front ++ ⟨.token k, text⟩ :: back) :
      Landmark source (front.flatMap Lexeme.text).length
  | unlexable {c : Char} {cs : List Char} (h : (Lexeme.split source).2 = c :: cs) :
      Landmark source ((Lexeme.split source).1.flatMap Lexeme.text).length
  | finish : Landmark source source.length

/-- A span that carries a label, and starts at a landmark of a text. -/
def Span.Located (label : Option String) (source : List Char) (span : Span) : Prop :=
  span.file = label ∧ ∃ p : Place, span.line = some (p.line : Int) ∧
    span.column = some (p.column : Int) ∧ p.In source ∧ Landmark source p.offset

/-- An extent that carries a label, and starts at a landmark of a text. -/
def Extent.Located (label : Option String) (source : List Char) (e : Extent) : Prop :=
  e.file = label ∧ e.first.In source ∧ Landmark source e.start

variable {label : Option String} {source : List Char}

theorem Span.Sited.located {span : Span} (h : span.Sited (Extent.Located label source)) :
    span.Located label source := by
  obtain ⟨e, ⟨hf, hp, hl⟩, rfl⟩ := h
  exact ⟨hf, e.first, rfl, rfl, hp, hl⟩

theorem Extent.located_endOf (label : Option String) (source : List Char) :
    (Extent.endOf label source).Located label source := by
  have hp : (Place.endOf source).In source := by
    simpa [Place.endOf] using Place.in_after source []
  have ho : (Place.endOf source).offset = source.length := by simp [Place.endOf, Place.origin]
  refine ⟨rfl, hp, ?_⟩
  rw [Extent.start, Extent.endOf, ho]
  exact .finish

/-! ## Tokens -/

theorem named_of_ne (h : label ≠ some "") : named label = label := by
  cases label with
  | none => rfl
  | some l =>
    have hl : l ≠ "" := fun he ↦ h (by rw [he])
    simp [named, hl]

/-- A token that is placed is one of the lexemes, and lies behind those before it. -/
theorem Token.exists_of_mem_place {p : Place} {ls : List Lexeme} {t : Token}
    (h : t ∈ place label p ls) :
    ∃ front k text back, ls = front ++ ⟨.token k, text⟩ :: back ∧
      t.extent.file = named label ∧ t.extent.first = p.after (front.flatMap Lexeme.text) ∧
        t.extent.past = p.after (front.flatMap Lexeme.text ++ text) := by
  induction ls generalizing p with
  | nil => cases h
  | cons l ls ih =>
    obtain ⟨kind, text⟩ := l
    -- a token further on starts behind this lexeme, whether that is a token or not
    have hi : t ∈ place label (p.after text) ls →
        ∃ front k text' back, (⟨kind, text⟩ : Lexeme) :: ls = front ++ ⟨.token k, text'⟩ :: back ∧
          t.extent.file = named label ∧
            t.extent.first = p.after (front.flatMap Lexeme.text) ∧
              t.extent.past = p.after (front.flatMap Lexeme.text ++ text') := by
      intro ht
      obtain ⟨front, k, text', back, rfl, hf, hp, hp'⟩ := ih ht
      exact ⟨⟨kind, text⟩ :: front, k, text', back, rfl, hf, by simp [hp, Place.after_append],
        by simp [hp', Place.after_append]⟩
    cases kind with
    | trivia k => exact hi h
    | token k =>
      rcases List.mem_cons.1 h with rfl | h
      · exact ⟨[], k, text, ls, rfl, rfl, rfl, rfl⟩
      · exact hi h

theorem Token.located_of_mem_place (hl : label ≠ some "") {t : Token}
    (h : t ∈ place label .origin (Lexeme.split source).1) :
    t.extent.Located label source := by
  obtain ⟨front, k, text, back, hs, hf, hp, -⟩ := exists_of_mem_place h
  have hc := Lexeme.flatMap_split source
  rw [hs, List.flatMap_append, List.append_assoc] at hc
  refine ⟨hf.trans (named_of_ne hl), ?_, ?_⟩
  · rw [hp, ← hc]
    exact Place.in_after _ _
  · rw [Extent.start, hp]
    simpa [Place.origin] using Landmark.token hs

/-- A text that is not cut into tokens is refused at the first character that starts none. -/
theorem Token.located_of_scan {u : Unreadable} (h : scan label source = .error u) :
    u.span.Located label source := by
  have hp := Place.in_after ((Lexeme.split source).1.flatMap Lexeme.text) (Lexeme.split source).2
  rw [Lexeme.flatMap_split] at hp
  cases hs : (Lexeme.split source).2 with
  | nil => simp [scan, hs] at h
  | cons c cs =>
    simp only [scan, hs, Except.error.injEq] at h
    subst h
    exact ⟨rfl, _, rfl, rfl, hp, by simpa [Place.origin] using Landmark.unlexable hs⟩

/-! ## Trees -/

/-- An outcome of reading trees: they lie at extents of a kind, or the text is refused at one. -/
def Tree.ReadsAt (E : Extent → Prop) : Except Unreadable (List Tree) → Prop
  | .ok ts => ∀ t ∈ ts, t.Sited E
  | .error u => u.span.Sited E

/-- Trees lie where their tokens do: a group starts at its opening bracket, and its end is where its
closing one is. -/
theorem Tree.readsAt_fold {E : Extent → Prop} (hE : ∀ e past, E e → E ⟨label, e.first, past⟩)
    {fs : List Frame} {done : List Tree} {tokens : List Token}
    (hf : ∀ f ∈ fs, E f.opening ∧ ∀ t ∈ f.before, t.Sited E) (hd : ∀ t ∈ done, t.Sited E)
    (ht : ∀ t ∈ tokens, E t.extent) : ReadsAt E (fold label fs done tokens) := by
  induction tokens generalizing fs done with
  | nil =>
    cases fs with
    | nil => exact fun t ht ↦ hd t (List.mem_reverse.1 ht)
    | cons f fs => exact ⟨f.opening, (hf f (by simp)).1, rfl⟩
  | cons t tokens ih =>
    obtain ⟨he, hs⟩ := List.forall_mem_cons.1 ht
    rcases hk : t.kind with k | d | d
    · rw [fold_leaf hk]
      exact ih hf (List.forall_mem_cons.2 ⟨.leaf he, hd⟩) hs
    · rw [fold_opener hk]
      exact ih (List.forall_mem_cons.2 ⟨⟨he, hd⟩, hf⟩) (by simp) hs
    · cases fs with
      | nil =>
        rw [fold_stray hk]
        exact ⟨t.extent, he, rfl⟩
      | cons f fs =>
        obtain ⟨⟨ho, hb⟩, hf⟩ := List.forall_mem_cons.1 hf
        by_cases hm : d = f.delimiter
        · subst hm
          rw [fold_closer hk]
          refine ih hf (List.forall_mem_cons.2 ⟨.group (hE _ _ ho) ?_ he, hb⟩) hs
          exact fun u hu ↦ hd u (List.mem_reverse.1 hu)
        · rw [fold_mismatched hk hm]
          exact ⟨t.extent, he, rfl⟩

section Read

variable {source : String} (hl : label ≠ some "")
include hl

theorem Tree.readsAt_read {tokens : List Token}
    (h : Token.scan label source.toList = .ok tokens) :
    ReadsAt (Extent.Located label source.toList) (read label source) := by
  rw [read, h]
  refine readsAt_fold ?_ (by simp) (by simp) ?_
  · rintro e past ⟨-, hp⟩
    exact ⟨rfl, hp⟩
  · obtain ⟨ls, hs, rfl⟩ := Token.scan_eq_ok_iff.1 h
    intro t ht
    apply Token.located_of_mem_place hl
    rw [hs]
    exact ht

theorem Cursor.sited_ofSource {ts : List Tree} (h : Tree.read label source = .ok ts) :
    (ofSource label source ts).Sited (Extent.Located label source.toList) := by
  refine ⟨?_, Extent.located_endOf label source.toList⟩
  cases hs : Token.scan label source.toList with
  | ok tokens =>
    have hr := Tree.readsAt_read hl hs
    rw [h] at hr
    exact hr
  | error u =>
    rw [Tree.read, hs] at h
    cases h

/-- A text that has no trees is refused at a landmark of it. -/
theorem Unreadable.located {u : Unreadable} (h : Tree.read label source = .error u) :
    u.span.Located label source.toList := by
  cases hs : Token.scan label source.toList with
  | ok tokens =>
    have hr := Tree.readsAt_read hl hs
    rw [h] at hr
    exact hr.located
  | error v =>
    rw [Tree.read, hs] at h
    cases h
    exact Token.located_of_scan hs

/-! ## Items -/

namespace Definition

variable {s : Settings} {d : Definition} {f : Failure}

/-- The keyword and the variants of a draft start at landmarks. -/
theorem located_of_draft (h : draft s label source = .ok d) :
    d.span.Located label source.toList ∧ ∀ v ∈ d.variants, v.span.Located label source.toList := by
  unfold draft at h
  split at h
  · next ts hr =>
    have hg := (Parse.sited_unchecked s _ (Cursor.sited_ofSource hl hr)).1
    rw [h] at hg
    exact ⟨hg.1.located, fun v hv ↦ (hg.2 v hv).located⟩
  · cases h

/-- A text that is read as no draft is refused at a landmark. -/
theorem located_of_no_draft (h : draft s label source = .error (.failure f)) :
    f.span.Located label source.toList := by
  unfold draft at h
  split at h
  · next ts hr =>
    have hg := (Parse.sited_unchecked s _ (Cursor.sited_ofSource hl hr)).1
    rw [h] at hg
    cases hg with
    | failure he _ => exact Span.Sited.located ⟨_, he, rfl⟩
  · next u hu =>
    cases h
    exact Unreadable.located hl hu

theorem located_of_parse (h : parse s label source = .ok d) :
    d.span.Located label source.toList :=
  (located_of_draft hl (draft_of_parse h)).1

theorem located_of_refused (h : parse s label source = .error (.failure f)) :
    f.span.Located label source.toList := by
  rw [parse_eq] at h
  rcases Except.bind_eq_error_iff.1 h with h | ⟨x, hx, h⟩
  · exact located_of_no_draft hl h
  · rcases Except.bind_eq_error_iff.1 h with h | ⟨_, -, h⟩
    · split at h
      · cases h
      · obtain ⟨v, hv, cause, -, hf⟩ := check_eq_error h
        cases hf
        exact (located_of_draft hl hx).2 v hv
    · cases h

end Definition

namespace Expansion

/-- Diagnostics are located: they carry the label of the source, if that is not empty, and start at
the start of a token, at the first character that starts no token, or at the end of the source. -/
theorem located_of_expand {s : Settings} {e : Expansion} (h : expand s label source = .ok e) :
    ∀ d ∈ e.diagnostics, d.span.Located label source.toList := by
  obtain ⟨d, code, -, -, rfl⟩ | ⟨f, rfl, hf⟩ := reports_of_expand h
  · simp
  · intro d hd
    obtain rfl := List.mem_singleton.1 hd
    rcases hf with hf | ⟨d, hp, hg⟩
    · exact Definition.located_of_refused hl hf
    · have hd := Definition.located_of_parse hl hp
      rw [← Definition.span_of_generate hg] at hd
      exact hd

end Expansion

end Read

/-- An angle bracket on the second line closes none that is open. -/
theorem Expansion.located_of_expand_angle :
    ∃ e d, expand {} (some "e.rs") "enum E \x7b\n  A(B>)\n\x7d" = .ok e ∧ e.diagnostics = [d] ∧
      d.span.line = some 2 ∧ d.span.column = some 6 ∧
        d.span.Located (some "e.rs") "enum E \x7b\n  A(B>)\n\x7d".toList := by
  have h : (expand {} (some "e.rs") "enum E \x7b\n  A(B>)\n\x7d").toOption.map
      (fun e ↦ e.diagnostics.map fun d ↦ (d.span.line, d.span.column)) =
        some [(some 2, some 6)] := by
    decide +kernel
  obtain ⟨e, he, hd⟩ := Option.map_eq_some_iff.1 h
  obtain ⟨d, hs, hp⟩ := List.map_eq_singleton_iff.1 hd
  obtain ⟨hl, hc⟩ := Prod.mk.inj hp
  have he := Except.toOption_eq_some_iff.1 he
  exact ⟨e, d, he, hs, hl, hc, located_of_expand (by decide) he d (by simp [hs])⟩

end ErrorDerive
