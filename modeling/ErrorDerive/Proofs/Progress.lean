import ErrorDerive.Proofs.Progress.Calls

/-!
# Progress

Steps that fail or read at least one tree, and loops of rounds that fail, read at least one tree or
are the last.  So no loop makes more rounds than there are trees, and a definition that is read has
been read to the end of the trees (`Parse.progress`).
-/

namespace ErrorDerive

namespace Parse

variable {α : Type} {m : Parse α} {c d : Cursor} {s : Settings}

/-! ## Steps -/

/-- A step that fails or moves the cursor. -/
def Advances (m : Parse α) : Prop := ∀ c, (∃ r, (m c).1 = .error r) ∨ c.pos < (m c).2.pos

theorem Forward.before (hm : m.Forward) {x : Except Refusal α} (h : m c = (x, d)) : c.Before d := by
  have hc := hm c
  rwa [h] at hc

theorem advances_of_reads (hf : m.Forward) (hr : m.Reads) : Advances m := by
  intro c
  rcases hc : m c with ⟨r | a, d⟩
  · exact .inl ⟨r, rfl⟩
  · exact .inr ((hf.before hc).pos_lt_iff.2 (hr c a d hc))

/-! ## Loops -/

/-- A round of a loop that fails, reads at least one tree, or is the last and reads none. -/
def Proceeds (round : Parse (Option α)) : Prop :=
  ∀ c, (∃ r, (round c).1 = .error r) ∨
    ((∃ a, (round c).1 = .ok (some a)) ∧ c.pos < (round c).2.pos) ∨ round c = (.ok none, c)

/-- A loop of such rounds, whose number is that of the trees at most that they read. -/
structure Progresses (loop : Parse (List α)) (round : List α → Parse (Option α)) : Prop where
  loops : ∃ h, loop = collect round h []
  proceeds : ∀ done, Proceeds (round done)
  rounds_le : ∀ c xs d, Run round c xs d → c.pos + xs.length ≤ d.pos

theorem proceeds_of_yields {round : Parse (Option α)} (hf : round.Forward) (hy : round.Yields)
    (hn : ∀ c d, round c = (.ok none, d) → c = d) : Proceeds round := by
  intro c
  rcases hc : round c with ⟨r | _ | a, d⟩
  · exact .inl ⟨r, rfl⟩
  · obtain rfl := hn c d hc
    exact .inr (.inr rfl)
  · exact .inr (.inl ⟨⟨a, rfl⟩, (hf.before hc).pos_lt_iff.2 (hy c a d hc)⟩)

/-- Each round of a run reads a tree. -/
theorem pos_add_length_le_of_run {round : List α → Parse (Option α)}
    (hp : ∀ done, Proceeds (round done)) {xs : List α} (h : Run round c xs d) :
    c.pos + xs.length ≤ d.pos := by
  refine h.inv (fun xs d ↦ c.pos + xs.length ≤ d.pos) (Nat.le_refl _) fun xs e a d he hs ↦ ?_
  have hd : e.pos < d.pos := by
    rcases hp xs e with ⟨r, hr⟩ | ⟨-, hl⟩ | hn
    · rw [hs] at hr
      cases hr
    · rwa [hs] at hl
    · rw [hs] at hn
      cases hn
  rw [List.length_append, List.length_singleton]
  omega

theorem progresses_collect {round : List α → Parse (Option α)} {h : ∀ done, (round done).Yields}
    (hp : ∀ done, Proceeds (round done)) : Progresses (collect round h []) round :=
  ⟨⟨h, rfl⟩, hp, fun _ _ _ hr ↦ pos_add_length_le_of_run hp hr⟩

theorem progresses_many {step : List α → Parse α} {h : ∀ done, (step done).Reads}
    (hf : ∀ done, (step done).Forward) :
    Progresses (many step h) fun done ↦ ifMore (step done) :=
  progresses_collect fun done ↦
    proceeds_of_yields (forward_ifMore (hf done)) (yields_ifMore (h done))
      fun _ _ hn ↦ (ifMore_eq_none_iff.1 hn).2

/-- Where there is no attribute, nothing has been read. -/
theorem eq_of_attribute?_none (h : attribute? c = (.ok none, d)) : c = d := by
  obtain ⟨r, e, hr, h⟩ := bind_eq_ok_iff.1 h
  cases r with
  | some a => cases h
  | none =>
    obtain ⟨-, rfl⟩ := eat_eq_none_iff.1 hr
    obtain ⟨p, e, hp, h⟩ := bind_eq_ok_iff.1 h
    cases p with
    | none =>
      cases h
      exact (eat_eq_none_iff.1 hp).2
    | some p =>
      obtain ⟨a, e, -, h⟩ := bind_eq_ok_iff.1 h
      cases h

theorem progresses_attributes : Progresses attributes fun _ ↦ attribute? :=
  progresses_collect fun _ ↦
    proceeds_of_yields forward_attribute? yields_attribute? fun _ _ ↦ eq_of_attribute?_none

/-! ## Definitions -/

theorem forward_itemHead (s : Settings) : (itemHead s).Forward := by
  rw [itemHead_eq_itemStart]
  exact (settled_itemStart s).forward.bind fun _ ↦ (forward_expect _ _).bind fun _ ↦ forward_pure _

/-- The body of an item is the last tree of its head. -/
theorem exists_read_of_itemHead {h : ItemHead} (hh : itemHead s c = (.ok h, d)) :
    ∃ read, c.rest = read ++ h.body.toTree :: d.rest ∧ h.body.delimiter = .brace := by
  rw [itemHead_eq_itemStart] at hh
  obtain ⟨f, e, hf, hh⟩ := bind_eq_ok_iff.1 hh
  obtain ⟨body, e', hb, hh⟩ := bind_eq_ok_iff.1 hh
  obtain ⟨rfl, rfl⟩ := pure_eq_ok_iff.1 hh
  obtain ⟨⟨t, ts, ht, hg⟩, rfl⟩ := expect_eq_ok_iff.1 hb
  obtain ⟨rfl, hd⟩ := brackets?_eq_some_iff.1 hg
  obtain ⟨read, hr⟩ := (settled_itemStart s).forward.exists_read hf
  exact ⟨read, by rw [hr, ht]; simp [Cursor.skip, ht], hd⟩

end Parse

namespace Cursor

/-- A cursor that has read all of its trees. -/
def AtEnd (ts : List Tree) (c : Cursor) : Prop := c.pos = ts.length ∧ c.rest = []

theorem Over.atEnd {ts : List Tree} {c : Cursor} (h : c.Over ts) (hr : c.rest = []) :
    c.AtEnd ts := by
  have hd := h.rest
  rw [hr, eq_comm, List.drop_eq_nil_iff] at hd
  exact ⟨Nat.le_antisymm h.pos_le hd, hr⟩

end Cursor

/-- The reading of a definition that has come to the end of the trees of the text, and to the end of
the trees in the braces that are the last of these. -/
structure Definition.ReadWhole (s : Settings) (label : Option String) (source : String)
    (x : Definition) (ts : List Tree) (body : Group) (c d : Cursor) : Prop where
  trees : Tree.read label source = .ok ts
  definition : Parse.definition s (.ofSource label source ts) = (.ok x, c)
  atEnd : c.AtEnd ts
  last : ts.getLast? = some body.toTree
  brace : body.delimiter = .brace
  variants : Parse.variants s x.noDisplay (.ofGroup body) = (.ok x.variants, d)
  atEndOfBody : d.AtEnd body.trees

/-- A definition is read to the end. -/
theorem Definition.exists_readWhole {s : Settings} {label : Option String} {source : String}
    {x : Definition} (h : Definition.parse s label source = .ok x) :
    ∃ ts body c d, ReadWhole s label source x ts body c d := by
  obtain ⟨ts, i, c, vs, ht, hi, hv, hc, hm, rfl⟩ := Definition.parse_eq_ok_iff.1 h
  have hx : Parse.definition s (.ofSource label source ts) = (.ok (i.definition vs), c) :=
    Parse.definition_eq_ok_iff.2 ⟨i, vs, hi, hv, hc, hm, rfl⟩
  obtain ⟨read, hr, hb⟩ := Parse.exists_read_of_itemHead hi
  have hl : ts = read ++ [i.body.toTree] := by rw [← hc]; exact hr
  obtain ⟨d, hv⟩ := Parse.within_eq_iff.1 hv
  have hd : d.rest = [] := (Parse.many_eq_ok_iff.1 hv).2
  have hbc := (Parse.forward_itemHead s).before hi
  have hbd := (Parse.forward_many fun _ ↦ Parse.forward_variant s i.noDisplay).before hv
  exact ⟨ts, i.body, c, d, ht, hx, ((Cursor.over_ofSource label source ts).of_before hbc).atEnd hc,
    by rw [hl, List.getLast?_concat], hb, hv, ((Cursor.over_ofGroup i.body).of_before hbd).atEnd hd⟩

namespace Parse

/-- Calls move a cursor forward within its trees, whether they succeed or fail, and those that ask
for one tree take it or leave the cursor where it is.  Types, paths, fields and variants are read
from at least one tree, so the loops over attributes, fields and variants come to an end, and with
success a definition has been read to the end of the text and of its body. -/
theorem progress :
    (∀ (ts : List Tree) (c : Cursor), c.Over ts → ∀ calls : List Call,
      (Call.after calls c).Over ts ∧ c.pos ≤ (Call.after calls c).pos) ∧
    (∀ call : Call, call.takesOne = true → Atomic Reply.tree? call.run) ∧
    (Advances fieldType ∧ Advances path ∧ ∀ s : Settings,
      (∀ noDisplay, Advances (Parse.variant s noDisplay)) ∧
        (∀ done, Advances (tupleField s done)) ∧ ∀ done, Advances (structField s done)) ∧
    (Progresses attributes (fun _ ↦ attribute?) ∧ ∀ s : Settings,
      (∀ noDisplay, Progresses (variants s noDisplay) fun _ ↦ ifMore (Parse.variant s noDisplay)) ∧
        Progresses (tupleFields s) (fun done ↦ ifMore (tupleField s done)) ∧
          Progresses (structFields s) fun done ↦ ifMore (structField s done)) ∧
    ∀ (s : Settings) (label : Option String) (source : String) (x : Definition),
      Definition.parse s label source = .ok x →
        ∃ ts body c d, x.ReadWhole s label source ts body c d := by
  refine ⟨fun ts c hc calls ↦ hc.after calls, fun call hc ↦ Call.atomic hc, ⟨?_, ?_, ?_⟩,
    ⟨progresses_attributes, ?_⟩, fun s label source x hx ↦ Definition.exists_readWhole hx⟩
  · exact advances_of_reads forward_fieldType reads_fieldType
  · exact advances_of_reads forward_path reads_path
  · exact fun s ↦ ⟨fun b ↦ advances_of_reads (forward_variant s b) (reads_variant s b),
      fun done ↦ advances_of_reads (forward_tupleField s done) (reads_tupleField s done),
      fun done ↦ advances_of_reads (forward_structField s done) (reads_structField s done)⟩
  · exact fun s ↦ ⟨fun b ↦ progresses_many fun _ ↦ forward_variant s b,
      progresses_many (forward_tupleField s), progresses_many (forward_structField s)⟩

/-- Calls that fail one after the other, a call for a group that has no such bracket, and an item
with two variants. -/
theorem progress_failing_calls :
    ∃ ts x, Tree.read none "enum E\x7b/// a\nA,/// b\nB\x7d" = .ok ts ∧
      Definition.parse {} none "enum E\x7b/// a\nA,/// b\nB\x7d" = .ok x ∧ ts.length = 3 ∧
        ((Call.after [.expectPunct ":", .expectGroup "<", .path, .readString]
            (.ofSource none "enum E\x7b/// a\nA,/// b\nB\x7d" ts)).Over ts ∧
          (Cursor.ofSource none "enum E\x7b/// a\nA,/// b\nB\x7d" ts).pos ≤
            (Call.after [.expectPunct ":", .expectGroup "<", .path, .readString]
              (.ofSource none "enum E\x7b/// a\nA,/// b\nB\x7d" ts)).pos) ∧
          Call.takesOne (.expectGroup "<") = true ∧
            Atomic Reply.tree? (Call.run (.expectGroup "<")) ∧
              ∃ ts body c d, x.ReadWhole {} none "enum E\x7b/// a\nA,/// b\nB\x7d" ts body c d := by
  have ht : (Tree.read none "enum E\x7b/// a\nA,/// b\nB\x7d").toOption.map List.length = some 3 := by
    decide +kernel
  have hx : (Definition.parse {} none "enum E\x7b/// a\nA,/// b\nB\x7d").toOption.map
      (·.variants.length) = some 2 := by
    decide +kernel
  obtain ⟨ts, ht, hl⟩ := Option.map_eq_some_iff.1 ht
  obtain ⟨x, hx, -⟩ := Option.map_eq_some_iff.1 hx
  have ht := Except.toOption_eq_some_iff.1 ht
  have hx := Except.toOption_eq_some_iff.1 hx
  obtain ⟨hc, ha, -, -, hd⟩ := progress
  exact ⟨ts, x, ht, hx, hl, hc ts _ (Cursor.over_ofSource _ _ ts) _, rfl, ha _ rfl, hd _ _ _ x hx⟩

end Parse

end ErrorDerive
