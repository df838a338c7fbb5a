import ErrorDerive.Proofs.Templates.Scanning

/-!
# Binding the indices of a template

Binding renames placeholders and leaves everything else of a template as it stands: the text around
the placeholders and their specifications (`bindIndices_rebinds`).  What is bound stays bound, and
where there are no fields nothing is renamed.
-/

namespace ErrorDerive.Template

variable {count : Nat} {name template result : String} {ps qs : List Piece}
  {hs gs : List Placeholder} {x y : Hole} {p q : Piece}

/-- The name of a placeholder when indices below a count are bound: that of a tuple field if it is a
numeral for one, with or without zeros in front. -/
def boundName (count : Nat) (name : String) : String :=
  if Text.isNumeral name.toList = true ∧ Text.ofDigits name.toList < count then
    tupleAlias (toString (Text.ofDigits name.toList))
  else name

/-- The text of a template around placeholders: from an offset up to the first of them, between
them, and behind the last. -/
def around (text : List Char) (offset : Nat) : List Placeholder → List (List Char)
  | [] => [text.drop offset]
  | h :: hs => stretch text offset h.start :: around text h.stop hs

/-- Two templates that differ in the names of their placeholders only, the second of which has the
indices below a count bound. -/
structure Rebinds (count : Nat) (template result : String) (hs gs : List Placeholder) : Prop where
  names : List.Forall₂ (fun x y ↦ y.hole.name = boundName count x.hole.name) hs gs
  specs : List.Forall₂ (fun x y ↦ y.hole.spec = x.hole.spec) hs gs
  texts : around result.toList 0 gs = around template.toList 0 hs

/-! ## Names -/

theorem boundName_of_not_lt (h : Text.isNumeral name.toList = true →
    count ≤ Text.ofDigits name.toList) : boundName count name = name := by
  rw [boundName, if_neg]
  rintro ⟨hn, hl⟩
  exact absurd hl (Nat.not_lt.2 (h hn))

@[simp] theorem boundName_zero (name : String) : boundName 0 name = name :=
  boundName_of_not_lt fun _ ↦ Nat.zero_le _

/-- A name that is bound is no numeral any more. -/
theorem boundName_cases (count : Nat) (name : String) :
    (boundName count name = name ∧
      (Text.isNumeral name.toList = true → count ≤ Text.ofDigits name.toList)) ∨
      Text.isNumeral (boundName count name).toList = false := by
  by_cases hn : Text.isNumeral name.toList = true ∧ Text.ofDigits name.toList < count
  · right
    rw [boundName, if_pos hn]
    exact isNumeral_tupleAlias _
  · left
    have hx : Text.isNumeral name.toList = true → count ≤ Text.ofDigits name.toList :=
      fun h ↦ Nat.not_lt.1 fun hl ↦ hn ⟨h, hl⟩
    exact ⟨boundName_of_not_lt hx, hx⟩

theorem boundName_boundName (count : Nat) (name : String) :
    boundName count (boundName count name) = boundName count name := by
  rcases boundName_cases count name with ⟨h, -⟩ | h
  · rw [h, h]
  · refine boundName_of_not_lt fun hn ↦ ?_
    rw [h] at hn
    cases hn

/-! ## Pieces -/

/-- The index of a placeholder is bound unless it is too long to be read. -/
theorem bindIndex_eq_ok_iff : bindIndex count x = .ok y ↔
    (Text.isNumeral x.name.toList = true → x.name.toList.length ≤ Text.maxDigits) ∧
      x.rename (boundName count x.name) = y := by
  unfold bindIndex
  by_cases hn : Text.isNumeral x.name.toList = true
  · by_cases hm : x.name.toList.length ≤ Text.maxDigits
    · by_cases hl : Text.ofDigits x.name.toList < count <;>
        simp [Text.readNumeral, boundName, hn, hm, hl, Except.map, Hole.rename]
    · simp [Text.readNumeral, hn, hm, Except.map]
  · simp [boundName, hn, Hole.rename]

theorem bindPiece_eq_ok_iff : bindPiece count p = .ok q ↔
    (∃ x y, p = .hole x ∧ q = .hole y ∧ bindIndex count x = .ok y) ∨
      p.hole? = none ∧ q = p := by
  cases p with
  | hole x =>
    simp only [bindPiece, Except.map_eq_ok_iff, Piece.hole.injEq, Piece.hole?, reduceCtorEq,
      false_and, or_false]
    constructor
    · rintro ⟨y, hy, hq⟩
      exact ⟨x, y, rfl, hq.symm, hy⟩
    · rintro ⟨_, y, rfl, hq, hy⟩
      exact ⟨y, hy, hq.symm⟩
  | _ => simp [bindPiece, Piece.hole?, eq_comm]

/-- A bound piece stays as it is. -/
theorem bindPiece_again (h : bindPiece count p = .ok q) : bindPiece count q = .ok q := by
  rcases bindPiece_eq_ok_iff.1 h with ⟨x, y, rfl, rfl, hx⟩ | ⟨-, rfl⟩
  · obtain ⟨hm, rfl⟩ := bindIndex_eq_ok_iff.1 hx
    have hy : bindIndex count (x.rename (boundName count x.name)) =
        .ok (x.rename (boundName count x.name)) := by
      refine bindIndex_eq_ok_iff.2 ⟨fun hn ↦ ?_, ?_⟩
      · rcases boundName_cases count x.name with ⟨hb, -⟩ | hb
        · rw [hb] at hn ⊢
          exact hm hn
        · rw [Hole.rename, hb] at hn
          cases hn
      · exact congrArg x.rename (boundName_boundName count x.name)
    exact bindPiece_eq_ok_iff.2 (.inl ⟨_, _, rfl, rfl, hy⟩)
  · exact h

/-- Without fields, a piece stays as it is if its index can be read. -/
theorem bindPiece_zero (h : bindPiece count p = .ok q) : bindPiece 0 p = .ok p := by
  rcases bindPiece_eq_ok_iff.1 h with ⟨x, y, rfl, rfl, hx⟩ | hp
  · have hx : bindIndex 0 x = .ok x := by
      refine bindIndex_eq_ok_iff.2 ⟨(bindIndex_eq_ok_iff.1 hx).1, ?_⟩
      rw [boundName_zero]
      rfl
    exact bindPiece_eq_ok_iff.2 (.inl ⟨x, x, rfl, rfl, hx⟩)
  · exact bindPiece_eq_ok_iff.2 (.inr ⟨hp.1, rfl⟩)

/-! ## Templates -/

/-- Pieces one by one with the same pieces when indices are bound. -/
def Bound (count : Nat) : List Piece → List Piece → Prop :=
  List.Forall₂ fun p q ↦ bindPiece count p = .ok q

theorem bindIndices_eq_ok_iff : bindIndices template count = .ok result ↔
    ∃ ps qs, Spelled ps template ∧ Bound count ps qs ∧ Spelled qs result := by
  unfold bindIndices
  constructor
  · intro h
    split at h
    · cases h
    · next ps hp =>
      split at h
      · cases h
      · next qs hq =>
        cases h
        have hs := pieces_eq_ok_iff.1 hp
        exact ⟨ps, qs, hs, mapM_eq_ok_iff.1 hq, proper_mapM_bindPiece hs.proper hq, rfl⟩
  · rintro ⟨ps, qs, hp, hb, hq⟩
    rw [pieces_eq_ok_iff.2 hp]
    simp only [mapM_eq_ok_iff.2 hb, hq.text]

theorem Bound.again (h : Bound count ps qs) : Bound count qs qs := by
  induction h with
  | nil => exact .nil
  | cons hp _ ih => exact .cons (bindPiece_again hp) ih

theorem Bound.zero (h : Bound count ps qs) : Bound 0 ps ps := by
  induction h with
  | nil => exact .nil
  | cons hp _ ih => exact .cons (bindPiece_zero hp) ih

/-- The placeholders of bound pieces are the same but for their names and places. -/
theorem Bound.holes (h : Bound count ps qs) (offset offset' : Nat) :
    List.Forall₂ (fun x y ↦ y.hole = x.hole.rename (boundName count x.hole.name))
      (holesFrom offset ps) (holesFrom offset' qs) := by
  induction h generalizing offset offset' with
  | nil => exact .nil
  | cons hp _ ih =>
    rcases bindPiece_eq_ok_iff.1 hp with ⟨x, y, rfl, rfl, hx⟩ | ⟨hn, rfl⟩
    · exact .cons (bindIndex_eq_ok_iff.1 hx).2.symm (ih _ _)
    · rw [holesFrom_cons_of_none hn, holesFrom_cons_of_none hn]
      exact ih _ _

/-- The text around the first placeholder, and what is around the others. -/
theorem around_hole (front pend : List Char) (x : Hole) (ps : List Piece) :
    around (front ++ (pend ++ (write (.hole x :: ps)).toList)) front.length
        (holesFrom (front.length + pend.length) (.hole x :: ps)) =
      pend :: around ((front ++ pend ++ x.render.toList) ++ ([] ++ (write ps).toList))
        (front ++ pend ++ x.render.toList).length
        (holesFrom ((front ++ pend ++ x.render.toList).length + ([] : List Char).length) ps) := by
  have ht : front ++ (pend ++ (write (.hole x :: ps)).toList) =
      (front ++ pend ++ x.render.toList) ++ ([] ++ (write ps).toList) := by
    rw [toList_write_cons, Piece.text]
    simp only [List.append_assoc, List.nil_append]
  have hl : front.length + pend.length + (Piece.hole x).size =
      (front ++ pend ++ x.render.toList).length := by
    rw [List.length_append, List.length_append, String.length_toList]
    rfl
  rw [holesFrom, around, stretch_append, ht, hl]
  rfl

theorem Bound.around_eq (h : Bound count ps qs) (front front' pend : List Char) :
    around (front' ++ (pend ++ (write qs).toList)) front'.length
        (holesFrom (front'.length + pend.length) qs) =
      around (front ++ (pend ++ (write ps).toList)) front.length
        (holesFrom (front.length + pend.length) ps) := by
  induction h generalizing front front' pend with
  | nil => simp [holesFrom, around]
  | @cons p q ps qs hp _ ih =>
    rcases bindPiece_eq_ok_iff.1 hp with ⟨x, y, rfl, rfl, hx⟩ | ⟨hn, rfl⟩
    · rw [around_hole, around_hole, ih]
    · have hl : ∀ n, n + pend.length + q.size = n + (pend ++ q.text.toList).length := by
        intro n
        rw [List.length_append, String.length_toList, Nat.add_assoc]
        rfl
      rw [holesFrom_cons_of_none hn, holesFrom_cons_of_none hn, toList_write_cons,
        toList_write_cons, hl, hl, ← List.append_assoc pend, ← List.append_assoc pend]
      exact ih front front' (pend ++ q.text.toList)

theorem Bound.rebinds (h : Bound count ps qs) (hp : Spelled ps template) (hq : Spelled qs result) :
    Rebinds count template result (holesFrom 0 ps) (holesFrom 0 qs) := by
  have hh := h.holes 0 0
  refine ⟨hh.imp fun x y hx ↦ ?_, hh.imp fun x y hx ↦ ?_, ?_⟩
  · rw [hx]
    rfl
  · rw [hx]
    rfl
  · rw [← hp.text, ← hq.text]
    exact h.around_eq [] [] []

/-- Binding indices renames placeholders and keeps everything else.  The names are then those that
were bound, each once; binding again changes nothing, and neither does binding for no fields. -/
theorem bindIndices_rebinds (h : bindIndices template count = .ok result) :
    ∃ hs gs, placeholders template = .ok hs ∧ placeholders result = .ok gs ∧
      Rebinds count template result hs gs ∧
      (∃ ns, names result = .ok ns ∧
        FirstAppearances (hs.map fun x ↦ boundName count x.hole.name) ns) ∧
      bindIndices result count = .ok result ∧ bindIndices template 0 = .ok template := by
  obtain ⟨ps, qs, hp, hb, hq⟩ := bindIndices_eq_ok_iff.1 h
  have hr := hb.rebinds hp hq
  have hg := placeholders_eq_ok_iff.2 ⟨qs, hq, rfl⟩
  refine ⟨_, _, placeholders_eq_ok_iff.2 ⟨ps, hp, rfl⟩, hg, hr, ?_,
    bindIndices_eq_ok_iff.2 ⟨qs, qs, hq, hb.again, hq⟩,
    bindIndices_eq_ok_iff.2 ⟨ps, ps, hp, hb.zero, hp⟩⟩
  have hn : names result = .ok (namesOf qs) := by
    rw [names, pieces_eq_ok_iff.2 hq]
    rfl
  obtain ⟨gs, hgs, hf⟩ := firstAppearances_names hn
  obtain rfl : holesFrom 0 qs = gs := Except.ok.inj (hg.symm.trans hgs)
  have hm : (holesFrom 0 qs).map (fun y ↦ y.hole.name) =
      (holesFrom 0 ps).map fun x ↦ boundName count x.hole.name := by
    rw [← List.forall₂_eq_eq_eq, List.forall₂_map_left_iff, List.forall₂_map_right_iff]
    exact hr.names.flip
  exact ⟨namesOf qs, hn, hm ▸ hf⟩

/-- Indices with zeros in front, between escaped braces, out of range and in a specification. -/
def indexed : String := "\x7b\x7b\x7b01:?\x7d\x7d\x7d\x7b0\x7d\x7b2\x7d\x7bx:0\x7d"

/-- The same template when the indices of two fields are bound. -/
def indexedBound : String :=
  "\x7b\x7b\x7bfield_1:?\x7d\x7d\x7d\x7bfield_0\x7d\x7b2\x7d\x7bx:0\x7d"

theorem bindIndices_rebinds_indexed :
    bindIndices indexed 2 = .ok indexedBound ∧
      ∃ hs gs, placeholders indexed = .ok hs ∧ placeholders indexedBound = .ok gs ∧
        Rebinds 2 indexed indexedBound hs gs ∧
        (∃ ns, names indexedBound = .ok ns ∧
          FirstAppearances (hs.map fun x ↦ boundName 2 x.hole.name) ns) ∧
        bindIndices indexedBound 2 = .ok indexedBound ∧ bindIndices indexed 0 = .ok indexed := by
  have h : (bindIndices indexed 2).toOption = some indexedBound := by decide +kernel
  have h := Except.toOption_eq_some_iff.1 h
  exact ⟨h, bindIndices_rebinds h⟩

end ErrorDerive.Template
