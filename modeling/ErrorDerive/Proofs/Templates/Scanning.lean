import ErrorDerive.Proofs.Reading.Tokens
import ErrorDerive.Proofs.Templates
import ErrorDerive.Proofs.Templates.Pieces

/-!
# Scanning a template

A template is spelled by pieces: characters other than braces, doubled braces, and bodies without
braces between a pair of them.  Every text starts with pieces up to a place where none starts
(`exists_spelled_append`), so that a text is scanned exactly if it is spelled, by pieces that it
determines; its placeholders are the bodies, in their places; and a text that is not spelled is
refused at the first brace that starts no piece (`placeholders_of_spelling`).
-/

namespace ErrorDerive

/-- A body is the name of a placeholder alone, or the name up to the first colon and what follows
that colon. -/
def Hole.Splits (h : Hole) (body : List Char) : Prop :=
  match h.spec with
  | none => body = h.name.toList ∧ ':' ∉ body
  | some spec => body = h.name.toList ++ ':' :: spec.toList ∧ ':' ∉ h.name.toList

theorem Hole.Proper.splits {h : Hole} (hp : h.Proper) : h.Splits h.body.toList := by
  have hn := hp.name
  rw [Hole.toList_body]
  obtain ⟨name, spec⟩ := h
  cases spec with
  | none => exact ⟨List.append_nil _, by simpa using hn⟩
  | some spec => exact ⟨rfl, hn⟩

theorem Piece.size_pos (p : Piece) : 0 < p.size := by
  cases p with
  | hole h =>
    rw [size, text, ← String.length_toList, Hole.toList_render, List.length_cons]
    exact Nat.succ_pos _
  | plain c => simp [size, text]
  | openBrace => decide
  | closeBrace => decide

namespace Template

variable {offset : Nat} {cs : List Char} {ps qs : List Piece} {template : String} {u : Unmatched}
  {h : Placeholder} {hs : List Placeholder}

/-- Proper pieces whose text is a template. -/
structure Spelled (ps : List Piece) (template : String) : Prop where
  proper : ∀ p ∈ ps, p.Proper
  text : write ps = template

/-- A text that starts with no piece. -/
def Blocked (cs : List Char) : Prop := ∀ p : Piece, p.Proper → ¬ p.text.toList <+: cs

/-- Where a scan stops: at a brace that starts no piece, behind a text that is scanned. -/
structure Stops (template : String) (u : Unmatched) : Prop where
  before : ∃ hs, placeholders (String.ofList (template.toList.take u.offset)) = .ok hs
  brace : template.toList[u.offset]? = some u.brace
  unmatched : isBrace u.brace = true ∧ Blocked (template.toList.drop u.offset)

/-- The placeholders of a template that pieces spell, each with the place of its piece. -/
structure Locates (template : String) (ps : List Piece) (hs : List Placeholder) : Prop where
  holes : hs.map Placeholder.hole = ps.filterMap Piece.hole?
  places : ∀ h ∈ hs, ∃ before behind, ps = before ++ .hole h.hole :: behind ∧
    h.start = (write before).length
  text : ∀ h ∈ hs, stretch template.toList h.start h.stop = h.hole.render.toList
  split : ∀ h ∈ hs, ∃ body, h.hole.render.toList = '{' :: (body ++ ['}']) ∧
    (∀ c ∈ body, isBrace c = false) ∧ h.hole.Splits body
  bounds : ∀ h ∈ hs, h.start < h.stop ∧ h.stop ≤ template.length
  ordered : hs.Pairwise fun x y ↦ x.stop ≤ y.start

/-! ## Pieces up to a brace without its partner -/

/-- Every text starts with pieces, behind which no piece starts. -/
theorem exists_spelled_append (cs : List Char) :
    ∃ ps rest, (∀ p ∈ ps, p.Proper) ∧ (write ps).toList ++ rest = cs ∧ Blocked rest := by
  by_cases hb : Blocked cs
  · exact ⟨[], cs, by simp, rfl, hb⟩
  · obtain ⟨p, hp, rest, rfl⟩ : ∃ p : Piece, p.Proper ∧ p.text.toList <+: cs := by
      simpa [Blocked] using hb
    have hl : rest.length < (p.text.toList ++ rest).length := by
      have hs := p.size_pos
      rw [Piece.size, ← String.length_toList] at hs
      rw [List.length_append]
      omega
    obtain ⟨ps, rest', hs, hx, hr⟩ := exists_spelled_append rest
    exact ⟨p :: ps, rest', List.forall_mem_cons.2 ⟨hp, hs⟩, by simp [hx], hr⟩
termination_by cs.length

/-- Where no piece starts there is a brace, and the text is refused for it. -/
theorem piecesFrom_of_blocked {c : Char} (hb : Blocked (c :: cs)) (offset : Nat) :
    isBrace c = true ∧ piecesFrom offset (c :: cs) = .error ⟨c, offset⟩ := by
  have hc : isBrace c = true := by
    by_contra hn
    exact hb (.plain c) (by simpa [Piece.Proper] using hn) (by simp [Piece.text])
  refine ⟨hc, ?_⟩
  have hd : cs.head? ≠ some c := by
    intro hx
    obtain ⟨rest, rfl⟩ := List.head?_eq_some_iff.1 hx
    rcases Bool.or_eq_true_iff.1 hc with hc | hc
    · obtain rfl := eq_of_beq hc
      exact hb .openBrace trivial ⟨rest, rfl⟩
    · obtain rfl := eq_of_beq hc
      exact hb .closeBrace trivial ⟨rest, rfl⟩
  rw [piecesFrom]
  by_cases ho : c = '{'
  · subst ho
    rw [if_pos rfl, if_neg hd]
    split
    · next rest hr =>
      -- a body and its braces would be a piece
      have hp : ∀ c ∈ cs.takeWhile (!isBrace ·), isBrace c = false := by
        intro c hc
        simpa using List.mem_takeWhile_imp hc
      refine absurd ⟨rest, ?_⟩ (hb (.hole (.ofBody (cs.takeWhile (!isBrace ·))))
        (Hole.proper_ofBody hp))
      have hx := List.takeWhile_append_dropWhile (p := (!isBrace ·)) (l := cs)
      rw [hr] at hx
      simp [Piece.text, Hole.body_ofBody, hx]
    · rfl
  · obtain rfl : c = '}' := by simpa [isBrace, ho] using hc
    rw [if_neg ho, if_pos rfl, if_neg hd]

/-- A text is cut into the pieces that spell it. -/
theorem pieces_eq_ok_iff : pieces template = .ok ps ↔ Spelled ps template := by
  constructor
  · intro hp
    obtain ⟨qs, rest, hq, ht, hb⟩ := exists_spelled_append template.toList
    have hw := piecesFrom_write_append hq 0 rest
    rw [ht, show piecesFrom 0 template.toList = .ok ps from hp] at hw
    cases rest with
    | nil =>
      obtain rfl : ps = qs := by simpa [piecesFrom, Except.map] using hw
      exact ⟨hq, String.toList_injective (by simpa using ht)⟩
    | cons c rest =>
      rw [(piecesFrom_of_blocked hb _).2] at hw
      cases hw
  · rintro ⟨hp, rfl⟩
    exact pieces_write hp

/-- A text is refused behind the pieces that it starts with. -/
theorem pieces_eq_error_iff : pieces template = .error u ↔
    ∃ ps rest, (∀ p ∈ ps, p.Proper) ∧ template.toList = (write ps).toList ++ u.brace :: rest ∧
      u.offset = (write ps).length ∧ Blocked (u.brace :: rest) := by
  constructor
  · intro hp
    obtain ⟨qs, rest, hq, ht, hb⟩ := exists_spelled_append template.toList
    have hw := piecesFrom_write_append hq 0 rest
    rw [ht, show piecesFrom 0 template.toList = .error u from hp] at hw
    cases rest with
    | nil =>
      rw [piecesFrom] at hw
      cases hw
    | cons c rest =>
      rw [(piecesFrom_of_blocked hb _).2, Nat.zero_add] at hw
      cases hw
      exact ⟨qs, rest, hq, ht.symm, rfl, hb⟩
  · rintro ⟨ps, rest, hp, ht, ho, hb⟩
    rw [pieces, ht, piecesFrom_write_append hp, (piecesFrom_of_blocked hb _).2, Nat.zero_add, ← ho]
    rfl

theorem Spelled.unique (hp : Spelled ps template) (hq : Spelled qs template) : ps = qs := by
  have hx := (pieces_eq_ok_iff.2 hp).symm.trans (pieces_eq_ok_iff.2 hq)
  exact Except.ok.inj hx

/-! ## Placeholders in their places -/

theorem placeholders_eq_ok_iff :
    placeholders template = .ok hs ↔ ∃ ps, Spelled ps template ∧ holesFrom 0 ps = hs := by
  simp only [placeholders, Except.map_eq_ok_iff, pieces_eq_ok_iff]

theorem exists_placeholders_iff :
    (∃ hs, placeholders template = .ok hs) ↔ ∃ ps, Spelled ps template := by
  simp only [placeholders_eq_ok_iff]
  exact ⟨fun ⟨_, ps, hp, _⟩ ↦ ⟨ps, hp⟩, fun ⟨ps, hp⟩ ↦ ⟨_, ps, hp, rfl⟩⟩

theorem holesFrom_cons_of_none {p : Piece} (hp : p.hole? = none) (offset : Nat)
    (ps : List Piece) : holesFrom offset (p :: ps) = holesFrom (offset + p.size) ps := by
  cases p with
  | hole x => cases hp
  | _ => rfl

theorem exists_places_of_mem_holesFrom (hm : h ∈ holesFrom offset ps) :
    ∃ before behind, ps = before ++ .hole h.hole :: behind ∧
      h.start = offset + (write before).length ∧ h.stop = h.start + h.hole.render.length := by
  induction ps generalizing offset with
  | nil => cases hm
  | cons p ps ih =>
    have hx : (∃ x, p = .hole x ∧ h = ⟨x, offset, offset + p.size⟩) ∨
        h ∈ holesFrom (offset + p.size) ps := by
      cases p with
      | hole x =>
        refine (List.mem_cons.1 hm).imp_left fun hx ↦ ⟨x, rfl, hx⟩
      | _ => exact .inr hm
    rcases hx with ⟨x, rfl, rfl⟩ | hx
    · exact ⟨[], ps, rfl, rfl, rfl⟩
    · obtain ⟨before, behind, rfl, hs, ht⟩ := ih hx
      exact ⟨p :: before, behind, rfl, by rw [hs, length_write_cons, Nat.add_assoc], ht⟩

theorem pairwise_holesFrom (offset : Nat) (ps : List Piece) :
    (holesFrom offset ps).Pairwise fun x y ↦ x.stop ≤ y.start := by
  fun_induction holesFrom offset ps with
  | case1 => exact .nil
  | case2 offset x ps stop ih =>
    refine List.pairwise_cons.2 ⟨fun y hy ↦ ?_, ih⟩
    obtain ⟨before, -, -, hs, -⟩ := exists_places_of_mem_holesFrom hy
    rw [hs]
    exact Nat.le_add_right _ _
  | case3 offset p ps _ ih => exact ih

/-- A placeholder of a template lies in it where the text of the pieces before it ends. -/
theorem Spelled.lies {x : Hole} {before behind : List Piece}
    (hp : Spelled (before ++ .hole x :: behind) template) :
    template.toList =
      (write before).toList ++ (x.render.toList ++ (write behind).toList) := by
  rw [← hp.text, toList_write_append, toList_write_cons, Piece.text]

/-- The placeholders of the pieces are located in the text that the pieces spell. -/
theorem Spelled.locates (hp : Spelled ps template) : Locates template ps (holesFrom 0 ps) := by
  have hplace : ∀ h ∈ holesFrom 0 ps, ∃ before behind, ps = before ++ .hole h.hole :: behind ∧
      h.start = (write before).length ∧ h.stop = h.start + h.hole.render.length := by
    intro h hm
    simpa using exists_places_of_mem_holesFrom hm
  refine ⟨map_hole_holesFrom 0 ps, ?_, ?_, ?_, ?_, pairwise_holesFrom 0 ps⟩
  · intro h hm
    obtain ⟨before, behind, hx, hs, -⟩ := hplace h hm
    exact ⟨before, behind, hx, hs⟩
  · intro h hm
    obtain ⟨before, behind, rfl, hs, ht⟩ := hplace h hm
    rw [ht, hs, hp.lies, ← String.length_toList, ← String.length_toList]
    exact stretch_append _ _ _
  · intro h hm
    obtain ⟨before, behind, rfl, -, -⟩ := hplace h hm
    have hh : h.hole.Proper := hp.proper (.hole h.hole) (by simp)
    exact ⟨_, h.hole.toList_render, hh.body, hh.splits⟩
  · intro h hm
    obtain ⟨before, behind, rfl, hs, ht⟩ := hplace h hm
    have hl : 0 < h.hole.render.length := (Piece.hole h.hole).size_pos
    have hx := congrArg List.length hp.lies
    simp only [List.length_append, String.length_toList] at hx
    omega

/-! ## Scanning -/

/-- What stands before the brace that a template is refused for is a template, and no piece starts
at that brace. -/
theorem placeholders_eq_error_iff : placeholders template = .error u ↔ Stops template u := by
  have hm : placeholders template = .error u ↔ pieces template = .error u := by
    unfold placeholders
    cases pieces template <;> simp [Except.map]
  rw [hm, pieces_eq_error_iff]
  constructor
  · rintro ⟨ps, rest, hp, ht, ho, hb⟩
    have hl : u.offset = (write ps).toList.length := by rw [ho, String.length_toList]
    refine ⟨?_, ?_, ?_⟩
    · rw [ht, hl, List.take_left, String.ofList_toList]
      exact exists_placeholders_iff.2 ⟨ps, hp, rfl⟩
    · rw [ht, hl, List.getElem?_append_right (Nat.le_refl _), Nat.sub_self]
      rfl
    · rw [ht, hl, List.drop_left]
      exact ⟨(piecesFrom_of_blocked hb 0).1, hb⟩
  · rintro ⟨hbefore, hbrace, -, hb⟩
    obtain ⟨ps, hp, hw⟩ := exists_placeholders_iff.1 hbefore
    obtain ⟨ho, hx⟩ := List.getElem?_eq_some_iff.1 hbrace
    have hd : template.toList.drop u.offset = u.brace :: template.toList.drop (u.offset + 1) := by
      rw [List.drop_eq_getElem_cons ho, hx]
    have hw := congrArg String.toList hw
    rw [String.toList_ofList] at hw
    refine ⟨ps, template.toList.drop (u.offset + 1), hp, ?_, ?_, hd ▸ hb⟩
    · rw [hw, ← hd, List.take_append_drop]
    · rw [← String.length_toList, hw, List.length_take, Nat.min_eq_left (Nat.le_of_lt ho)]

/-- A template is scanned exactly if it is spelled by pieces, in one way; its placeholders are then
the bodies among the pieces, in their places.  Otherwise the scan stops at the first brace that
starts no piece. -/
theorem placeholders_of_spelling (template : String) :
    ((∃ hs, placeholders template = .ok hs) ↔ ∃! ps, Spelled ps template) ∧
      (∀ hs, placeholders template = .ok hs →
        ∃ ps, Spelled ps template ∧ Locates template ps hs) ∧
      ∀ u, placeholders template = .error u ↔ Stops template u := by
  refine ⟨?_, ?_, fun u ↦ placeholders_eq_error_iff⟩
  · rw [exists_placeholders_iff]
    exact ⟨fun ⟨ps, hp⟩ ↦ ⟨ps, hp, fun qs hq ↦ hq.unique hp⟩, fun ⟨ps, hp, _⟩ ↦ ⟨ps, hp⟩⟩
  · intro hs h
    obtain ⟨ps, hp, rfl⟩ := placeholders_eq_ok_iff.1 h
    exact ⟨ps, hp, hp.locates⟩

/-- A placeholder between escaped braces, and a brace without its partner behind escaped ones. -/
theorem placeholders_of_spelling_escaped :
    (∃ ps, Spelled ps "\x7b\x7b\x7ba::\x7d\x7d\x7d" ∧
      Locates "\x7b\x7b\x7ba::\x7d\x7d\x7d" ps [⟨⟨"a", some ":"⟩, 2, 7⟩]) ∧
      Stops "\x7d\x7d\x7ba\x7b\x7bb\x7d\x7d" ⟨'{', 2⟩ := by
  have hp : (placeholders "\x7b\x7b\x7ba::\x7d\x7d\x7d").toOption =
      some [⟨⟨"a", some ":"⟩, 2, 7⟩] := by
    decide +kernel
  have hu : placeholders "\x7d\x7d\x7ba\x7b\x7bb\x7d\x7d" = .error ⟨'{', 2⟩ := by
    cbv
  exact ⟨(placeholders_of_spelling _).2.1 _ (Except.toOption_eq_some_iff.1 hp),
    ((placeholders_of_spelling _).2.2 _).1 hu⟩

end Template

end ErrorDerive
