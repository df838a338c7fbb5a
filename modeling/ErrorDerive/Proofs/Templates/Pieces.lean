import ErrorDerive.Proofs.Parsing.Fields
import ErrorDerive.Template
import Mathlib.Data.List.Forall2
import Mathlib.Data.List.TakeWhile

/-!
# Templates and their pieces

A piece is proper if it can stand in a template: its text holds no brace but its own, and no colon
in the name of a placeholder.  A template is cut into proper pieces, and proper pieces are what
their text is cut into (`pieces_write`); binding indices keeps pieces proper, so a template stays
one that can be read (`exists_pieces_of_bindIndices`).
-/

namespace ErrorDerive

/-! ## Proper pieces -/

/-- A placeholder without braces, whose name goes up to the first colon. -/
structure Hole.Proper (h : Hole) : Prop where
  body : ∀ c ∈ h.body.toList, Template.isBrace c = false
  name : ':' ∉ h.name.toList

/-- A piece that can stand in a template. -/
def Piece.Proper : Piece → Prop
  | .plain c => Template.isBrace c = false
  | .openBrace => True
  | .closeBrace => True
  | .hole h => h.Proper

namespace Hole

theorem toList_body (h : Hole) :
    h.body.toList = h.name.toList ++ (h.spec.map fun s ↦ ':' :: s.toList).getD [] := by
  obtain ⟨name, spec⟩ := h
  cases spec <;> simp [body]

@[simp] theorem toList_render (h : Hole) :
    h.render.toList = '{' :: (h.body.toList ++ ['}']) := by
  simp [render]

/-- The name of a placeholder goes up to the first colon. -/
theorem ofBody_body {h : Hole} (hn : ':' ∉ h.name.toList) : ofBody h.body.toList = h := by
  have hp : ∀ c ∈ h.name.toList, decide (c ≠ ':') = true := by
    intro c hc
    rw [decide_eq_true_eq]
    rintro rfl
    exact hn hc
  rw [toList_body, ofBody, List.dropWhile_append_of_pos hp, List.takeWhile_append_of_pos hp]
  obtain ⟨name, spec⟩ := h
  cases spec <;> simp

theorem colon_not_mem_name_ofBody (body : List Char) : ':' ∉ (ofBody body).name.toList := by
  unfold ofBody
  split
  · next h =>
    intro hc
    rw [String.toList_ofList] at hc
    have hp := List.dropWhile_eq_nil_iff.1 h ':' hc
    simp at hp
  · intro hc
    rw [String.toList_ofList] at hc
    have hp := List.mem_takeWhile_imp hc
    simp at hp

theorem proper_ofBody {body : List Char} (h : ∀ c ∈ body, Template.isBrace c = false) :
    (ofBody body).Proper :=
  ⟨by rwa [body_ofBody, String.toList_ofList], colon_not_mem_name_ofBody body⟩

end Hole

/-- The name of a tuple field is not read as an index. -/
theorem isNumeral_tupleAlias (key : String) : Text.isNumeral (tupleAlias key).toList = false := by
  rw [tupleAlias, String.toList_append]
  rfl

namespace Template

variable {offset count : Nat} {ps qs : List Piece} {template : String}

@[simp] theorem toList_write_cons (p : Piece) (ps : List Piece) :
    (write (p :: ps)).toList = p.text.toList ++ (write ps).toList := by
  simp [write]

theorem toList_write_append (ps qs : List Piece) :
    (write (ps ++ qs)).toList = (write ps).toList ++ (write qs).toList := by
  induction ps with
  | nil => rfl
  | cons p ps ih =>
    rw [List.cons_append, toList_write_cons, toList_write_cons, ih, List.append_assoc]

@[simp] theorem length_write_cons (p : Piece) (ps : List Piece) :
    (write (p :: ps)).length = p.size + (write ps).length := by
  rw [← String.length_toList, toList_write_cons, List.length_append, String.length_toList,
    String.length_toList, Piece.size]

/-! ## Reading pieces -/

/-- Scanning yields proper pieces. -/
theorem proper_of_piecesFrom {cs : List Char} (h : piecesFrom offset cs = .ok ps) :
    ∀ p ∈ ps, p.Proper := by
  fun_induction piecesFrom offset cs generalizing ps with
  | case1 =>
    cases h
    simp
  | case2 offset cs hc ih =>
    obtain ⟨qs, hq, rfl⟩ := Except.map_eq_ok_iff.1 h
    exact List.forall_mem_cons.2 ⟨trivial, ih hq⟩
  | case3 offset cs hc rest hd body =>
    rename_i ih
    obtain ⟨qs, hq, rfl⟩ := Except.map_eq_ok_iff.1 h
    refine List.forall_mem_cons.2 ⟨Hole.proper_ofBody fun c hc ↦ ?_, ih hq⟩
    simpa using List.mem_takeWhile_imp hc
  | case4 => cases h
  | case5 offset cs _ hc ih =>
    obtain ⟨qs, hq, rfl⟩ := Except.map_eq_ok_iff.1 h
    exact List.forall_mem_cons.2 ⟨trivial, ih hq⟩
  | case6 => cases h
  | case7 offset c cs ho hc ih =>
    obtain ⟨qs, hq, rfl⟩ := Except.map_eq_ok_iff.1 h
    refine List.forall_mem_cons.2 ⟨?_, ih hq⟩
    simp [Piece.Proper, isBrace, ho, hc]

/-- A proper piece is the first that its text is cut into, whatever follows it. -/
theorem piecesFrom_text {p : Piece} (hp : p.Proper) (offset : Nat) (cs : List Char) :
    piecesFrom offset (p.text.toList ++ cs) = (piecesFrom (offset + p.size) cs).map (p :: ·) := by
  cases p with
  | plain c =>
    obtain ⟨ho, hc⟩ : c ≠ '{' ∧ c ≠ '}' := by simpa [Piece.Proper, isBrace] using hp
    simp only [Piece.size, Piece.text, Char.toString_eq_singleton, String.toList_singleton,
      String.length_singleton, List.singleton_append]
    rw [piecesFrom, if_neg ho, if_neg hc]
  | openBrace =>
    change piecesFrom offset ('{' :: '{' :: cs) = _
    rw [piecesFrom, if_pos rfl, if_pos (List.head?_cons ..)]
    rfl
  | closeBrace =>
    change piecesFrom offset ('}' :: '}' :: cs) = _
    rw [piecesFrom, if_neg (by decide), if_pos rfl, if_pos (List.head?_cons ..)]
    rfl
  | hole h =>
    have hb : ∀ c ∈ h.body.toList, (!isBrace c) = true := by
      intro c hc
      simp [hp.body c hc]
    have ht : (Piece.hole h).text.toList ++ cs = '{' :: (h.body.toList ++ '}' :: cs) := by
      simp [Piece.text]
    have hl : (Piece.hole h).size = h.body.toList.length + 2 := by
      rw [Piece.size, ← String.length_toList, Piece.text, Hole.toList_render, List.length_cons,
        List.length_append, List.length_singleton]
    have hn : (h.body.toList ++ '}' :: cs).head? ≠ some '{' := by
      cases hx : h.body.toList with
      | nil => simp
      | cons c body =>
        rintro ⟨⟩
        exact absurd (hb '{' (by simp [hx])) (by decide)
    have hd : (h.body.toList ++ '}' :: cs).dropWhile (!isBrace ·) = '}' :: cs := by
      rw [List.dropWhile_append_of_pos hb]
      rfl
    have hw : (h.body.toList ++ '}' :: cs).takeWhile (!isBrace ·) = h.body.toList := by
      rw [List.takeWhile_append_of_pos hb]
      simp [isBrace]
    rw [ht, hl, piecesFrom, if_pos rfl, if_neg hn]
    split
    · next rest hr =>
      obtain rfl : rest = cs := by simpa [hd, eq_comm] using hr
      simp only [hw, Hole.ofBody_body hp.name, Nat.add_assoc]
    · next hr => exact absurd hd (hr cs)

/-- Proper pieces are the first that their text is cut into, whatever follows it. -/
theorem piecesFrom_write_append (h : ∀ p ∈ ps, p.Proper) (offset : Nat) (cs : List Char) :
    piecesFrom offset ((write ps).toList ++ cs) =
      (piecesFrom (offset + (write ps).length) cs).map (ps ++ ·) := by
  induction ps generalizing offset with
  | nil =>
    change piecesFrom offset cs = (piecesFrom offset cs).map id
    exact (id_map (piecesFrom offset cs)).symm
  | cons p ps ih =>
    obtain ⟨hp, hs⟩ := List.forall_mem_cons.1 h
    rw [toList_write_cons, List.append_assoc, piecesFrom_text hp, ih hs, length_write_cons,
      Nat.add_assoc]
    cases piecesFrom _ cs <;> rfl

/-- Proper pieces are what their text is cut into. -/
theorem pieces_write (h : ∀ p ∈ ps, p.Proper) : pieces (write ps) = .ok ps := by
  have hw := piecesFrom_write_append h 0 []
  rwa [List.append_nil, piecesFrom, Except.map, List.append_nil] at hw

/-! ## Binding indices -/

theorem mapM_eq_ok_iff {α β ε : Type} {f : α → Except ε β} {xs : List α} {ys : List β} :
    xs.mapM f = .ok ys ↔ List.Forall₂ (fun x y ↦ f x = .ok y) xs ys := by
  induction xs generalizing ys with
  | nil =>
    rw [List.mapM_nil, List.forall₂_nil_left_iff]
    exact ⟨fun h ↦ (Except.ok.inj h).symm, fun h ↦ congrArg Except.ok h.symm⟩
  | cons x xs ih =>
    rw [List.mapM_cons, List.forall₂_cons_left_iff]
    constructor
    · intro h
      obtain ⟨y, hy, h⟩ := Except.bind_eq_ok_iff.1 h
      obtain ⟨zs, hz, h⟩ := Except.bind_eq_ok_iff.1 h
      cases h
      exact ⟨y, zs, hy, ih.1 hz, rfl⟩
    · rintro ⟨y, zs, hy, hz, rfl⟩
      exact Except.bind_eq_ok_iff.2 ⟨y, hy, Except.bind_eq_ok_iff.2 ⟨zs, ih.2 hz, rfl⟩⟩

theorem mem_tupleAlias {n : Nat} {c : Char} (h : c ∈ (tupleAlias (toString n)).toList) :
    c ∈ "field_".toList ∨ c.isDigit = true := by
  rw [tupleAlias, String.toList_append, List.mem_append] at h
  refine h.imp_right fun h ↦ ?_
  rw [Nat.toString_eq_ofList_toDigits, String.toList_ofList] at h
  exact Nat.isDigit_of_mem_toDigits (by omega) (by omega) h

/-- The name of a tuple field can stand in a placeholder. -/
theorem not_isBrace_of_mem_tupleAlias {n : Nat} {c : Char}
    (h : c ∈ (tupleAlias (toString n)).toList) : isBrace c = false ∧ c ≠ ':' := by
  rcases mem_tupleAlias h with h | h
  · have hf : "field_".toList.all (fun c ↦ !isBrace c && c != ':') = true := by decide
    simpa using List.all_eq_true.1 hf c h
  · refine ⟨?_, ?_⟩
    · rw [isBrace, Bool.or_eq_false_iff, beq_eq_false_iff_ne, beq_eq_false_iff_ne]
      constructor <;> rintro rfl <;> exact absurd h (by decide)
    · rintro rfl
      exact absurd h (by decide)

theorem proper_rename {h : Hole} (hh : h.Proper) (n : Nat) :
    (h.rename (tupleAlias (toString n))).Proper := by
  refine ⟨fun c hc ↦ ?_, fun hc ↦ (not_isBrace_of_mem_tupleAlias hc).2 rfl⟩
  rw [Hole.toList_body, List.mem_append] at hc
  rcases hc with hc | hc
  · exact (not_isBrace_of_mem_tupleAlias hc).1
  · refine hh.body c ?_
    rw [Hole.toList_body]
    exact List.mem_append_right _ hc

theorem proper_bindPiece {p q : Piece} (hp : p.Proper) (h : bindPiece count p = .ok q) :
    q.Proper := by
  cases p with
  | hole x =>
    obtain ⟨y, hy, rfl⟩ := Except.map_eq_ok_iff.1 h
    unfold bindIndex at hy
    split at hy
    · obtain ⟨i, -, rfl⟩ := Except.map_eq_ok_iff.1 hy
      split
      · exact proper_rename hp i
      · exact hp
    · cases hy
      exact hp
  | _ =>
    cases h
    exact hp

theorem proper_mapM_bindPiece (hp : ∀ p ∈ ps, p.Proper)
    (h : ps.mapM (bindPiece count) = .ok qs) : ∀ q ∈ qs, q.Proper := by
  rw [mapM_eq_ok_iff] at h
  induction h with
  | nil => simp
  | cons hq _ ih =>
    obtain ⟨hp, hs⟩ := List.forall_mem_cons.1 hp
    exact List.forall_mem_cons.2 ⟨proper_bindPiece hp hq, ih hs⟩

/-- A template stays one that can be read when its indices are bound. -/
theorem exists_pieces_of_bindIndices {bound : String} (h : bindIndices template count = .ok bound) :
    ∃ qs, pieces bound = .ok qs := by
  unfold bindIndices at h
  split at h
  · cases h
  · next ps hp =>
    split at h
    · cases h
    · next qs hq =>
      cases h
      exact ⟨qs, pieces_write (proper_mapM_bindPiece (proper_of_piecesFrom hp) hq)⟩

end Template

end ErrorDerive
