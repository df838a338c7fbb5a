import ErrorDerive.Template
import Mathlib.Data.List.Nodup

/-!
# Names in templates

The names that a template refers to are those of its placeholders, each once, in the order of their
first appearance.
-/

namespace ErrorDerive

/-- A list holds the elements of another one, each once, in the order of their first appearance. -/
structure FirstAppearances (xs ys : List String) : Prop where
  nodup : ys.Nodup
  mem_iff : ∀ x, x ∈ ys ↔ x ∈ xs
  ordered : ys.Pairwise fun x y ↦ xs.idxOf x < xs.idxOf y

/-- Elements that a filter keeps stay in their order. -/
theorem idxOf_lt_of_filter {p : String → Bool} {xs : List String} {x y : String}
    (hx : p x = true) (hy : p y = true) (h : (xs.filter p).idxOf x < (xs.filter p).idxOf y) :
    xs.idxOf x < xs.idxOf y := by
  induction xs with
  | nil => simp at h
  | cons z xs ih =>
    by_cases hz : p z = true
    · rw [List.filter_cons_of_pos hz] at h
      by_cases hzy : z = y
      · rw [hzy, List.idxOf_cons_self] at h
        cases h
      · rw [List.idxOf_cons_ne _ hzy] at h ⊢
        by_cases hzx : z = x
        · rw [hzx, List.idxOf_cons_self]
          exact Nat.succ_pos _
        · rw [List.idxOf_cons_ne _ hzx] at h ⊢
          exact Nat.succ_lt_succ (ih (Nat.lt_of_succ_lt_succ h))
    · rw [List.filter_cons_of_neg hz] at h
      have hzx : z ≠ x := by rintro rfl; exact hz hx
      have hzy : z ≠ y := by rintro rfl; exact hz hy
      rw [List.idxOf_cons_ne _ hzx, List.idxOf_cons_ne _ hzy]
      exact Nat.succ_lt_succ (ih h)

theorem firstAppearances_eraseDups (xs : List String) : FirstAppearances xs xs.eraseDups := by
  match xs with
  | [] => exact ⟨by simp, by simp, by simp⟩
  | x :: xs =>
    -- the rest is the same list for the elements other than the first
    have ih := firstAppearances_eraseDups (xs.filter fun y ↦ !y == x)
    have hne : ∀ y ∈ (xs.filter fun y ↦ !y == x).eraseDups, y ≠ x := by
      intro y hy
      simpa using (List.mem_filter.1 ((ih.mem_iff y).1 hy)).2
    rw [List.eraseDups_cons]
    refine ⟨?_, ?_, ?_⟩
    · exact List.nodup_cons.2 ⟨fun hx ↦ hne x hx rfl, ih.nodup⟩
    · intro y
      rw [List.mem_cons, List.mem_cons, ih.mem_iff, List.mem_filter]
      by_cases hy : y = x
      · simp [hy]
      · simp [hy]
    · refine List.pairwise_cons.2 ⟨fun y hy ↦ ?_, ?_⟩
      · rw [List.idxOf_cons_self, List.idxOf_cons_ne _ (Ne.symm (hne y hy))]
        exact Nat.succ_pos _
      · refine ih.ordered.imp_of_mem fun {y z} hy hz h ↦ ?_
        have h := idxOf_lt_of_filter (by simpa using hne y hy) (by simpa using hne z hz) h
        rw [List.idxOf_cons_ne _ (Ne.symm (hne y hy)), List.idxOf_cons_ne _ (Ne.symm (hne z hz))]
        exact Nat.succ_lt_succ h
termination_by xs.length
decreasing_by
  simp only [List.length_cons]
  exact Nat.lt_succ_of_le (List.length_filter_le _ _)

namespace Template

theorem map_hole_holesFrom (offset : Nat) (ps : List Piece) :
    (holesFrom offset ps).map Placeholder.hole = ps.filterMap Piece.hole? := by
  fun_induction holesFrom offset ps with
  | case1 => rfl
  | case2 offset h ps stop ih => simp [ih, Piece.hole?]
  | case3 offset p ps hp ih =>
    have hn : p.hole? = none := by
      cases p with
      | hole h => exact absurd rfl (hp h)
      | _ => rfl
    rw [List.filterMap_cons_none hn]
    exact ih

/-- The names of a template are those of its placeholders. -/
theorem firstAppearances_names {template : String} {ns : List String}
    (h : names template = .ok ns) :
    ∃ ps, placeholders template = .ok ps ∧ FirstAppearances (ps.map fun p ↦ p.hole.name) ns := by
  unfold names at h
  unfold placeholders
  cases hp : pieces template with
  | error u => rw [hp] at h; cases h
  | ok ps =>
    rw [hp] at h
    cases h
    refine ⟨holesFrom 0 ps, rfl, ?_⟩
    have hm : (holesFrom 0 ps).map (fun p ↦ p.hole.name) =
        (ps.filterMap Piece.hole?).map Hole.name := by
      rw [← map_hole_holesFrom 0 ps, List.map_map]
      rfl
    rw [hm]
    exact firstAppearances_eraseDups _

end Template

end ErrorDerive
