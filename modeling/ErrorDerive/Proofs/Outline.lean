import ErrorDerive.Proofs.Reading

/-!
# Outlines

An outline is a tree without its place.  Of the layout only that is kept which rendering shows:
whether anything lies between a tree and what comes before it, and between the last tree of a group
and its end.  Outlines are determined by the atoms of the trees with these marks (`flatAll_inj`), so
two texts with the same atoms and marks have the same outlines.
-/

namespace ErrorDerive

/-- A tree without its place.  Something lies between a tree that is `apart` and what comes before
it, and between the last tree inside a `loose` group and its end. -/
inductive Outline
  | leaf (apart : Bool) (leaf : Leaf)
  | group (apart : Bool) (delimiter : Delimiter) (inside : List Outline) (loose : Bool)
deriving Repr, Inhabited

/-- Whether an offset lies behind another, if that is known. -/
def isBehind (before : Option Nat) (offset : Nat) : Bool := before.any (· < offset)

@[simp] theorem isBehind_none (n : Nat) : isBehind none n = false := rfl

@[simp] theorem isBehind_some (m n : Nat) : isBehind (some m) n = decide (m < n) := rfl

namespace Tree

/-- Where the last of trees stops, if there is one. -/
def lastStop (ts : List Tree) : Option Nat := ts.getLast?.map stop

mutual

/-- The outline of a tree, given where what comes before it stops. -/
def outline (before : Option Nat) : Tree → Outline
  | .leaf e l => .leaf (isBehind before e.start) l
  | .group e d ts _ =>
    .group (isBehind before e.start) d (outlines (some (e.start + 1)) ts)
      (isBehind (lastStop ts) (e.stop - 1))

/-- The outlines of trees in a row. -/
def outlines (before : Option Nat) : List Tree → List Outline
  | [] => []
  | t :: ts => outline before t :: outlines (some t.stop) ts

end

variable {before : Option Nat}

@[simp] theorem outlines_nil : outlines before [] = [] := by rw [outlines]

@[simp] theorem outlines_cons (t : Tree) (ts : List Tree) :
    outlines before (t :: ts) = outline before t :: outlines (some t.stop) ts := by rw [outlines]

@[simp] theorem outline_leaf (e : Extent) (l : Leaf) :
    outline before (.leaf e l) = .leaf (isBehind before e.start) l := by rw [outline]

@[simp] theorem outline_group (e : Extent) (d : Delimiter) (ts : List Tree) (c : Extent) :
    outline before (.group e d ts c) =
      .group (isBehind before e.start) d (outlines (some (e.start + 1)) ts)
        (isBehind (lastStop ts) (e.stop - 1)) := by rw [outline]

end Tree

/-! ## Marked atoms -/

/-- An atom, marked if something lies between it and the one before. -/
abbrev MarkedAtom := Bool × Atom

namespace PlacedAtom

/-- Whether something lies between two atoms that rendering shows; an empty group is rendered
without anything between its brackets. -/
def isApart : Option PlacedAtom → PlacedAtom → Bool
  | some ⟨.opener _, _, _⟩, ⟨.closer _, _, _⟩ => false
  | before, x => isBehind (before.map stop) x.start

/-- Atoms in a row with their marks. -/
def marked (before : Option PlacedAtom) : List PlacedAtom → List MarkedAtom
  | [] => []
  | x :: xs => (isApart before x, x.atom) :: marked (some x) xs

theorem isApart_of_not_closer {x : PlacedAtom} (h : ∀ d, x.atom ≠ .closer d)
    (before : Option PlacedAtom) : isApart before x = isBehind (before.map stop) x.start := by
  unfold isApart
  split
  · exact absurd rfl (h _)
  · rfl

theorem isApart_of_not_opener {y : PlacedAtom} (h : ∀ d, y.atom ≠ .opener d) (x : PlacedAtom) :
    isApart (some y) x = decide (y.stop < x.start) := by
  unfold isApart
  split
  · next he =>
    obtain ⟨a, s, t⟩ := y
    cases he
    exact absurd rfl (h _)
  · rfl

end PlacedAtom

namespace Outline

mutual

/-- The atoms of an outline with their marks, from left to right. -/
def flat : Outline → List MarkedAtom
  | .leaf apart l => [(apart, .leaf l)]
  | .group apart d os loose => (apart, .opener d) :: (flatAll os ++ [(loose, .closer d)])

/-- The atoms of outlines with their marks, from left to right. -/
def flatAll : List Outline → List MarkedAtom
  | [] => []
  | o :: os => flat o ++ flatAll os

end

@[simp] theorem flatAll_nil : flatAll [] = [] := by rw [flatAll]

@[simp] theorem flatAll_cons (o : Outline) (os : List Outline) :
    flatAll (o :: os) = flat o ++ flatAll os := by rw [flatAll]

@[simp] theorem flat_leaf (apart : Bool) (l : Leaf) :
    flat (.leaf apart l) = [(apart, .leaf l)] := by rw [flat]

@[simp] theorem flat_group (apart : Bool) (d : Delimiter) (os : List Outline) (loose : Bool) :
    flat (.group apart d os loose) =
      (apart, .opener d) :: (flatAll os ++ [(loose, .closer d)]) := by rw [flat]

/-- Atoms that are at an end, or that start with a closing bracket. -/
def Ends (xs : List MarkedAtom) : Prop := ∀ x ∈ xs.head?, ∃ d, x.2 = .closer d

theorem ends_nil : Ends [] := by simp [Ends]

theorem ends_closer (loose : Bool) (d : Delimiter) (xs : List MarkedAtom) :
    Ends ((loose, .closer d) :: xs) := by simp [Ends]

theorem not_ends_flat (o : Outline) (xs : List MarkedAtom) : ¬ Ends (flat o ++ xs) := by
  cases o <;> simp [Ends]

mutual

theorem flat_append_inj (o o' : Outline) {r r' : List MarkedAtom}
    (h : flat o ++ r = flat o' ++ r') : o = o' ∧ r = r' := by
  cases o with
  | leaf a l =>
    cases o' with
    | leaf a' l' => simpa [and_assoc] using h
    | group a' d' os' l' => simp at h
  | group a d os l =>
    cases o' with
    | leaf a' l' => simp at h
    | group a' d' os' l' =>
      simp only [flat_group, List.cons_append, List.append_assoc, List.cons.injEq,
        Prod.mk.injEq, Atom.opener.injEq, List.nil_append] at h
      obtain ⟨⟨rfl, rfl⟩, h⟩ := h
      obtain ⟨rfl, hr⟩ := flatAll_append_inj os os' (ends_closer _ _ _) (ends_closer _ _ _) h
      simp only [List.cons.injEq, Prod.mk.injEq, and_true] at hr
      obtain ⟨rfl, rfl⟩ := hr
      exact ⟨rfl, rfl⟩

theorem flatAll_append_inj (os os' : List Outline) {r r' : List MarkedAtom} (hr : Ends r)
    (hr' : Ends r') (h : flatAll os ++ r = flatAll os' ++ r') : os = os' ∧ r = r' := by
  cases os with
  | nil =>
    cases os' with
    | nil => simpa using h
    | cons o' os' =>
      rw [flatAll_nil, flatAll_cons, List.nil_append, List.append_assoc] at h
      exact absurd (h ▸ hr) (not_ends_flat o' _)
  | cons o os =>
    cases os' with
    | nil =>
      rw [flatAll_nil, flatAll_cons, List.nil_append, List.append_assoc] at h
      exact absurd (h ▸ hr') (not_ends_flat o _)
    | cons o' os' =>
      rw [flatAll_cons, flatAll_cons, List.append_assoc, List.append_assoc] at h
      obtain ⟨rfl, hs⟩ := flat_append_inj o o' h
      obtain ⟨rfl, he⟩ := flatAll_append_inj os os' hr hr' hs
      exact ⟨rfl, he⟩

end

/-- Outlines are determined by their atoms. -/
theorem flatAll_inj {os os' : List Outline} (h : flatAll os = flatAll os') : os = os' :=
  (flatAll_append_inj os os' ends_nil ends_nil (by rw [h])).1

end Outline

namespace Tree

open PlacedAtom (marked isApart isApart_of_not_closer isApart_of_not_opener)

/-- The last atom of a tree. -/
def final : Tree → PlacedAtom
  | .leaf e l => ⟨.leaf l, e.start, e.stop⟩
  | .group e d _ _ => ⟨.closer d, e.stop - 1, e.stop⟩

@[simp] theorem stop_final (t : Tree) : t.final.stop = t.stop := by cases t <;> rfl

theorem final_ne_opener (t : Tree) (d : Delimiter) : t.final.atom ≠ .opener d := by
  cases t <;> simp [final]

/-- The last atom of trees, if there is any, or else the one before them. -/
def finalOf (before : Option PlacedAtom) (ts : List Tree) : Option PlacedAtom :=
  (ts.getLast?.map final).or before

theorem finalOf_cons (before : Option PlacedAtom) (t : Tree) (ts : List Tree) :
    finalOf (some t.final) ts = finalOf before (t :: ts) := by
  cases ts with
  | nil => rfl
  | cons u ts =>
    rw [finalOf, finalOf, List.getLast?_cons_cons]
    cases h : (u :: ts).getLast? with
    | none => simp at h
    | some v => rfl

/-- The mark of the bracket that closes a group says whether the group is loose. -/
theorem isApart_finalOf (d d' : Delimiter) (a b m n : Nat) (ts : List Tree) :
    isApart (finalOf (some ⟨.opener d, a, b⟩) ts) ⟨.closer d', m, n⟩ =
      isBehind (lastStop ts) m := by
  cases h : ts.getLast? with
  | none => simp [finalOf, lastStop, h, isApart]
  | some t => simp [finalOf, lastStop, h, isApart_of_not_opener (final_ne_opener t)]

mutual

theorem marked_flatten (t : Tree) (before : Option PlacedAtom) (xs : List PlacedAtom) :
    marked before (flatten t ++ xs) =
      (outline (before.map PlacedAtom.stop) t).flat ++ marked (some t.final) xs := by
  cases t with
  | leaf e l => simp [marked, isApart_of_not_closer, final]
  | group e d ts c =>
    simp only [flatten_group, List.cons_append, List.append_assoc, marked, List.nil_append,
      outline_group, Outline.flat_group]
    rw [marked_flattenAll ts, marked, isApart_finalOf, isApart_of_not_closer (by simp)]
    rfl

theorem marked_flattenAll (ts : List Tree) (before : Option PlacedAtom) (xs : List PlacedAtom) :
    marked before (flattenAll ts ++ xs) =
      Outline.flatAll (outlines (before.map PlacedAtom.stop) ts) ++
        marked (finalOf before ts) xs := by
  cases ts with
  | nil => rfl
  | cons t ts =>
    rw [flattenAll_cons, List.append_assoc, marked_flatten t, marked_flattenAll ts, outlines_cons,
      Outline.flatAll_cons, List.append_assoc, finalOf_cons before, Option.map_some, stop_final]

end

/-- The outlines of trees show their atoms with the marks of the layout. -/
theorem flatAll_outlines (ts : List Tree) :
    Outline.flatAll (outlines none ts) = marked none (flattenAll ts) := by
  simpa [marked] using (marked_flattenAll ts none []).symm

/-! ## Rendering -/

end Tree

/-- A space that stands for whatever lies between two atoms. -/
def spaceIf (apart : Bool) : String := if apart then " " else ""

def Atom.text : Atom → String
  | .leaf l => l.render
  | .opener d => d.opener.toString
  | .closer d => d.closer.toString

namespace MarkedAtom

/-- Marked atoms as text. -/
def write : List MarkedAtom → String
  | [] => ""
  | (apart, x) :: xs => spaceIf apart ++ x.text ++ write xs

@[simp] theorem write_append (xs ys : List MarkedAtom) : write (xs ++ ys) = write xs ++ write ys := by
  induction xs with
  | nil => simp [write]
  | cons x xs ih => simp [write, ih, String.append_assoc]

end MarkedAtom

namespace Tree

open MarkedAtom (write)

theorem gap_eq_spaceIf (a : Option Nat) (b : Nat) :
    gap (a.map Int.ofNat) (some (b : Int)) = spaceIf (isBehind a b) := by
  cases a with
  | none => rfl
  | some a => simp [gap, spaceIf]

theorem gap_pred_eq_spaceIf (a : Option Nat) (b : Nat) :
    gap (a.map Int.ofNat) (some ((b : Int) - 1)) = spaceIf (isBehind a (b - 1)) := by
  cases a with
  | none => rfl
  | some a =>
    have h : (a : Int) < (b : Int) - 1 ↔ a < b - 1 := by omega
    simp [gap, spaceIf, h]

mutual

theorem render_eq_write (t : Tree) (before : Option Nat) :
    spaceIf (isBehind before t.start) ++ render t = write (outline before t).flat := by
  cases t with
  | leaf e l => simp [render, write, Atom.text, start]
  | group e d ts c =>
    have h := renderAll_eq_write ts (some (e.start + 1)) (some ((e.stop : Int) - 1))
    rw [gap_pred_eq_spaceIf] at h
    rw [render, outline_group, Outline.flat_group, write, MarkedAtom.write_append]
    simp only [Option.map_some, Int.ofNat_eq_natCast, Int.natCast_add, Int.cast_ofNat_Int] at h
    rw [h]
    simp only [write, Atom.text, String.append_assoc, start, extent_group, String.append_empty]

theorem renderAll_eq_write (ts : List Tree) (before : Option Nat) (stop : Option Int) :
    renderAll (before.map Int.ofNat) stop ts =
      write (Outline.flatAll (outlines before ts)) ++ gap ((lastStop ts).map Int.ofNat) stop := by
  match ts with
  | [] => simp [renderAll, write, lastStop, gap]
  | [t] =>
    rw [renderAll, gap_eq_spaceIf, render_eq_write t before]
    simp [lastStop]
  | t :: u :: ts =>
    have h := renderAll_eq_write (u :: ts) (some t.stop) stop
    simp only [Option.map_some, Int.ofNat_eq_natCast] at h
    rw [renderAll, gap_eq_spaceIf, render_eq_write t before, h, outlines_cons t,
      Outline.flatAll_cons, MarkedAtom.write_append, String.append_assoc]
    simp [lastStop]

end

/-- Rendering shows the outlines of trees and nothing else. -/
theorem renderAll_eq (ts : List Tree) :
    renderAll none none ts = write (Outline.flatAll (outlines none ts)) := by
  simpa [gap] using renderAll_eq_write ts none none

end Tree

end ErrorDerive
