import ErrorDerive.Cursor.Basic

/-!
# Field types

A type is the run of trees up to the next comma outside angle brackets.  Groups count as one tree;
a `>` right behind a `-` that touches it is the head of an arrow and closes nothing.
-/

namespace ErrorDerive

/-- A type as text, with its place. -/
structure FieldType where
  text : String
  extent : Extent
deriving DecidableEq, Repr

/-- A run of trees, what follows it, and how many angle brackets are open at its end; `none` if
the next tree closes one that was never opened. -/
structure AngleRun where
  run : List Tree
  rest : List Tree
  depth : Option Nat

namespace AngleRun

/-- The depth behind a tree. -/
def step (depth : Nat) (arrow : Bool) (t : Tree) : Option Nat :=
  if t.isMark "<" then some (depth + 1)
  else if t.isMark ">" && !arrow then
    match depth with
    | 0 => none
    | d + 1 => some d
  else some depth

/-- The run up to the next comma at depth zero; `arrow` says that a joint `-` came before. -/
def ofTrees (depth : Nat) (arrow : Bool) : List Tree → AngleRun
  | [] => ⟨[], [], some depth⟩
  | t :: ts =>
    if t.isMark "," && depth == 0 then ⟨[], t :: ts, some depth⟩
    else
      match step depth arrow t with
      | none => ⟨[], t :: ts, none⟩
      | some d =>
        let r := ofTrees d (t.isJointMark "-") ts
        ⟨t :: r.run, r.rest, r.depth⟩

/-- The run and what follows it are the trees. -/
theorem run_append_rest (depth : Nat) (arrow : Bool) (ts : List Tree) :
    (ofTrees depth arrow ts).run ++ (ofTrees depth arrow ts).rest = ts := by
  fun_induction ofTrees depth arrow ts with
  | case1 => rfl
  | case2 => rfl
  | case3 => rfl
  | case4 depth arrow t ts h d hd r ih => exact congrArg (t :: ·) ih

theorem length_run_le (depth : Nat) (arrow : Bool) (ts : List Tree) :
    (ofTrees depth arrow ts).run.length ≤ ts.length := by
  have := congrArg List.length (run_append_rest depth arrow ts)
  simp only [List.length_append] at this
  omega

end AngleRun

namespace Parse

/-- The type of a run, to be reported at the tree behind it if there is none. -/
def typeOfRun : AngleRun → Parse FieldType
  | ⟨_, _, none⟩ => failHere .unbalancedAngle
  | ⟨[], _, some _⟩ => unexpected .type
  | ⟨t :: ts, _, some 0⟩ =>
    pure ⟨Tree.renderAll none none (t :: ts), t.extent.join ((t :: ts).getLast (by simp)).extent⟩
  | ⟨t :: _, _, some (_ + 1)⟩ => fail .unclosedAngle t.span

/-- Reads a type. -/
def fieldType : Parse FieldType := fun c ↦
  let r := AngleRun.ofTrees 0 false c.rest
  typeOfRun r (c.skip r.run.length)

theorem forward_typeOfRun (r : AngleRun) : (typeOfRun r).Forward := by
  unfold typeOfRun
  split
  · exact forward_failHere _
  · exact forward_unexpected _
  · exact forward_pure _
  · exact forward_fail _ _

theorem run_ne_nil_of_typeOfRun {r : AngleRun} {c d : Cursor} {a : FieldType}
    (h : typeOfRun r c = (.ok a, d)) : r.run ≠ [] := by
  unfold typeOfRun at h
  split at h
  · cases h
  · cases h
  · simp
  · cases h

theorem forward_fieldType : Forward fieldType := fun c ↦
  (Cursor.before_skip (AngleRun.length_run_le 0 false c.rest)).trans (forward_typeOfRun _ _)

theorem reads_fieldType : Reads fieldType := by
  intro c a d h
  have h₁ := AngleRun.length_run_le 0 false c.rest
  have h₂ := List.length_pos_iff.2 (run_ne_nil_of_typeOfRun h)
  have h₃ := (forward_typeOfRun _).length_le h
  simp only [Cursor.skip, List.length_drop] at h₃
  omega

end Parse

end ErrorDerive
