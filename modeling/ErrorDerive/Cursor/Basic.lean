import ErrorDerive.Tree.Folding

/-!
# Cursors over token trees

A cursor stands before the trees that are still to be read.  A `Parse` reads from a cursor and
leaves it where it stopped, also when it fails: what a failing step has read stays read.  Every
step only moves forward (`Parse.Forward`), and the loop `Parse.collect` takes a step that reads a
tree whenever it yields something.
-/

namespace ErrorDerive

structure Cursor where
  /-- The trees still to be read. -/
  rest : List Tree
  /-- Where the end of the trees is reported. -/
  finish : Extent
  /-- How many trees have been read. -/
  pos : Nat := 0
deriving Inhabited

namespace Cursor

/-- A cursor over the contents of a group; its end is the closing delimiter. -/
def ofGroup (g : Group) : Cursor := ⟨g.trees, g.close, 0⟩

/-- A cursor over the trees of a whole source text. -/
def ofSource (label : Option String) (source : String) (trees : List Tree) : Cursor :=
  ⟨trees, Extent.endOf label source.toList, 0⟩

def hasMore (c : Cursor) : Bool := !c.rest.isEmpty

def peek (c : Cursor) : Option Tree := c.rest.head?

/-- The place of the next tree, or of the end. -/
def here (c : Cursor) : Span :=
  match c.rest with
  | [] => c.finish.span
  | t :: _ => t.span

/-- Passes over trees. -/
def skip (n : Nat) (c : Cursor) : Cursor := { c with rest := c.rest.drop n, pos := c.pos + n }

/-- One cursor comes before another if it gets there by reading trees. -/
def Before (c d : Cursor) : Prop :=
  ∃ read, c.rest = read ++ d.rest ∧ d.pos = c.pos + read.length ∧ d.finish = c.finish

theorem Before.refl (c : Cursor) : c.Before c := ⟨[], rfl, rfl, rfl⟩

theorem Before.trans {c d e : Cursor} (h : c.Before d) (h' : d.Before e) : c.Before e := by
  obtain ⟨r, hr, hp, hf⟩ := h
  obtain ⟨r', hr', hp', hf'⟩ := h'
  exact ⟨r ++ r', by rw [hr, hr', List.append_assoc], by simp [hp, hp', Nat.add_assoc],
    by rw [hf', hf]⟩

theorem before_skip {c : Cursor} {n : Nat} (h : n ≤ c.rest.length) : c.Before (c.skip n) :=
  ⟨c.rest.take n, by simp [skip], by simp [skip, Nat.min_eq_left h], rfl⟩

theorem Before.length_le {c d : Cursor} (h : c.Before d) : d.rest.length ≤ c.rest.length := by
  obtain ⟨r, hr, _, _⟩ := h
  simp [hr]

theorem Before.pos_le {c d : Cursor} (h : c.Before d) : c.pos ≤ d.pos := by
  obtain ⟨r, _, hp, _⟩ := h
  omega

/-- What is read and what is left are always the same trees together. -/
theorem Before.total {c d : Cursor} (h : c.Before d) :
    d.pos + d.rest.length = c.pos + c.rest.length := by
  obtain ⟨r, hr, hp, _⟩ := h
  simp [hr, hp]; omega

theorem Before.pos_lt_iff {c d : Cursor} (h : c.Before d) :
    c.pos < d.pos ↔ d.rest.length < c.rest.length := by
  have := h.total
  omega

end Cursor

/-- A step that reads from a cursor, and leaves it where it stopped in any case. -/
def Parse (α : Type) : Type := Cursor → Except Refusal α × Cursor

namespace Parse

variable {α β : Type}

instance : Monad Parse where
  pure a c := (.ok a, c)
  bind m f c :=
    match m c with
    | (.ok a, d) => f a d
    | (.error e, d) => (.error e, d)

@[simp] theorem pure_apply (a : α) (c : Cursor) : (pure a : Parse α) c = (.ok a, c) := rfl

theorem bind_apply (m : Parse α) (f : α → Parse β) (c : Cursor) :
    (m >>= f) c =
      match m c with
      | (.ok a, d) => f a d
      | (.error e, d) => (.error e, d) := rfl

theorem bind_of_ok {m : Parse α} {f : α → Parse β} {c d : Cursor} {a : α} (h : m c = (.ok a, d)) :
    (m >>= f) c = f a d := by rw [bind_apply, h]

theorem bind_of_error {m : Parse α} {f : α → Parse β} {c d : Cursor} {e : Refusal}
    (h : m c = (.error e, d)) : (m >>= f) c = (.error e, d) := by rw [bind_apply, h]

/-! ## Single steps -/

/-- Fails with a cause at a span. -/
def fail (cause : Cause) (span : Span) : Parse α := fun c ↦ (.error (.at span cause), c)

/-- Fails at the next tree. -/
def failHere (cause : Cause) : Parse α := fun c ↦ (.error (.at c.here cause), c)

/-- Fails because something else than the next tree is asked for. -/
def unexpected (what : Expectation) : Parse α :=
  fun c ↦ (.error (.at c.here (.expected what (describeNext c.peek))), c)

/-- Takes over an outcome without reading. -/
def ofExcept (r : Except Refusal α) : Parse α := fun c ↦ (r, c)

def peek : Parse (Option Tree) := fun c ↦ (.ok c.peek, c)

def hasMore : Parse Bool := fun c ↦ (.ok c.hasMore, c)

/-- Reads one tree, if there is one. -/
def next : Parse (Option Tree) := fun c ↦
  match c.rest with
  | [] => (.ok none, c)
  | t :: _ => (.ok (some t), c.skip 1)

/-- Reads the next tree if it has a view. -/
def eat (view : Tree → Option α) : Parse (Option α) := fun c ↦
  match c.peek.bind view with
  | none => (.ok none, c)
  | some a => (.ok (some a), c.skip 1)

/-- Reads the next tree, which must have a view. -/
def expect (what : Expectation) (view : Tree → Option α) : Parse α := fun c ↦
  match c.peek.bind view with
  | none => unexpected what c
  | some a => (.ok a, c.skip 1)

/-- Refuses any tree that is left. -/
def expectEnd : Parse Unit := fun c ↦
  match c.rest with
  | [] => (.ok (), c)
  | t :: _ => (.error (.at t.span (.unexpected t.describe)), c)

/-- Runs a step over the contents of a group. -/
def within (g : Group) (m : Parse α) : Except Refusal α := (m (Cursor.ofGroup g)).1

/-! ## Moving forward -/

/-- A step that only moves forward. -/
def Forward (m : Parse α) : Prop := ∀ c : Cursor, c.Before (m c).2

/-- A step that reads at least one tree when it succeeds. -/
def Reads (m : Parse α) : Prop :=
  ∀ (c : Cursor) (a : α) (d : Cursor), m c = (.ok a, d) → d.rest.length < c.rest.length

/-- A step that reads at least one tree when it yields something. -/
def Yields (m : Parse (Option α)) : Prop :=
  ∀ (c : Cursor) (a : α) (d : Cursor), m c = (.ok (some a), d) → d.rest.length < c.rest.length

theorem forward_pure (a : α) : Forward (pure a) := fun c ↦ .refl c

theorem Forward.bind {m : Parse α} {f : α → Parse β} (hm : m.Forward) (hf : ∀ a, (f a).Forward) :
    (m >>= f).Forward := by
  intro c
  have h := hm c
  rcases hc : m c with ⟨r | r, d⟩
  · rw [bind_of_error hc]; simpa [hc] using h
  · rw [bind_of_ok hc]; rw [hc] at h; exact h.trans (hf r d)

theorem Forward.length_le {m : Parse α} (hm : m.Forward) {c d : Cursor} {r : Except Refusal α}
    (h : m c = (r, d)) : d.rest.length ≤ c.rest.length := by
  have := (hm c).length_le
  rwa [h] at this

theorem forward_fail (cause : Cause) (span : Span) : (fail cause span : Parse α).Forward :=
  fun c ↦ .refl c

theorem forward_failHere (cause : Cause) : (failHere cause : Parse α).Forward := fun c ↦ .refl c

theorem forward_unexpected (what : Expectation) : (unexpected what : Parse α).Forward :=
  fun c ↦ .refl c

theorem forward_ofExcept (r : Except Refusal α) : (ofExcept r).Forward := fun c ↦ .refl c

theorem forward_peek : Forward peek := fun c ↦ .refl c

theorem forward_hasMore : Forward hasMore := fun c ↦ .refl c

theorem forward_next : Forward next := by
  intro c
  unfold next
  split
  · exact .refl c
  · next h => exact Cursor.before_skip (by simp [h])

theorem length_pos_of_view {view : Tree → Option α} {c : Cursor} {a : α}
    (h : c.peek.bind view = some a) : 1 ≤ c.rest.length := by
  cases hc : c.rest with
  | nil => simp [Cursor.peek, hc] at h
  | cons => simp

theorem forward_eat (view : Tree → Option α) : (eat view).Forward := by
  intro c
  unfold eat
  split
  · exact .refl c
  · next h => exact Cursor.before_skip (length_pos_of_view h)

theorem forward_expect (what : Expectation) (view : Tree → Option α) :
    (expect what view).Forward := by
  intro c
  unfold expect
  split
  · exact .refl c
  · next h => exact Cursor.before_skip (length_pos_of_view h)

theorem forward_expectEnd : Forward expectEnd := by
  intro c
  unfold expectEnd
  split <;> exact .refl c

theorem reads_expect (what : Expectation) (view : Tree → Option α) : (expect what view).Reads := by
  intro c a d h
  unfold expect at h
  split at h
  · cases h
  · next hv =>
    cases h
    have := length_pos_of_view hv
    simp only [Cursor.skip, List.length_drop]; omega

theorem yields_eat (view : Tree → Option α) : (eat view).Yields := by
  intro c a d h
  unfold eat at h
  split at h
  · cases h
  · next hv =>
    cases h
    have := length_pos_of_view hv
    simp only [Cursor.skip, List.length_drop]; omega

theorem Reads.bind_right {m : Parse α} {f : α → Parse β} (hm : m.Reads)
    (hf : ∀ a, (f a).Forward) : (m >>= f).Reads := by
  intro c b d h
  rcases hc : m c with ⟨r | r, d'⟩
  · rw [bind_of_error hc] at h; cases h
  · rw [bind_of_ok hc] at h
    exact Nat.lt_of_le_of_lt ((hf r).length_le h) (hm c r d' hc)

theorem Reads.bind_left {m : Parse α} {f : α → Parse β} (hm : m.Forward)
    (hf : ∀ a, (f a).Reads) : (m >>= f).Reads := by
  intro c b d h
  rcases hc : m c with ⟨r | r, d'⟩
  · rw [bind_of_error hc] at h; cases h
  · rw [bind_of_ok hc] at h
    exact Nat.lt_of_lt_of_le (hf r d' b d h) (hm.length_le hc)

/-! ## Loops -/

/-- Repeats a step until it yields nothing.  The step is told what has been collected before. -/
def collect (step : List α → Parse (Option α)) (h : ∀ done, (step done).Yields)
    (done : List α) (c : Cursor) : Except Refusal (List α) × Cursor :=
  match _hc : step done c with
  | (.ok none, d) => (.ok done, d)
  | (.ok (some a), d) => collect step h (done ++ [a]) d
  | (.error e, d) => (.error e, d)
termination_by c.rest.length
decreasing_by exact h _ _ _ _ _hc

theorem forward_collect {step : List α → Parse (Option α)} {h : ∀ done, (step done).Yields}
    (hf : ∀ done, (step done).Forward) (done : List α) :
    Forward (collect step h done) := by
  intro c
  fun_induction collect step h done c with
  | case1 done c d hc => simpa [hc] using hf done c
  | case2 done c a d hc ih =>
    have := hf done c
    rw [hc] at this
    exact this.trans ih
  | case3 done c e d hc => simpa [hc] using hf done c

/-- Runs a step if trees are left. -/
def ifMore (m : Parse α) : Parse (Option α) := fun c ↦
  if c.hasMore then (m >>= fun a ↦ pure (some a)) c else (.ok none, c)

theorem forward_ifMore {m : Parse α} (hm : m.Forward) : (ifMore m).Forward := by
  intro c
  unfold ifMore
  split
  · exact (hm.bind fun _ ↦ forward_pure _) c
  · exact .refl c

theorem yields_ifMore {m : Parse α} (hm : m.Reads) : (ifMore m).Yields := by
  intro c a d h
  unfold ifMore at h
  split at h
  · exact hm.bind_right (fun _ ↦ forward_pure _) c (some a) d h
  · cases h

/-- Repeats a step as long as trees are left.  The step is told what has been read before. -/
def many (step : List α → Parse α) (h : ∀ done, (step done).Reads) : Parse (List α) :=
  collect (fun done ↦ ifMore (step done)) (fun done ↦ yields_ifMore (h done)) []

theorem forward_many {step : List α → Parse α} {h : ∀ done, (step done).Reads}
    (hf : ∀ done, (step done).Forward) : (many step h).Forward :=
  forward_collect (fun done ↦ forward_ifMore (hf done)) []

end Parse

end ErrorDerive
