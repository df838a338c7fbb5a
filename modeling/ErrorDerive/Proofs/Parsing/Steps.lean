import ErrorDerive.Cursor.Basic

/-!
# What a step has read

A step that succeeds or fails is taken apart into the steps it is made of.  A loop is described by
its runs (`Parse.Run`): it succeeds or fails exactly as its step does at the end of some run, and
what one step keeps, every run keeps (`Run.inv`).
-/

namespace ErrorDerive

/-- An outcome that depends on another one. -/
theorem Except.bind_eq_ok_iff {ε α β : Type} {x : Except ε α} {f : α → Except ε β} {b : β} :
    (x >>= f) = .ok b ↔ ∃ a, x = .ok a ∧ f a = .ok b := by
  cases x with
  | error e => simp [bind, Except.bind]
  | ok a => simp [bind, Except.bind]

theorem Except.bind_eq_error_iff {ε α β : Type} {x : Except ε α} {f : α → Except ε β} {e : ε} :
    (x >>= f) = .error e ↔ x = .error e ∨ ∃ a, x = .ok a ∧ f a = .error e := by
  cases x with
  | error e => simp [bind, Except.bind]
  | ok a => simp [bind, Except.bind]

theorem Except.map_eq_ok_iff {ε α β : Type} {x : Except ε α} {f : α → β} {b : β} :
    x.map f = .ok b ↔ ∃ a, x = .ok a ∧ f a = b := by
  cases x with
  | error e => simp [Except.map]
  | ok a => simp [Except.map]

theorem Except.toOption_eq_some_iff {ε α : Type} {x : Except ε α} {a : α} :
    x.toOption = some a ↔ x = .ok a := by
  cases x with
  | error e => simp [Except.toOption]
  | ok a => simp [Except.toOption]

theorem Cursor.Before.suffix {c d : Cursor} (h : c.Before d) : d.rest <:+ c.rest := by
  obtain ⟨read, hr, -, -⟩ := h
  exact ⟨read, hr.symm⟩

namespace Parse

variable {α β : Type} {c d : Cursor} {r : Refusal}

/-! ## Single steps -/

instance : LawfulMonad Parse := LawfulMonad.mk' Parse
  (fun m ↦ by
    funext c
    change (m >>= fun a ↦ pure (id a)) c = m c
    rw [bind_apply]
    rcases m c with ⟨_ | _, _⟩ <;> rfl)
  (fun _ _ ↦ rfl)
  (fun m f g ↦ by
    funext c
    simp only [bind_apply]
    rcases m c with ⟨_ | a, d⟩
    · rfl
    · simp only)

theorem bind_eq_ok_iff {m : Parse α} {f : α → Parse β} {b : β} :
    (m >>= f) c = (.ok b, d) ↔ ∃ a e, m c = (.ok a, e) ∧ f a e = (.ok b, d) := by
  rw [bind_apply]
  rcases m c with ⟨q | a, e⟩
  · simp
  · constructor
    · exact fun h ↦ ⟨a, e, rfl, h⟩
    · rintro ⟨_, _, ⟨⟩, h⟩
      exact h

theorem bind_eq_error_iff {m : Parse α} {f : α → Parse β} :
    (m >>= f) c = (.error r, d) ↔
      m c = (.error r, d) ∨ ∃ a e, m c = (.ok a, e) ∧ f a e = (.error r, d) := by
  rw [bind_apply]
  rcases m c with ⟨q | a, e⟩
  · simp
  · constructor
    · exact fun h ↦ .inr ⟨a, e, rfl, h⟩
    · rintro (h | ⟨_, _, ⟨⟩, h⟩)
      · cases h
      · exact h

theorem pure_eq_ok_iff {a b : α} : (pure a : Parse α) c = (.ok b, d) ↔ a = b ∧ c = d := by
  simp

theorem ofExcept_eq_iff {x y : Except Refusal α} : ofExcept x c = (y, d) ↔ x = y ∧ c = d := by
  simp [ofExcept]

theorem expect_eq_ok_iff {what : Expectation} {view : Tree → Option α} {a : α} :
    expect what view c = (.ok a, d) ↔
      (∃ t ts, c.rest = t :: ts ∧ view t = some a) ∧ d = c.skip 1 := by
  unfold expect Cursor.peek
  rcases hc : c.rest with _ | ⟨t, ts⟩
  · simp [unexpected]
  · rcases hv : view t with _ | b
    · simp [unexpected, hv]
    · simp [hv, eq_comm]

theorem eat_eq_some_iff {view : Tree → Option α} {a : α} :
    eat view c = (.ok (some a), d) ↔
      (∃ t ts, c.rest = t :: ts ∧ view t = some a) ∧ d = c.skip 1 := by
  unfold eat Cursor.peek
  rcases hc : c.rest with _ | ⟨t, ts⟩
  · simp
  · rcases hv : view t with _ | b
    · simp [hv]
    · simp [hv, eq_comm]

theorem within_eq_iff {g : Group} {m : Parse α} {x : Except Refusal α} :
    within g m = x ↔ ∃ d, m (Cursor.ofGroup g) = (x, d) := by
  unfold within
  rcases m (Cursor.ofGroup g) with ⟨y, d⟩
  simp

theorem Forward.suffix {m : Parse α} (hm : m.Forward) {x : Except Refusal α} (h : m c = (x, d)) :
    d.rest <:+ c.rest := by
  have := (hm c).suffix
  rwa [h] at this

/-! ## Loops -/

/-- The runs of a step that is told what has been collected: what they collect and where they
stop. -/
inductive Run (step : List α → Parse (Option α)) (start : Cursor) : List α → Cursor → Prop
  | start : Run step start [] start
  | next {xs : List α} {c d : Cursor} {a : α} (h : Run step start xs c)
      (hs : step xs c = (.ok (some a), d)) : Run step start (xs ++ [a]) d

variable {step : List α → Parse (Option α)} {start : Cursor} {xs : List α}

/-- What one step keeps, every run keeps. -/
theorem Run.inv (I : List α → Cursor → Prop) (h₀ : I [] start)
    (hs : ∀ xs c a d, I xs c → step xs c = (.ok (some a), d) → I (xs ++ [a]) d)
    (h : Run step start xs c) : I xs c := by
  induction h with
  | start => exact h₀
  | next _ h ih => exact hs _ _ _ _ ih h

/-- A run only moves forward. -/
theorem Run.before (hf : ∀ done, (step done).Forward) (h : Run step start xs c) :
    start.Before c := by
  refine h.inv (fun _ c ↦ start.Before c) (.refl start) fun xs c a d hc hs ↦ hc.trans ?_
  have := hf xs c
  rwa [hs] at this

/-- Whatever a run has collected was yielded by a step somewhere on its way. -/
theorem Run.exists_step (hf : ∀ done, (step done).Forward) (h : Run step start xs c) {a : α}
    (ha : a ∈ xs) :
    ∃ done e f, start.Before e ∧ step done e = (.ok (some a), f) := by
  induction h with
  | start => cases ha
  | next h hs ih =>
    rcases List.mem_append.1 ha with ha | ha
    · exact ih ha
    · rw [List.mem_singleton.1 ha]
      exact ⟨_, _, _, h.before hf, hs⟩

section Collect

variable {h : ∀ done, (step done).Yields}

/-- One round of a loop. -/
theorem collect_apply (done : List α) (c : Cursor) :
    collect step h done c =
      match step done c with
      | (.ok none, d) => (.ok done, d)
      | (.ok (some a), d) => collect step h (done ++ [a]) d
      | (.error e, d) => (.error e, d) := by
  rw [collect]
  split
  · next hc => rw [hc]
  · next hc => rw [hc]
  · next hc => rw [hc]

theorem collect_of_step {a : α} (hs : step xs c = (.ok (some a), d)) :
    collect step h xs c = collect step h (xs ++ [a]) d := by
  rw [collect_apply, hs]

theorem collect_of_run (hr : Run step start xs c) :
    collect step h [] start = collect step h xs c := by
  induction hr with
  | start => rfl
  | next _ hs ih => rw [ih, collect_of_step hs]

theorem run_of_collect {done : List α} {x : Except Refusal (List α)}
    (hr : Run step start done c) (hc : collect step h done c = (x, d)) :
    ∃ xs e, Run step start xs e ∧
      ((step xs e = (.ok none, d) ∧ x = .ok xs) ∨
        ∃ r, step xs e = (.error r, d) ∧ x = .error r) := by
  fun_induction collect step h done c with
  | case1 done c e hs =>
    cases hc
    exact ⟨done, c, hr, .inl ⟨hs, rfl⟩⟩
  | case2 done c a e hs ih => exact ih (hr.next hs) hc
  | case3 done c r e hs =>
    cases hc
    exact ⟨done, c, hr, .inr ⟨r, hs, rfl⟩⟩

/-- A loop collects what a run collects at whose end the step yields nothing. -/
theorem collect_eq_ok_iff :
    collect step h [] start = (.ok xs, d) ↔
      ∃ e, Run step start xs e ∧ step xs e = (.ok none, d) := by
  constructor
  · intro hc
    obtain ⟨ys, e, hr, ⟨hs, hx⟩ | ⟨r, -, hx⟩⟩ := run_of_collect .start hc
    · cases hx
      exact ⟨e, hr, hs⟩
    · cases hx
  · rintro ⟨e, hr, hs⟩
    rw [collect_of_run hr, collect_apply, hs]

/-- A loop fails as its step does at the end of some run. -/
theorem collect_eq_error_iff :
    collect step h [] start = (.error r, d) ↔
      ∃ xs e, Run step start xs e ∧ step xs e = (.error r, d) := by
  constructor
  · intro hc
    obtain ⟨ys, e, hr, ⟨-, hx⟩ | ⟨q, hs, hx⟩⟩ := run_of_collect .start hc
    · cases hx
    · cases hx
      exact ⟨ys, e, hr, hs⟩
  · rintro ⟨ys, e, hr, hs⟩
    rw [collect_of_run hr, collect_apply, hs]

end Collect

/-- A loop whose step is not told what has been collected before collects the same behind it. -/
theorem collect_append {step : Parse (Option α)} {h : List α → step.Yields}
    (xs done : List α) (c : Cursor) :
    collect (fun _ ↦ step) h (xs ++ done) c =
      ((collect (fun _ ↦ step) h done c).1.map (xs ++ ·),
        (collect (fun _ ↦ step) h done c).2) := by
  fun_induction collect (fun _ ↦ step) h done c with
  | case1 done c d hs => rw [collect_apply, hs]; rfl
  | case2 done c a d hs ih => rw [collect_of_step hs, ← ih, List.append_assoc]
  | case3 done c r d hs => rw [collect_apply, hs]; rfl

theorem ifMore_of_ne_nil {m : Parse α} (h : c.rest ≠ []) :
    ifMore m c = (m >>= fun a ↦ pure (some a)) c := by
  simp [ifMore, Cursor.hasMore, h]

theorem ifMore_of_nil {m : Parse α} (h : c.rest = []) : ifMore m c = (.ok none, c) := by
  simp [ifMore, Cursor.hasMore, h]

theorem ifMore_eq_some_iff {m : Parse α} {a : α} :
    ifMore m c = (.ok (some a), d) ↔ c.rest ≠ [] ∧ m c = (.ok a, d) := by
  by_cases hc : c.rest = []
  · simp [ifMore_of_nil hc, hc]
  · rw [ifMore_of_ne_nil hc, bind_eq_ok_iff]
    constructor
    · rintro ⟨b, e, hm, ⟨⟩⟩
      exact ⟨hc, hm⟩
    · rintro ⟨-, hm⟩
      exact ⟨a, d, hm, rfl⟩

theorem ifMore_eq_none_iff {m : Parse α} :
    ifMore m c = (.ok none, d) ↔ c.rest = [] ∧ c = d := by
  by_cases hc : c.rest = []
  · simp [ifMore_of_nil hc, hc]
  · rw [ifMore_of_ne_nil hc, bind_eq_ok_iff]
    constructor
    · rintro ⟨b, e, hm, ⟨⟩⟩
    · rintro ⟨h, -⟩
      exact absurd h hc

theorem ifMore_eq_error_iff {m : Parse α} :
    ifMore m c = (.error r, d) ↔ c.rest ≠ [] ∧ m c = (.error r, d) := by
  by_cases hc : c.rest = []
  · simp [ifMore_of_nil hc, hc]
  · rw [ifMore_of_ne_nil hc, bind_eq_error_iff]
    constructor
    · rintro (hm | ⟨b, e, -, ⟨⟩⟩)
      exact ⟨hc, hm⟩
    · rintro ⟨-, hm⟩
      exact .inl hm

section Many

variable {step : List α → Parse α} {h : ∀ done, (step done).Reads}

/-- A loop over all trees succeeds if a run of its step gets to their end. -/
theorem many_eq_ok_iff :
    many step h c = (.ok xs, d) ↔
      Run (fun done ↦ ifMore (step done)) c xs d ∧ d.rest = [] := by
  simp only [many, collect_eq_ok_iff, ifMore_eq_none_iff]
  constructor
  · rintro ⟨e, hr, hn, rfl⟩
    exact ⟨hr, hn⟩
  · rintro ⟨hr, hn⟩
    exact ⟨d, hr, hn, rfl⟩

theorem many_eq_error_iff :
    many step h c = (.error r, d) ↔
      ∃ xs e, Run (fun done ↦ ifMore (step done)) c xs e ∧ e.rest ≠ [] ∧
        step xs e = (.error r, d) := by
  simp only [many, collect_eq_error_iff, ifMore_eq_error_iff]

/-- A loop over all trees that succeeds goes on as long as trees are left. -/
theorem exists_step_of_collect {hy : ∀ done, (ifMore (step done)).Yields} {ys : List α}
    (hc : collect (fun done ↦ ifMore (step done)) hy xs c = (.ok ys, d)) (hn : c.rest ≠ []) :
    ∃ a e, step xs c = (.ok a, e) ∧
      collect (fun done ↦ ifMore (step done)) hy (xs ++ [a]) e = (.ok ys, d) := by
  rw [collect_apply, ifMore_of_ne_nil hn, bind_apply] at hc
  rcases hs : step xs c with ⟨q | a, e⟩
  · rw [hs] at hc
    cases hc
  · rw [hs] at hc
    exact ⟨a, e, rfl, hc⟩

end Many

end Parse

end ErrorDerive
