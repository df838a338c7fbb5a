import ErrorDerive.Proofs.Parsing.Items
import ErrorDerive.Proofs.Printing.Steps

/-!
# One tree ahead

A step that succeeds has looked at the trees it has read and at the next one, and no further.  So it
is settled by them (`Parse.Settled`): it reads the same trees with the same result in front of
whatever starts with the same tree.  Steps that end with something optional, such as a comma, are
settled in front of more than that, since all that counts there is what does not follow.
-/

namespace ErrorDerive

namespace Parse

variable {α β : Type} {c c' d : Cursor} {S T : List Tree → List Tree → Prop}
  {m : Parse α} {f : α → Parse β} {us vs : List Tree}

/-! ## Steps -/

/-- Trees that may come behind a step in place of others: those that start with the same tree, and
those that are allowed besides. -/
def StandIn (S : List Tree → List Tree → Prop) (vs us : List Tree) : Prop :=
  vs.head? = us.head? ∨ S vs us

theorem StandIn.refl (S : List Tree → List Tree → Prop) (vs : List Tree) : StandIn S vs vs :=
  .inl rfl

theorem StandIn.append (h : StandIn S vs us) (read : List Tree) :
    StandIn S (read ++ vs) (read ++ us) := by
  cases read with
  | nil => exact h
  | cons t ts => exact .inl rfl

/-- A step whose result is settled by the trees that it reads, whichever stand in for those behind
them. -/
structure Settled (S : List Tree → List Tree → Prop) (m : Parse α) : Prop where
  forward : m.Forward
  exchange : ∀ ⦃c d : Cursor⦄ ⦃a : α⦄, m c = (.ok a, d) → ∀ ⦃read : List Tree⦄,
    c.rest = read ++ d.rest → ∀ ⦃c' : Cursor⦄ ⦃us : List Tree⦄, c'.rest = read ++ us →
      StandIn S d.rest us → Reaches m c' (· = a) us

/-- A step that looks at the next tree at most. -/
abbrev LooksAhead (m : Parse α) : Prop := Settled (fun _ _ ↦ False) m

theorem Forward.exists_read (hm : m.Forward) {x : Except Refusal α} (h : m c = (x, d)) :
    ∃ read, c.rest = read ++ d.rest := by
  obtain ⟨read, hr⟩ := hm.suffix h
  exact ⟨read, hr.symm⟩

/-- What two steps read in sequence is what each of them reads. -/
theorem read_eq_append {ts es ds r₁ r₂ read : List Tree} (h₁ : ts = r₁ ++ es) (h₂ : es = r₂ ++ ds)
    (h : ts = read ++ ds) : read = r₁ ++ r₂ := by
  rw [h₁, h₂, ← List.append_assoc] at h
  exact (List.append_cancel_right h).symm

theorem Settled.imp (hm : Settled S m) (h : ∀ vs us, T vs us → S vs us) : Settled T m :=
  ⟨hm.forward, fun _ _ _ hs _ hc _ _ hc' hu ↦ hm.exchange hs hc hc' (hu.imp_right (h _ _))⟩

theorem Settled.looksAhead (hm : Settled S m) : LooksAhead m := hm.imp fun _ _ h ↦ h.elim

/-- A step does the same again wherever the same trees are left. -/
theorem LooksAhead.again (hm : LooksAhead m) {a : α} (h : m c = (.ok a, d))
    (hc : c'.rest = c.rest) : Reaches m c' (· = a) d.rest := by
  obtain ⟨read, hr⟩ := hm.forward.exists_read h
  exact hm.exchange h hr (hc.trans hr) (.refl _ _)

theorem settled_pure (a : α) : Settled S (pure a) := by
  refine ⟨forward_pure a, ?_⟩
  rintro c d b ⟨⟩ read hc c' us hc' -
  obtain rfl : read = [] := by simpa using hc
  exact reaches_pure hc' rfl

theorem settled_ofExcept (x : Except Refusal α) : Settled S (ofExcept x) := by
  refine ⟨forward_ofExcept x, ?_⟩
  rintro c d b h read hc c' us hc' -
  obtain ⟨rfl, rfl⟩ := ofExcept_eq_iff.1 h
  obtain rfl : read = [] := by simpa using hc
  exact reaches_ofExcept hc' rfl

theorem read_eq_singleton {t : Tree} {ts read : List Tree} (hc : c.rest = t :: ts)
    (h : c.rest = read ++ (c.skip 1).rest) : read = [t] := by
  have hr : [t] ++ ts = read ++ ts := by simpa [Cursor.skip, hc] using h
  exact (List.append_cancel_right hr).symm

theorem settled_expect (what : Expectation) (view : Tree → Option α) :
    Settled S (expect what view) := by
  refine ⟨forward_expect what view, ?_⟩
  rintro c d a h read hc c' us hc' -
  obtain ⟨⟨t, ts, ht, hv⟩, rfl⟩ := expect_eq_ok_iff.1 h
  rw [read_eq_singleton ht hc] at hc'
  exact reaches_expect hc' hv

theorem eat_eq_none_iff {view : Tree → Option α} :
    eat view c = (.ok none, d) ↔ (∀ t ∈ c.rest.head?, view t = none) ∧ c = d := by
  unfold eat Cursor.peek
  cases c.rest with
  | nil => simp
  | cons t ts =>
    cases hv : view t with
    | none => simp [hv]
    | some a => simp [hv]

/-- A step that may read a tree is settled in front of all that it does not read. -/
theorem settled_eat (view : Tree → Option α) :
    Settled (fun _ us ↦ ∀ t ∈ us.head?, view t = none) (eat view) := by
  refine ⟨forward_eat view, ?_⟩
  rintro c d (_ | a) h read hc c' us hc' hu
  · obtain ⟨hv, rfl⟩ := eat_eq_none_iff.1 h
    obtain rfl : read = [] := by simpa using hc
    refine reaches_eat_none hc' ?_
    rcases hu with hu | hu
    · rwa [← hu]
    · exact hu
  · obtain ⟨⟨t, ts, ht, hv⟩, rfl⟩ := eat_eq_some_iff.1 h
    rw [read_eq_singleton ht hc] at hc'
    exact reaches_eat hc' hv

/-- Steps in sequence are settled if the first one is in front of all that the second one starts
with. -/
theorem Settled.bind_of (hm : Settled S m) (hf : ∀ a, Settled T (f a))
    (hs : ∀ a e b d read us, f a e = (.ok b, d) → e.rest = read ++ d.rest →
      StandIn T d.rest us → StandIn S e.rest (read ++ us)) : Settled T (m >>= f) := by
  refine ⟨hm.forward.bind fun a ↦ (hf a).forward, ?_⟩
  intro c d b h read hc c' us hc' hu
  obtain ⟨a, e, hma, hfb⟩ := bind_eq_ok_iff.1 h
  obtain ⟨r₁, hr₁⟩ := hm.forward.exists_read hma
  obtain ⟨r₂, hr₂⟩ := (hf a).forward.exists_read hfb
  rw [read_eq_append hr₁ hr₂ hc, List.append_assoc] at hc'
  refine (hm.exchange hma hr₁ hc' (hs a e b d r₂ us hfb hr₂ hu)).bind fun x g hx hg ↦ ?_
  rw [hx]
  exact (hf a).exchange hfb hr₂ hg hu

theorem Settled.bind (hm : Settled S m) (hf : ∀ a, Settled S (f a)) : Settled S (m >>= f) :=
  hm.bind_of hf fun _ _ _ _ read _ _ hr hu ↦ hr ▸ hu.append read

/-- Behind a step that looks at the next tree, one that reads it takes care of what follows. -/
theorem Settled.bind_reads (hm : Settled S m) (hf : ∀ a, Settled T (f a))
    (hr : ∀ a, (f a).Reads) : Settled T (m >>= f) := by
  refine hm.bind_of hf fun a e b d read us hfb he _ ↦ .inl ?_
  have hl := hr a e b d hfb
  cases read with
  | nil => simp [he] at hl
  | cons t ts => simp [he]

/-! ## Loops -/

section Loops

variable {step : List α → Parse (Option α)} {xs : List α}

/-- A run whose steps are settled goes the same way in front of other trees. -/
theorem Run.exchange (hf : ∀ done, (step done).Forward)
    (hs : ∀ done c a d read c' us, step done c = (.ok (some a), d) → c.rest = read ++ d.rest →
      c'.rest = read ++ us → StandIn S d.rest us → Reaches (step done) c' (· = some a) us)
    (h : Run step c xs d) {read : List Tree} (hc : c.rest = read ++ d.rest)
    (hc' : c'.rest = read ++ us) (hu : StandIn S d.rest us) :
    ∃ d', Run step c' xs d' ∧ d'.rest = us := by
  induction h generalizing read us with
  | start =>
    obtain rfl : read = [] := by simpa using hc
    exact ⟨c', .start, hc'⟩
  | @next xs e d a hr he ih =>
    obtain ⟨r₁, hr₁, -⟩ := hr.before hf
    obtain ⟨r₂, hr₂⟩ := (hf xs).exists_read he
    rw [read_eq_append hr₁ hr₂ hc, List.append_assoc] at hc'
    obtain ⟨e', hr', he'⟩ := ih hr₁ hc' (hr₂ ▸ hu.append r₂)
    obtain ⟨_, d', hs', rfl, hd'⟩ := hs xs e a d r₂ e' us he hr₂ he' hu
    exact ⟨d', hr'.next hs', hd'⟩

theorem Settled.collect {h : ∀ done, (step done).Yields} (hs : ∀ done, Settled S (step done)) :
    Settled S (collect step h []) := by
  have hf := fun done ↦ (hs done).forward
  refine ⟨forward_collect hf [], ?_⟩
  intro c d xs hx read hc c' us hc' hu
  obtain ⟨e, hr, he⟩ := collect_eq_ok_iff.1 hx
  obtain ⟨r₁, hr₁, -⟩ := hr.before hf
  obtain ⟨r₂, hr₂⟩ := (hf xs).exists_read he
  rw [read_eq_append hr₁ hr₂ hc, List.append_assoc] at hc'
  obtain ⟨e', hr', he'⟩ := hr.exchange hf
    (fun done _ _ _ _ _ _ h hc hc' hu ↦ (hs done).exchange h hc hc' hu) hr₁ hc' (hr₂ ▸ hu.append r₂)
  obtain ⟨_, d', hn, rfl, hd'⟩ := (hs xs).exchange he hr₂ he' hu
  exact ⟨xs, d', collect_eq_ok_iff.2 ⟨e', hr', hn⟩, rfl, hd'⟩

/-- A step that yields something over what is left is settled as the step is. -/
theorem Settled.ifMore_some (hm : Settled S m) (hr : m.Reads) {a : α} {read : List Tree}
    (h : ifMore m c = (.ok (some a), d)) (hc : c.rest = read ++ d.rest)
    (hc' : c'.rest = read ++ us) (hu : StandIn S d.rest us) :
    Reaches (ifMore m) c' (· = some a) us := by
  obtain ⟨-, hma⟩ := ifMore_eq_some_iff.1 h
  obtain ⟨a, d', hma', rfl, hd'⟩ := hm.exchange hma hc hc' hu
  refine ⟨_, d', ifMore_eq_some_iff.2 ⟨?_, hma'⟩, rfl, hd'⟩
  intro hn
  have hl := hr c' a d' hma'
  simp [hn] at hl

/-- A step over what is left looks ahead as the step does. -/
theorem Settled.ifMore (hm : Settled S m) (hr : m.Reads) : LooksAhead (ifMore m) := by
  refine ⟨forward_ifMore hm.forward, ?_⟩
  rintro c d (_ | a) h read hc c' us hc' hu
  · obtain ⟨hn, rfl⟩ := ifMore_eq_none_iff.1 h
    obtain ⟨rfl, -⟩ : read = [] ∧ _ := List.append_eq_nil_iff.1 (hc.symm.trans hn)
    have hu : c.rest.head? = us.head? := hu.resolve_right id
    obtain rfl : us = [] := List.head?_eq_none_iff.1 (by rw [← hu, hn]; rfl)
    exact ⟨none, c', ifMore_eq_none_iff.2 ⟨hc', rfl⟩, rfl, hc'⟩
  · exact hm.ifMore_some hr h hc hc' (.inl (hu.resolve_right id))

/-- A run over what is left goes the same way in front of other trees. -/
theorem Run.exchange_ifMore {step : List α → Parse α} (hs : ∀ done, Settled S (step done))
    (hr : ∀ done, (step done).Reads) (h : Run (fun done ↦ ifMore (step done)) c xs d)
    {read : List Tree} (hc : c.rest = read ++ d.rest) (hc' : c'.rest = read ++ us)
    (hu : StandIn S d.rest us) :
    ∃ d', Run (fun done ↦ ifMore (step done)) c' xs d' ∧ d'.rest = us :=
  h.exchange (fun done ↦ forward_ifMore (hs done).forward)
    (fun done _ _ _ _ _ _ h hc hc' hu ↦ (hs done).ifMore_some (hr done) h hc hc' hu) hc hc' hu

end Loops

/-! ## Attributes -/

theorem noInner_eq_ok_iff {u : Unit} :
    noInner c = (.ok u, d) ↔ (∀ t ∈ c.rest.head?, t.isMark "!" = false) ∧ c = d := by
  unfold noInner Cursor.peek
  cases c.rest with
  | nil => simp
  | cons t ts =>
    cases ht : t.isMark "!" with
    | false => simp [ht]
    | true => simp [ht, failHere]

theorem looksAhead_noInner : LooksAhead noInner := by
  refine ⟨forward_noInner, ?_⟩
  rintro c d u h read hc c' us hc' (hu | hu)
  · obtain ⟨hn, rfl⟩ := noInner_eq_ok_iff.1 h
    obtain rfl : read = [] := by simpa using hc
    obtain rfl : c'.rest = us := hc'
    exact ⟨u, c', noInner_eq_ok_iff.2 ⟨hu ▸ hn, rfl⟩, rfl, rfl⟩
  · exact hu.elim

theorem looksAhead_attribute? : LooksAhead attribute? := by
  have hb : LooksAhead attributeBody := looksAhead_noInner.bind fun _ ↦
    (settled_expect _ _).bind fun _ ↦ settled_ofExcept _
  refine (settled_eat _).looksAhead.bind fun r ↦ ?_
  cases r with
  | some a => exact settled_pure _
  | none =>
    refine (settled_eat _).looksAhead.bind fun r ↦ ?_
    cases r with
    | none => exact settled_pure _
    | some _ => exact hb.bind fun _ ↦ settled_pure _

theorem looksAhead_attributes : LooksAhead attributes :=
  Settled.collect fun _ ↦ looksAhead_attribute?

theorem looksAhead_visibility : LooksAhead visibility := by
  refine (settled_eat _).looksAhead.bind fun r ↦ ?_
  cases r with
  | none => exact settled_pure _
  | some _ =>
    refine (settled_eat _).looksAhead.bind fun r ↦ ?_
    cases r with
    | none => exact settled_pure _
    | some _ => exact settled_pure _

end Parse

/-! ## Types -/

namespace AngleRun

/-- A run ends at the same place wherever the same tree follows it. -/
theorem ofTrees_exchange {depth d : Nat} {arrow : Bool} {ts us : List Tree}
    (hd : (ofTrees depth arrow ts).depth = some d)
    (hu : (ofTrees depth arrow ts).rest.head? = us.head?) :
    ofTrees depth arrow ((ofTrees depth arrow ts).run ++ us) =
      ⟨(ofTrees depth arrow ts).run, us, some d⟩ := by
  fun_induction ofTrees depth arrow ts with
  | case1 depth arrow =>
    obtain rfl : us = [] := List.head?_eq_none_iff.1 hu.symm
    cases hd
    rfl
  | case2 depth arrow t ts h =>
    cases us with
    | nil => cases hu
    | cons t' us =>
      obtain rfl : t = t' := Option.some.inj hu
      cases hd
      rw [List.nil_append, ofTrees, if_pos h]
  | case3 => cases hd
  | case4 depth arrow t ts h e he r ih =>
    have hi := ih hd hu
    rw [List.cons_append, ofTrees, if_neg h, he]
    simp only [hi, r]

/-- A run whose brackets are right ends at the end or at a comma. -/
theorem isMark_of_mem_rest {depth d : Nat} {arrow : Bool} {ts : List Tree}
    (hd : (ofTrees depth arrow ts).depth = some d) :
    ∀ t ∈ (ofTrees depth arrow ts).rest.head?, t.isMark "," = true := by
  fun_induction ofTrees depth arrow ts with
  | case1 => simp
  | case2 depth arrow t ts h =>
    rintro _ ⟨⟩
    exact (Bool.and_eq_true_iff.1 h).1
  | case3 => cases hd
  | case4 depth arrow t ts h e he r ih => exact ih hd

end AngleRun

namespace Parse

variable {α : Type} {c d : Cursor}

theorem typeOfRun_again {r : AngleRun} {x : FieldType} (h : typeOfRun r c = (.ok x, d)) :
    c = d ∧ r.depth = some 0 ∧ ∀ us e, typeOfRun ⟨r.run, us, some 0⟩ e = (.ok x, e) := by
  obtain ⟨run, rest, depth⟩ := r
  match run, depth with
  | _, none => cases h
  | [], some _ => cases h
  | _ :: _, some 0 =>
    cases h
    exact ⟨rfl, rfl, fun _ _ ↦ rfl⟩
  | _ :: _, some (_ + 1) => cases h

theorem fieldType_eq_ok {x : FieldType} (h : fieldType c = (.ok x, d)) :
    (AngleRun.ofTrees 0 false c.rest).depth = some 0 ∧
      (AngleRun.ofTrees 0 false c.rest).rest = d.rest := by
  obtain ⟨rfl, hd, -⟩ := typeOfRun_again h
  have hr : List.drop (AngleRun.ofTrees 0 false c.rest).run.length
      ((AngleRun.ofTrees 0 false c.rest).run ++ (AngleRun.ofTrees 0 false c.rest).rest) =
        (AngleRun.ofTrees 0 false c.rest).rest := List.drop_left
  rw [AngleRun.run_append_rest] at hr
  exact ⟨hd, hr.symm⟩

theorem looksAhead_fieldType : LooksAhead fieldType := by
  refine ⟨forward_fieldType, ?_⟩
  rintro c d x h read hc c' us hc' (hu | hu)
  · obtain ⟨hd, hr⟩ := fieldType_eq_ok h
    obtain ⟨-, -, hx⟩ := typeOfRun_again h
    have hrun : (AngleRun.ofTrees 0 false c.rest).run = read := by
      have := AngleRun.run_append_rest 0 false c.rest
      rw [hr] at this
      exact List.append_cancel_right (this.trans hc)
    have hs := AngleRun.ofTrees_exchange hd (hr ▸ hu)
    rw [hrun] at hs hx
    refine ⟨x, c'.skip read.length, ?_, rfl, ?_⟩
    · rw [fieldType, hc', hs]
      exact hx us _
    · rw [Cursor.skip, hc']
      exact List.drop_left
  · exact hu.elim

theorem mark?_eq_none_iff {mark : String} {t : Tree} :
    mark? mark t = none ↔ t.isMark mark = false := by
  cases t with
  | leaf e l => cases l <;> simp [mark?, Tree.punct?, Tree.isMark]
  | group e d ts k => simp [mark?, Tree.punct?, Tree.isMark]

/-- Where only a comma may follow, it is read or nothing is left. -/
theorem comma_of_eatPunct {r : Option Punct} (hm : ∀ t ∈ c.rest.head?, t.isMark "," = true)
    (h : eatPunct "," c = (.ok r, d)) : Tree.Comma c.rest d.rest := by
  cases r with
  | none =>
    obtain ⟨hn, rfl⟩ := eat_eq_none_iff.1 h
    cases hc : c.rest with
    | nil => exact .none
    | cons t ts =>
      have ht := mark?_eq_none_iff.1 (hn t (by simp [hc]))
      rw [hm t (by simp [hc])] at ht
      cases ht
  | some p =>
    obtain ⟨⟨t, ts, hc, hp⟩, rfl⟩ := eat_eq_some_iff.1 h
    obtain ⟨rfl, -⟩ := mark?_eq_some_iff.1 hp
    rw [Cursor.skip, hc]
    exact .some _ _ _

/-- A type that others may follow has a comma behind it. -/
theorem settled_fieldType_comma (f : FieldType → α) :
    Settled (fun vs _ ↦ vs ≠ [])
      (fieldType >>= fun type ↦ eatPunct "," >>= fun _ ↦ pure (f type)) := by
  have hl : LooksAhead (fieldType >>= fun type ↦ eatPunct "," >>= fun _ ↦ pure (f type)) :=
    looksAhead_fieldType.bind fun _ ↦ (settled_eat _).looksAhead.bind fun _ ↦ settled_pure _
  refine ⟨hl.forward, ?_⟩
  intro c d a h read hc c' us hc' hu
  by_cases hh : d.rest.head? = us.head?
  · exact hl.exchange h hc hc' (.inl hh)
  -- Something is left, so it is a comma that ended the type, and whatever follows it is not read.
  have hn : d.rest ≠ [] := hu.resolve_left hh
  obtain ⟨type, e, ht, h⟩ := bind_eq_ok_iff.1 h
  obtain ⟨r, e', hr, h⟩ := bind_eq_ok_iff.1 h
  obtain ⟨rfl, rfl⟩ := pure_eq_ok_iff.1 h
  obtain ⟨hd, he⟩ := fieldType_eq_ok ht
  have hcomma := comma_of_eatPunct (he ▸ AngleRun.isMark_of_mem_rest hd) hr
  obtain ⟨r₁, hr₁⟩ := forward_fieldType.exists_read ht
  generalize hts : e.rest = ts at hcomma hr₁
  generalize e'.rest = vs at hcomma hn hc
  cases hcomma with
  | none => exact absurd rfl hn
  | some x joint =>
    have hread : read ++ vs = r₁ ++ [Tree.leaf x (.punct "," joint)] ++ vs := by
      rw [← hc, hr₁, List.append_assoc]
      rfl
    rw [List.append_cancel_right hread, List.append_assoc] at hc'
    refine (looksAhead_fieldType.exchange ht (hts ▸ hr₁) hc' (.inl (by rw [hts]; rfl))).bind ?_
    intro y g hy hg
    have hx : Tree.Comma g.rest us := by
      rw [hg]
      exact .some x joint us
    refine (reaches_comma hx).bind fun _ k _ hk ↦ ?_
    exact reaches_pure hk (by rw [hy])

/-! ## Fields -/

theorem looksAhead_fieldAttributes (s : Settings) : LooksAhead (fieldAttributes s) :=
  looksAhead_attributes.bind fun _ ↦ (settled_ofExcept _).bind fun _ ↦ settled_pure _

theorem settled_tupleField (s : Settings) (done : List FieldDecl) :
    Settled (fun vs _ ↦ vs ≠ []) (tupleField s done) :=
  (looksAhead_fieldAttributes s).bind_reads (fun _ ↦ settled_fieldType_comma _) fun _ ↦
    reads_fieldType.bind_right fun _ ↦ (forward_eat _).bind fun _ ↦ forward_pure _

theorem settled_structField (s : Settings) (done : List FieldDecl) :
    Settled (fun vs _ ↦ vs ≠ []) (structField s done) :=
  (looksAhead_fieldAttributes s).bind_reads
    (fun _ ↦ (settled_expect _ _).bind fun _ ↦ (settled_ofExcept _).bind fun _ ↦
      (settled_expect _ _).bind fun _ ↦ settled_fieldType_comma _)
    fun _ ↦ (reads_expect _ _).bind_right fun _ ↦ (forward_ofExcept _).bind fun _ ↦
      (forward_expect _ _).bind fun _ ↦ forward_fieldType.bind fun _ ↦
        (forward_eat _).bind fun _ ↦ forward_pure _

/-! ## Variants -/

/-- Trees that a variant which ends in front of them does not read: neither its fields nor its
comma. -/
def Apart (us : List Tree) : Prop := ∀ t ∈ us.head?, fieldGroup? t = none ∧ mark? "," t = none

theorem settled_fieldList (s : Settings) (name : Ident) :
    Settled (fun _ us ↦ ∀ t ∈ us.head?, fieldGroup? t = none) (fieldList s name) := by
  refine (settled_eat _).bind fun r ↦ ?_
  cases r with
  | none => exact settled_pure _
  | some g => exact settled_ofExcept _

theorem settled_variant (s : Settings) (noDisplay : Bool) :
    Settled (fun _ us ↦ Apart us) (Parse.variant s noDisplay) := by
  refine looksAhead_attributes.bind_reads (fun as ↦ (settled_expect _ _).bind fun name ↦
    (settled_ofExcept _).bind fun _ ↦ ?_) fun _ ↦ ?_
  · refine ((settled_fieldList s name).imp fun _ us hu t ht ↦ (hu t ht).1).bind fun fs ↦ ?_
    refine ((settled_eat _).imp fun _ us hu t ht ↦ (hu t ht).2).bind fun _ ↦ ?_
    exact (settled_ofExcept _).bind fun _ ↦ settled_pure _
  · exact (reads_expect _ _).bind_right fun _ ↦ (forward_ofExcept _).bind fun _ ↦
      (forward_fieldList _ _).bind fun _ ↦ (forward_eat _).bind fun _ ↦
        (forward_ofExcept _).bind fun _ ↦ forward_pure _

/-! ## Items -/

/-- Reads the head of an item up to its body. -/
def itemStart (s : Settings) : Parse (Bool × Ident × Ident) := do
  let as ← attributes
  let noDisplay ← ofExcept (Attribute.noDisplay s as)
  let _ ← visibility
  let keyword ← expectIdent "enum"
  let name ← readIdent
  pure (noDisplay, keyword, name)

theorem itemHead_eq_itemStart (s : Settings) :
    itemHead s = itemStart s >>= fun h ↦ expectGroup .brace >>= fun body ↦
      pure ⟨h.1, h.2.1, h.2.2, body⟩ := by
  simp only [itemHead, itemStart, bind_assoc, pure_bind]

theorem settled_itemStart (s : Settings) : Settled (fun _ _ ↦ True) (itemStart s) := by
  have hr : ∀ b : Bool,
      (expectIdent "enum" >>= fun i ↦ readIdent >>= fun j ↦ pure (b, i, j)).Reads := fun b ↦
    (reads_expect _ _).bind_right fun _ ↦ (forward_expect _ _).bind fun _ ↦ forward_pure _
  refine looksAhead_attributes.bind_reads (fun as ↦ (settled_ofExcept _).bind fun b ↦ ?_) ?_
  · exact looksAhead_visibility.bind_reads (fun _ ↦ (settled_expect _ _).bind fun _ ↦
      (settled_expect _ _).bind fun _ ↦ settled_pure _) fun _ ↦ hr _
  · exact fun _ ↦ .bind_left (forward_ofExcept _) fun _ ↦ .bind_left forward_visibility fun _ ↦ hr _

/-- The head of an item with nothing behind its body is the same in front of another body. -/
theorem itemHead_exchange {s : Settings} {h : ItemHead} {ts us us' : List Tree}
    {e e' k k' : Extent} (hh : itemHead s c = (.ok h, d)) (hd : d.rest = [])
    (hc : c.rest = ts ++ [.group e .brace us k]) (hc' : c'.rest = ts ++ [.group e' .brace us' k']) :
    h.body = ⟨e, .brace, us, k⟩ ∧
      Reaches (itemHead s) c' (· = { h with body := ⟨e', .brace, us', k'⟩ }) [] := by
  rw [itemHead_eq_itemStart] at hh ⊢
  obtain ⟨f, c₁, hf, hh⟩ := bind_eq_ok_iff.1 hh
  obtain ⟨body, c₂, hb, hh⟩ := bind_eq_ok_iff.1 hh
  obtain ⟨rfl, rfl⟩ := pure_eq_ok_iff.1 hh
  obtain ⟨⟨t, rest, ht, hg⟩, rfl⟩ := expect_eq_ok_iff.1 hb
  obtain rfl : rest = [] := by simpa [Cursor.skip, ht] using hd
  obtain ⟨rfl, -⟩ := brackets?_eq_some_iff.1 hg
  obtain ⟨read, hr⟩ := (settled_itemStart s).forward.exists_read hf
  have hrt : read ++ [body.toTree] = ts ++ [.group e .brace us k] := by rw [← hc, hr, ht]
  obtain ⟨rfl, hbt⟩ := List.append_inj' hrt rfl
  obtain ⟨_, _, _, _⟩ := body
  obtain ⟨rfl, rfl, rfl, rfl⟩ := Tree.group.inj (List.head_eq_of_cons_eq hbt)
  refine ⟨rfl, ((settled_itemStart s).exchange hf hr hc' (.inr trivial)).bind ?_⟩
  intro g c₃ hg hc₃
  have hv : brackets? .brace (.group e' .brace us' k') = some ⟨e', .brace, us', k'⟩ := rfl
  refine (reaches_expect hc₃ hv).bind fun body c₄ hb hc₄ ↦ ?_
  exact reaches_pure hc₄ (by rw [hg, hb])

end Parse

end ErrorDerive
