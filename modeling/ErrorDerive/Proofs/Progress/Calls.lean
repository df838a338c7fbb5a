import ErrorDerive.Proofs.Parsing.Lookahead

/-!
# Calls on a cursor

The calls that a cursor takes, with what each returns.  No call moves it back or past the end of its
trees, also if it fails (`Cursor.Over.after`).  The calls that ask for one tree move it by that tree
or not at all (`Call.atomic`).
-/

namespace ErrorDerive

/-- What a call returns. -/
inductive Reply
  | nothing
  | flag (b : Bool)
  | span (s : Span)
  | tree (t : Tree)
  | string (value : String) (lit : Lit)
  | path (text : String) (first : Ident)
  | attributes (as : List Attribute)
  | visibility (text : String)
  | type (type : FieldType)

/-- The tree that is returned, if one is. -/
def Reply.tree? : Reply → Option Tree
  | .tree t => some t
  | .string _ l => some l.toTree
  | _ => none

/-- A result that may be missing. -/
def Reply.ofOption {α : Type} (reply : α → Reply) : Option α → Reply
  | none => .nothing
  | some a => reply a

/-- Why a call fails: its step is refused, or the group that it asks for has no such bracket. -/
inductive CallFault
  | refused (r : Refusal)
  | noDelimiter (opener : String)

/-- The calls that a cursor takes. -/
inductive Call
  | hasMore
  | peek
  | next
  | here
  | expectIdent (name : String)
  | eatIdent (name : String)
  | expectPunct (mark : String)
  | eatPunct (mark : String)
  | expectGroup (opener : String)
  | readIdent
  | readString
  | expectEnd
  | path
  | attributes
  | visibility
  | fieldType
deriving DecidableEq, Repr

/-- A step as a call, with what becomes of its result. -/
def Parse.replying {α : Type} (reply : α → Reply) (m : Parse α) (c : Cursor) :
    Except CallFault Reply × Cursor :=
  (((m c).1.map reply).mapError .refused, (m c).2)

namespace Call

/-- Carries a call out. -/
def run : Call → Cursor → Except CallFault Reply × Cursor
  | .hasMore => Parse.hasMore.replying .flag
  | .peek => Parse.peek.replying (.ofOption .tree)
  | .next => Parse.next.replying (.ofOption .tree)
  | .here => fun c ↦ (.ok (.span c.here), c)
  | .expectIdent name => (Parse.expectIdent name).replying fun i ↦ .tree i.toTree
  | .eatIdent name => (Parse.eatIdent name).replying (.ofOption fun i ↦ .tree i.toTree)
  | .expectPunct mark => (Parse.expectPunct mark).replying fun p ↦ .tree p.toTree
  | .eatPunct mark => (Parse.eatPunct mark).replying (.ofOption fun p ↦ .tree p.toTree)
  | .expectGroup opener =>
    match Delimiter.ofOpener? opener with
    | some d => (Parse.expectGroup d).replying fun g ↦ .tree g.toTree
    | none => fun c ↦ (.error (.noDelimiter opener), c)
  | .readIdent => Parse.readIdent.replying fun i ↦ .tree i.toTree
  | .readString => Parse.readString.replying fun r ↦ .string r.1 r.2
  | .expectEnd => Parse.expectEnd.replying fun _ ↦ .nothing
  | .path => Parse.path.replying fun r ↦ .path r.1 r.2
  | .attributes => Parse.attributes.replying .attributes
  | .visibility => Parse.visibility.replying (.ofOption .visibility)
  | .fieldType => Parse.fieldType.replying .type

/-- Where calls leave a cursor one after the other, whether they succeed or fail. -/
def after (calls : List Call) (c : Cursor) : Cursor := calls.foldl (fun c call ↦ (call.run c).2) c

/-- The calls that ask for one tree. -/
def takesOne : Call → Bool
  | .next | .expectIdent _ | .eatIdent _ | .expectPunct _ | .eatPunct _ | .expectGroup _
  | .readIdent | .readString => true
  | _ => false

end Call

namespace Parse

variable {α : Type} {c d : Cursor} {m : Parse α} {reply : α → Reply}

/-! ## Positions -/

theorem Forward.replying (hm : m.Forward) (c : Cursor) : c.Before (m.replying reply c).2 := hm c

theorem forward_readString : Forward readString := by
  intro c
  unfold readString
  split
  · exact .refl c
  · next hl =>
    split
    · exact Cursor.before_skip (length_pos_of_view hl)
    · exact .refl c

end Parse

/-- A cursor over trees: it stands between the first of them and their end, in front of those that
it has still to read. -/
structure Cursor.Over (ts : List Tree) (c : Cursor) : Prop where
  pos_le : c.pos ≤ ts.length
  rest : c.rest = ts.drop c.pos

theorem Cursor.over_ofGroup (g : Group) : (ofGroup g).Over g.trees := ⟨Nat.zero_le _, rfl⟩

theorem Cursor.over_ofSource (label : Option String) (source : String) (ts : List Tree) :
    (ofSource label source ts).Over ts := ⟨Nat.zero_le _, rfl⟩

theorem Cursor.Over.of_before {ts : List Tree} {c d : Cursor} (h : c.Over ts) (hb : c.Before d) :
    d.Over ts := by
  obtain ⟨read, hr, hp, -⟩ := hb
  have hl := congrArg List.length (h.rest.symm.trans hr)
  rw [List.length_drop, List.length_append] at hl
  have hc := h.pos_le
  refine ⟨by omega, ?_⟩
  rw [hp, ← List.drop_drop, ← h.rest, hr, List.drop_left]

namespace Call

theorem before_run (call : Call) (c : Cursor) : c.Before (call.run c).2 := by
  cases call with
  | hasMore => exact Parse.forward_hasMore.replying c
  | peek => exact Parse.forward_peek.replying c
  | next => exact Parse.forward_next.replying c
  | here => exact .refl c
  | expectIdent name => exact (Parse.forward_expect _ _).replying c
  | eatIdent name => exact (Parse.forward_eat _).replying c
  | expectPunct mark => exact (Parse.forward_expect _ _).replying c
  | eatPunct mark => exact (Parse.forward_eat _).replying c
  | expectGroup opener =>
    rw [run]
    cases Delimiter.ofOpener? opener with
    | none => exact .refl c
    | some d => exact (Parse.forward_expect _ _).replying c
  | readIdent => exact (Parse.forward_expect _ _).replying c
  | readString => exact Parse.forward_readString.replying c
  | expectEnd => exact Parse.forward_expectEnd.replying c
  | path => exact Parse.forward_path.replying c
  | attributes => exact Parse.forward_attributes.replying c
  | visibility => exact Parse.forward_visibility.replying c
  | fieldType => exact Parse.forward_fieldType.replying c

/-- Calls only move a cursor forward. -/
theorem before_after (calls : List Call) (c : Cursor) : c.Before (after calls c) := by
  induction calls generalizing c with
  | nil => exact .refl c
  | cons call calls ih => exact (call.before_run c).trans (ih _)

end Call

/-- No calls move a cursor back or out of its trees. -/
theorem Cursor.Over.after {ts : List Tree} {c : Cursor} (h : c.Over ts) (calls : List Call) :
    (Call.after calls c).Over ts ∧ c.pos ≤ (Call.after calls c).pos :=
  ⟨h.of_before (Call.before_after calls c), (Call.before_after calls c).pos_le⟩

/-! ## One tree or none -/

/-- Taking one tree or none: a tree that is taken was the next one, and the cursor has moved behind
it; otherwise the cursor has not moved. -/
inductive Taken (c : Cursor) : Option Tree → Cursor → Prop
  | one {t : Tree} {d : Cursor} (h : c.rest = t :: d.rest) (hp : d.pos = c.pos + 1) :
      Taken c (some t) d
  | none : Taken c none c

/-- What takes the tree that it returns, and takes none if it returns none or fails. -/
def Atomic {ε α : Type} (tree? : α → Option Tree) (m : Cursor → Except ε α × Cursor) : Prop :=
  ∀ c, Taken c ((m c).1.toOption.bind tree?) (m c).2

theorem Tree.lit?_eq_some_iff {t : Tree} {l : Lit} : t.lit? = some l ↔ t = l.toTree := by
  constructor
  · intro h
    unfold lit? at h
    split at h
    · cases h; rfl
    · cases h
  · rintro rfl
    rfl

theorem Atomic.replying {α : Type} {m : Parse α} {tree? : α → Option Tree} {reply : α → Reply}
    (hm : Atomic tree? m) (hr : ∀ a, (reply a).tree? = tree? a) :
    Atomic Reply.tree? (m.replying reply) := by
  intro c
  have hc := hm c
  unfold Parse.replying
  generalize m c = x at hc ⊢
  obtain ⟨r | a, d⟩ := x
  · exact hc
  · change Taken c (reply a).tree? d
    rw [hr]
    exact hc

namespace Parse

variable {α : Type} {c : Cursor} {view : Tree → Option α} {toTree : α → Tree}

theorem taken_skip_one {t : Tree} {ts : List Tree} (h : c.rest = t :: ts) :
    Taken c (some t) (c.skip 1) :=
  .one (by simp [Cursor.skip, h]) rfl

/-- What a view shows of the next tree. -/
theorem taken_of_view (hv : ∀ t a, view t = some a → t = toTree a) {a : α}
    (h : c.peek.bind view = some a) : Taken c (some (toTree a)) (c.skip 1) := by
  obtain ⟨t, ht, ha⟩ := Option.bind_eq_some_iff.1 h
  obtain ⟨ts, hc⟩ := List.head?_eq_some_iff.1 ht
  rw [← hv t a ha]
  exact taken_skip_one hc

theorem atomic_next : Atomic id next := by
  intro c
  unfold next
  split
  · exact .none
  · next hc => exact taken_skip_one hc

theorem atomic_eat (hv : ∀ t a, view t = some a → t = toTree a) :
    Atomic (Option.map toTree) (eat view) := by
  intro c
  unfold eat
  split
  · exact .none
  · next ha => exact taken_of_view hv ha

theorem atomic_expect {what : Expectation} (hv : ∀ t a, view t = some a → t = toTree a) :
    Atomic (fun a ↦ some (toTree a)) (expect what view) := by
  intro c
  unfold expect
  split
  · exact .none
  · next ha => exact taken_of_view hv ha

theorem eq_toTree_of_word? {name : String} {t : Tree} {i : Ident} (h : word? name t = some i) :
    t = i.toTree := Tree.ident?_eq_some_iff.1 (Option.filter_eq_some_iff.1 h).1

theorem eq_toTree_of_mark? {mark : String} {t : Tree} {p : Punct} (h : mark? mark t = some p) :
    t = p.toTree := Tree.punct?_eq_some_iff.1 (Option.filter_eq_some_iff.1 h).1

theorem eq_toTree_of_stringLit? {t : Tree} {l : Lit} (h : stringLit? t = some l) :
    t = l.toTree := Tree.lit?_eq_some_iff.1 (Option.filter_eq_some_iff.1 h).1

/-- A string literal that has no value is not taken. -/
theorem atomic_readString : Atomic (fun r ↦ some r.2.toTree) readString := by
  intro c
  unfold readString
  split
  · exact .none
  · next hl =>
    split
    · exact taken_of_view (fun _ _ ↦ eq_toTree_of_stringLit?) hl
    · exact .none

end Parse

namespace Call

open Parse (atomic_next atomic_eat atomic_expect atomic_readString eq_toTree_of_word?
  eq_toTree_of_mark? brackets?_eq_some_iff)

theorem tree?_ofOption {α : Type} {reply : α → Reply} {toTree : α → Tree}
    (h : ∀ a, (reply a).tree? = some (toTree a)) (x : Option α) :
    (Reply.ofOption reply x).tree? = x.map toTree := by
  cases x with
  | none => rfl
  | some a => exact h a

/-- The calls that ask for one tree take it, or leave the cursor where it is. -/
theorem atomic {call : Call} (h : call.takesOne = true) : Atomic Reply.tree? call.run := by
  cases call with
  | next => exact atomic_next.replying fun x ↦ by cases x <;> rfl
  | expectIdent name =>
    exact (atomic_expect fun _ _ ↦ eq_toTree_of_word?).replying fun _ ↦ rfl
  | eatIdent name =>
    exact (atomic_eat fun _ _ ↦ eq_toTree_of_word?).replying (tree?_ofOption fun _ ↦ rfl)
  | expectPunct mark =>
    exact (atomic_expect fun _ _ ↦ eq_toTree_of_mark?).replying fun _ ↦ rfl
  | eatPunct mark =>
    exact (atomic_eat fun _ _ ↦ eq_toTree_of_mark?).replying (tree?_ofOption fun _ ↦ rfl)
  | expectGroup opener =>
    rw [run]
    cases Delimiter.ofOpener? opener with
    | none => exact fun c ↦ .none
    | some d =>
      exact (atomic_expect fun _ _ h ↦ (brackets?_eq_some_iff.1 h).1).replying fun _ ↦ rfl
  | readIdent =>
    exact (atomic_expect fun _ _ ↦ Tree.ident?_eq_some_iff.1).replying fun _ ↦ rfl
  | readString => exact atomic_readString.replying fun _ ↦ rfl
  | _ => cases h

end Call

end ErrorDerive
