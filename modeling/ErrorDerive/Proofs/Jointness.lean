import ErrorDerive.Proofs.Jointness.Passing
import ErrorDerive.Proofs.Reading

/-!
# Jointness among siblings

Whether a mark is joint is settled on the flat tokens of a text, by their offsets, and used on trees
after folding.  Here it is read off the siblings: a mark is joint exactly if the next sibling is a
mark that touches it, at any depth (`Tree.joint_iff_of_read`).  So types and paths, which look at
joint marks, depend on nothing but neighbours that touch (`Tree.local_of_read`).
-/

namespace ErrorDerive

/-! ## Atoms -/

/-- Atoms of which the first is a mark that starts at an offset. -/
def PlacedAtom.MarkAt (n : Nat) (xs : List PlacedAtom) : Prop :=
  ∃ x ∈ xs.head?, (∃ mark joint, x.atom = .leaf (.punct mark joint)) ∧ x.start = n

namespace Token

theorem markAt_iff {n : Nat} {tokens : List Token} :
    markAt n tokens = true ↔ PlacedAtom.MarkAt n (atoms tokens) := by
  cases tokens with
  | nil => simp [markAt, PlacedAtom.MarkAt, atoms]
  | cons t tokens =>
    have hk : t.kind = .leaf .punct ↔
        ∃ mark joint, t.kind.atom t.text (markAt t.stop tokens) = .leaf (.punct mark joint) := by
      cases t.kind with
      | leaf k => cases k <;> simp [TokenKind.atom, Leaf.ofLexeme]
      | opener d => simp [TokenKind.atom]
      | closer d => simp [TokenKind.atom]
    simp [markAt, PlacedAtom.MarkAt, atoms, hk, start]

/-- A mark among the atoms of tokens is joint exactly if the next atom is a mark that touches it. -/
theorem joint_iff_of_atoms {tokens : List Token} {xs ys : List PlacedAtom} {mark : String}
    {joint : Bool} {a b : Nat} (h : atoms tokens = xs ++ ⟨.leaf (.punct mark joint), a, b⟩ :: ys) :
    joint = true ↔ PlacedAtom.MarkAt b ys := by
  induction tokens generalizing xs with
  | nil => simp [atoms] at h
  | cons t tokens ih =>
    cases xs with
    | cons x xs => exact ih (List.cons.inj h).2
    | nil =>
      obtain ⟨hx, rfl⟩ := List.cons.inj h
      obtain ⟨hx, -, rfl⟩ := PlacedAtom.mk.inj hx
      rw [← markAt_iff]
      cases hk : t.kind with
      | leaf k =>
        cases k with
        | punct =>
          rw [hk] at hx
          cases hx
          rfl
        | _ => simp [hk, TokenKind.atom, Leaf.ofLexeme] at hx
      | opener d => simp [hk, TokenKind.atom] at hx
      | closer d => simp [hk, TokenKind.atom] at hx

end Token

namespace Tree

variable {label : Option String} {source : String} {ts us vs ws : List Tree} {n : Nat}

/-! ## Siblings -/

/-- The siblings in trees at any depth: the trees themselves, and those inside of a group. -/
inductive Siblings (ts : List Tree) : List Tree → Prop
  | outermost : Siblings ts ts
  | inside {us : List Tree} {g : Group} (hu : Siblings ts us) (hg : g.toTree ∈ us) :
      Siblings ts g.trees

/-- Trees of which the first is a mark that starts at an offset. -/
def MarkAt (n : Nat) (ts : List Tree) : Prop :=
  ∃ p : Punct, ts.head? = some p.toTree ∧ p.extent.start = n

/-- The atoms of siblings stand together, and a closing bracket comes behind them if anything
does. -/
theorem Siblings.flattenAll (h : Siblings ts us) :
    ∃ front back, flattenAll ts = front ++ (flattenAll us ++ back) ∧
      ∀ x ∈ back.head?, ∃ d, x.atom = .closer d := by
  induction h with
  | outermost => exact ⟨[], [], by simp, by simp⟩
  | @inside us g _ hg ih =>
    obtain ⟨front, back, hf, -⟩ := ih
    obtain ⟨vs, ws, rfl⟩ := List.append_of_mem hg
    obtain ⟨e, d, inner, close⟩ := g
    refine ⟨front ++ (Tree.flattenAll vs ++ [⟨.opener d, e.start, e.start + 1⟩]),
      ⟨.closer d, e.stop - 1, e.stop⟩ :: (Tree.flattenAll ws ++ back), ?_, by simp⟩
    simp [hf, Group.toTree]

/-- The atoms of trees start with a mark exactly if the trees do, if what comes behind them starts
with a closing bracket. -/
theorem markAt_flattenAll {back : List PlacedAtom}
    (hb : ∀ x ∈ back.head?, ∃ d, x.atom = .closer d) :
    PlacedAtom.MarkAt n (Tree.flattenAll us ++ back) ↔ MarkAt n us := by
  cases us with
  | nil =>
    simp only [flattenAll_nil, List.nil_append, MarkAt, List.head?_nil]
    constructor
    · rintro ⟨x, hx, ⟨mark, joint, hm⟩, -⟩
      obtain ⟨d, hd⟩ := hb x hx
      simp [hm] at hd
    · simp
  | cons t us =>
    cases t with
    | group e d inner close => simp [PlacedAtom.MarkAt, MarkAt, Punct.toTree]
    | leaf e l =>
      constructor
      · rintro ⟨x, hx, ⟨mark, joint, hm⟩, hn⟩
        obtain rfl : ⟨.leaf l, e.start, e.stop⟩ = x := by simpa using hx
        cases hm
        exact ⟨⟨e, mark, joint⟩, rfl, hn⟩
      · rintro ⟨⟨e, mark, joint⟩, hp, hn⟩
        cases hp
        exact ⟨⟨.leaf (.punct mark joint), e.start, e.stop⟩, by simp, ⟨mark, joint, rfl⟩, hn⟩

/-- At any depth, a mark is joint exactly if the next sibling is a mark that touches it. -/
theorem joint_iff_of_read (h : read label source = .ok ts) (hu : Siblings ts us) {p : Punct}
    (hp : us = vs ++ p.toTree :: ws) : p.joint = true ↔ MarkAt p.extent.stop ws := by
  obtain ⟨tokens, hs⟩ := exists_scan_of_read h
  obtain ⟨front, back, hf, hb⟩ := hu.flattenAll
  have hx : Token.atoms tokens = front ++ Tree.flattenAll vs ++
      ⟨.leaf (.punct p.mark p.joint), p.extent.start, p.extent.stop⟩ ::
        (Tree.flattenAll ws ++ back) := by
    rw [← flattenAll_of_read hs h, hf, hp]
    simp [Punct.toTree]
  rw [Token.joint_iff_of_atoms hx, markAt_flattenAll hb]

/-- A given mark among siblings is joint exactly if the next of them is a mark that touches it. -/
theorem isJointMark_iff_of_read (h : read label source = .ok ts) (hu : Siblings ts us)
    {mark : String} {t : Tree} (hs : us = vs ++ t :: ws) (ht : t.isMark mark = true) :
    t.isJointMark mark = true ↔ MarkAt t.stop ws := by
  obtain ⟨p, rfl, hp⟩ := isMark_iff.1 ht
  rw [isJointMark_toTree hp]
  exact joint_iff_of_read h hu hs

end Tree

/-! ## Reading -/

namespace Tree

open AngleRun (Passes dashBehind)
open Parse (PathRun)

variable {label : Option String} {source : String} {ts us run rest : List Tree} {t : Tree}

/-- A tree that touches a `-` which is the last of the trees that have been read. -/
def TouchesDash (run : List Tree) (t : Tree) : Prop :=
  ∃ u ∈ run.getLast?, u.isMark "-" = true ∧ u.stop = t.start

/-- Siblings among which jointness is local, wherever a type or a path is read from. -/
structure JointlyLocal (us : List Tree) : Prop where
  /-- A mark is joint exactly if the next sibling is a mark that touches it. -/
  joint_iff : ∀ vs (p : Punct) ws, us = vs ++ p.toTree :: ws →
    (p.joint = true ↔ MarkAt p.extent.stop ws)
  /-- When the reading of a type comes to a `>`, it skips that exactly if the tree which it has read
  before is a `-` that touches it.  Any other `>` closes a bracket, and is refused if none is
  open. -/
  arrow_iff : ∀ (c : Cursor) run t rest, c.rest <:+ us → c.rest = run ++ t :: rest →
    run <+: (AngleRun.ofTrees 0 false c.rest).run → t.isMark ">" = true →
      ∃ depth, Passes run depth ∧ (Passes (run ++ [t]) depth ↔ TouchesDash run t) ∧
        (¬ TouchesDash run t →
          (∀ e, depth = e + 1 → Passes (run ++ [t]) e) ∧
            (depth = 0 →
              Parse.fieldType c = (.error (.at t.span .unbalancedAngle), c.skip run.length)))
  /-- When the reading of a path comes to a `:`, it goes on past that exactly if the next sibling is
  a mark that touches it.  Otherwise the path ends there. -/
  past_iff : ∀ (c : Cursor) first more (d : Cursor) t rest, c.rest <:+ us →
    PathRun c first more d → d.rest = t :: rest → t.isMark ":" = true →
      (d.pos < (Parse.path c).2.pos ↔ MarkAt t.stop rest) ∧
        (¬ MarkAt t.stop rest →
          Parse.path c = (.ok ("::".intercalate (first.text :: more.map Ident.text), first), d))

theorem markAt_cons_iff {n : Nat} (ht : t.isMark ">" = true) :
    MarkAt n (t :: rest) ↔ n = t.start := by
  obtain ⟨p, rfl, -⟩ := isMark_iff.1 ht
  constructor
  · rintro ⟨q, hq, rfl⟩
    have hq : p.toTree = q.toTree := by simpa using hq
    exact (congrArg Tree.start hq).symm
  · rintro rfl
    exact ⟨p, rfl, rfl⟩

/-- A joint `-` that was read before a `>` is one that touches it. -/
theorem dashBehind_iff_of_read (h : read label source = .ok ts) (hu : Siblings ts us)
    (hs : run ++ t :: rest <:+ us) (ht : t.isMark ">" = true) :
    dashBehind run = true ↔ TouchesDash run t := by
  rcases List.eq_nil_or_concat' run with rfl | ⟨run, u, rfl⟩
  · simp [dashBehind, TouchesDash]
  · obtain ⟨front, rfl⟩ := hs
    have hv : front ++ (run ++ [u] ++ t :: rest) = (front ++ run) ++ u :: (t :: rest) := by simp
    have hj (hm : u.isMark "-" = true) : u.isJointMark "-" = true ↔ u.stop = t.start := by
      rw [← markAt_cons_iff ht, isJointMark_iff_of_read h hu hv hm]
    rw [dashBehind, List.getLast?_concat, Option.any_some]
    constructor
    · intro hd
      have hm := isMark_of_isJointMark hd
      exact ⟨u, List.getLast?_concat, hm, (hj hm).1 hd⟩
    · rintro ⟨v, hv, hm, hs⟩
      obtain rfl : u = v := by simpa using hv
      exact (hj hm).2 hs

/-- Among the siblings of a text that is read into trees, jointness is local: a mark is joint
exactly if the next sibling is a mark that touches it.  So a type skips a `>` exactly behind a `-`
that touches it and that belongs to the type, and a path goes on past a `:` exactly if a mark
touches that. -/
theorem local_of_read (h : read label source = .ok ts) (hu : Siblings ts us) : JointlyLocal us := by
  refine ⟨fun _ _ _ hp ↦ joint_iff_of_read h hu hp, ?_, ?_⟩
  · intro c run t rest hc hs hr ht
    have hd : dashBehind run = true ↔ TouchesDash run t :=
      dashBehind_iff_of_read h hu (hs ▸ hc) ht
    obtain ⟨depth, hp⟩ := AngleRun.exists_passes hr
    refine ⟨depth, hp, (hp.skips_iff ht).trans hd, fun hn ↦ ?_⟩
    have hn : dashBehind run = false := Bool.eq_false_iff.2 fun hj ↦ hn (hd.1 hj)
    refine ⟨?_, ?_⟩
    · rintro e rfl
      exact hp.closes ht hn
    · rintro rfl
      exact Parse.fieldType_of_unbalanced hp hs ht hn
  · intro c first more d t rest hc hp hd ht
    obtain ⟨front, hf⟩ := hp.suffix.trans hc
    have hj : t.isJointMark ":" = true ↔ MarkAt t.stop rest :=
      isJointMark_iff_of_read h hu (hd ▸ hf).symm ht
    rw [Parse.path_of_run hp]
    refine ⟨(Parse.pos_lt_pathFrom_iff hd).trans hj, fun hn ↦ ?_⟩
    have hn : t.isJointMark ":" = false := Bool.eq_false_iff.2 fun hm ↦ hn (hj.1 hm)
    exact Parse.pathFrom_of_not_joint (by simp [hd, hn])

/-- Marks in a group, of which some touch the next one and others have white space, a comment or a
bracket behind them. -/
theorem local_of_read_spaced :
    ∃ (ts : List Tree) (g : Group),
      read none "\x7bf: fn() -> a::b - > c, #/*::*/:\x7d" = .ok ts ∧ g.toTree ∈ ts ∧
      (g.trees.filterMap punct?).map (fun p ↦ (p.mark, p.joint)) =
        [(":", false), ("-", true), (">", false), (":", true), (":", false), ("-", false),
          (">", false), (",", false), ("#", false), (":", false)] ∧
        Siblings ts g.trees ∧ JointlyLocal g.trees := by
  have h : (read none "\x7bf: fn() -> a::b - > c, #/*::*/:\x7d").toOption.map
      (fun ts ↦ (ts.head?.bind group?).map fun g ↦
        (g.trees.filterMap punct?).map fun p ↦ (p.mark, p.joint)) =
      some (some [(":", false), ("-", true), (">", false), (":", true), (":", false), ("-", false),
        (">", false), (",", false), ("#", false), (":", false)]) := by
    decide +kernel
  obtain ⟨ts, hr, hg⟩ := Option.map_eq_some_iff.1 h
  obtain ⟨g, hg, hp⟩ := Option.map_eq_some_iff.1 hg
  obtain ⟨t, ht, hg⟩ := Option.bind_eq_some_iff.1 hg
  obtain rfl := group?_eq_some_iff.1 hg
  have hr := Except.toOption_eq_some_iff.1 hr
  have hm := List.mem_of_mem_head? ht
  have hu : Siblings ts g.trees := .inside .outermost hm
  exact ⟨ts, g, hr, hm, hp, hu, local_of_read hr hu⟩

end Tree

end ErrorDerive
