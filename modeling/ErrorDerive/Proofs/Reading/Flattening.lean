import ErrorDerive.Proofs.Reading.Brackets
import ErrorDerive.Proofs.Reading.Tokens

/-!
# Trees and their tokens

Flattening trees gives back the tokens they were folded from, each at its offsets
(`flattenAll_of_fold`).  So the trees of a text lie in it as its tokens do (`Tree.Lies`): leaves have
the text that they occupy, and groups reach from one bracket to the other around what they hold.
-/

namespace ErrorDerive

/-- What a token is in trees: a leaf, or a bracket of a group. -/
inductive Atom
  | leaf (leaf : Leaf)
  | opener (delimiter : Delimiter)
  | closer (delimiter : Delimiter)
deriving DecidableEq, Repr

/-- An atom and the offsets that it lies between. -/
structure PlacedAtom where
  atom : Atom
  start : Nat
  stop : Nat
deriving DecidableEq, Repr

/-- A token of a kind as an atom, given whether a mark touches it. -/
def TokenKind.atom (text : String) (joint : Bool) : TokenKind → Atom
  | .leaf k => .leaf (.ofLexeme text joint k)
  | .opener d => .opener d
  | .closer d => .closer d

namespace Token

/-- Tokens as atoms. -/
def atoms : List Token → List PlacedAtom
  | [] => []
  | t :: ts => ⟨t.kind.atom t.text (markAt t.stop ts), t.start, t.stop⟩ :: atoms ts

end Token

namespace Tree

mutual

/-- The atoms of a tree, from left to right. -/
def flatten : Tree → List PlacedAtom
  | .leaf e l => [⟨.leaf l, e.start, e.stop⟩]
  | .group e d ts _ =>
    ⟨.opener d, e.start, e.start + 1⟩ :: (flattenAll ts ++ [⟨.closer d, e.stop - 1, e.stop⟩])

/-- The atoms of trees, from left to right. -/
def flattenAll : List Tree → List PlacedAtom
  | [] => []
  | t :: ts => flatten t ++ flattenAll ts

end

@[simp] theorem flattenAll_nil : flattenAll [] = [] := by rw [flattenAll]

@[simp] theorem flattenAll_cons (t : Tree) (ts : List Tree) :
    flattenAll (t :: ts) = flatten t ++ flattenAll ts := by rw [flattenAll]

@[simp] theorem flatten_leaf (e : Extent) (l : Leaf) :
    flatten (.leaf e l) = [⟨.leaf l, e.start, e.stop⟩] := by rw [flatten]

@[simp] theorem flatten_group (e : Extent) (d : Delimiter) (ts : List Tree) (c : Extent) :
    flatten (.group e d ts c) =
      ⟨.opener d, e.start, e.start + 1⟩ ::
        (flattenAll ts ++ [⟨.closer d, e.stop - 1, e.stop⟩]) := by rw [flatten]

@[simp] theorem flattenAll_append (ts us : List Tree) :
    flattenAll (ts ++ us) = flattenAll ts ++ flattenAll us := by
  induction ts with
  | nil => simp
  | cons t ts ih => simp [ih]

/-! ## Nothing is lost -/

/-- The atoms of an open group and of the trees before it. -/
def openAtoms (f : Frame) : List PlacedAtom :=
  flattenAll f.before.reverse ++ [⟨.opener f.delimiter, f.opening.start, f.opening.start + 1⟩]

/-- The atoms before the innermost open group, and its bracket. -/
def pendingAtoms (fs : List Frame) : List PlacedAtom := fs.reverse.flatMap openAtoms

theorem pendingAtoms_cons (f : Frame) (fs : List Frame) :
    pendingAtoms (f :: fs) = pendingAtoms fs ++ openAtoms f := by
  simp [pendingAtoms]

/-- Tokens whose brackets take up one character each. -/
def Slim (tokens : List Token) : Prop :=
  ∀ t ∈ tokens, (∀ k, t.kind ≠ .leaf k) → t.stop = t.start + 1

/-- What has been read and what is left are always the same atoms together. -/
theorem flattenAll_of_fold {label : Option String} {fs : List Frame} {done ts : List Tree}
    {tokens : List Token} (hs : Slim tokens) (h : fold label fs done tokens = .ok ts) :
    flattenAll ts = pendingAtoms fs ++ flattenAll done.reverse ++ Token.atoms tokens := by
  induction tokens generalizing fs done with
  | nil =>
    cases fs with
    | nil => cases h; simp [pendingAtoms, Token.atoms]
    | cons f fs => cases h
  | cons t tokens ih =>
    obtain ⟨ht, hs⟩ := List.forall_mem_cons.1 hs
    have ih {fs : List Frame} {done : List Tree} (h : fold label fs done tokens = .ok ts) :
        flattenAll ts = pendingAtoms fs ++ flattenAll done.reverse ++ Token.atoms tokens := ih hs h
    rw [Token.atoms]
    cases hk : t.kind with
    | leaf k =>
      rw [fold_leaf hk] at h
      rw [ih h]
      simp [Token.start, Token.stop, TokenKind.atom]
    | opener d =>
      rw [fold_opener hk] at h
      have hw : t.stop = t.start + 1 := ht (by simp [hk])
      rw [ih h, pendingAtoms_cons, hw]
      simp [openAtoms, Token.start, TokenKind.atom]
    | closer d =>
      cases fs with
      | nil =>
        rw [fold_stray hk] at h
        cases h
      | cons f fs =>
        by_cases hd : d = f.delimiter
        · subst hd
          rw [fold_closer hk] at h
          have hw : t.extent.past.offset = t.extent.first.offset + 1 := ht (by simp [hk])
          rw [ih h, pendingAtoms_cons]
          simp [openAtoms, Token.start, Token.stop, Extent.start, Extent.stop, hw, TokenKind.atom]
        · rw [fold_mismatched hk hd] at h
          cases h

end Tree

namespace Token

theorem Laid.le_length {source : List Char} {offset : Nat} {tokens : List Token}
    (h : Laid source offset tokens) : offset ≤ source.length := by
  induction tokens generalizing offset with
  | nil => exact h.1
  | cons t tokens ih =>
    obtain ⟨⟨ho, -⟩, ⟨hl, -⟩, ht⟩ := h
    have := ih ht
    omega

/-- Brackets that are laid out in a text take up one character each. -/
theorem Laid.slim {source : List Char} {offset : Nat} {tokens : List Token}
    (h : Laid source offset tokens) (hb : ∀ t ∈ tokens, t.SpellsBracket) : Tree.Slim tokens := by
  induction tokens generalizing offset with
  | nil => intro t ht; cases ht
  | cons t tokens ih =>
    obtain ⟨-, ⟨hl, ht⟩, h⟩ := h
    obtain ⟨hb, hs⟩ := List.forall_mem_cons.1 hb
    refine List.forall_mem_cons.2 ⟨fun hk ↦ ?_, ih h hs⟩
    have hw : t.text.toList.length = 1 := by
      cases hd : t.kind with
      | leaf k => exact absurd hd (hk k)
      | opener d => rw [(hb d).1 hd, List.length_singleton]
      | closer d => rw [(hb d).2 hd, List.length_singleton]
    have hn := h.le_length
    rw [ht, stretch, List.length_take, List.length_drop] at hw
    omega

end Token

/-! ## Where trees lie -/

/-- A leaf that a text stands for.  Documentation keeps its lines only, any other leaf all of it. -/
def Leaf.Spells (text : List Char) : Leaf → Prop
  | .doc t => t.toList = docText text
  | l => l.render.toList = text

def Atom.Spells (text : List Char) : Atom → Prop
  | .leaf l => l.Spells text
  | .opener d => text = [d.opener]
  | .closer d => text = [d.closer]

/-- An atom that lies in a text. -/
def PlacedAtom.Lies (source : List Char) (x : PlacedAtom) : Prop :=
  x.start < x.stop ∧ x.atom.Spells (stretch source x.start x.stop)

namespace Tree

mutual

/-- A tree that lies in a text: a leaf has the text that it occupies, and a group reaches from its
opening bracket to just past its closing one, with its trees strictly inside. -/
def Lies (source : List Char) : Tree → Prop
  | .leaf e l => e.start < e.stop ∧ l.Spells (stretch source e.start e.stop)
  | .group e d ts _ =>
    stretch source e.start (e.start + 1) = [d.opener] ∧
      stretch source (e.stop - 1) e.stop = [d.closer] ∧ e.start + 2 ≤ e.stop ∧
        (∀ t ∈ ts, e.start < t.start ∧ t.stop < e.stop) ∧ LieAll source ts

/-- Siblings that lie in a text, one after the other. -/
def LieAll (source : List Char) : List Tree → Prop
  | [] => True
  | t :: ts => Lies source t ∧ (∀ u ∈ ts, t.stop ≤ u.start) ∧ LieAll source ts

end

theorem exists_start (t : Tree) : ∃ x ∈ t.flatten, x.start = t.start := by
  cases t with
  | leaf e l => exact ⟨⟨.leaf l, e.start, e.stop⟩, by simp, rfl⟩
  | group e d ts c => exact ⟨⟨.opener d, e.start, e.start + 1⟩, by simp, rfl⟩

theorem exists_stop (t : Tree) : ∃ x ∈ t.flatten, x.stop = t.stop := by
  cases t with
  | leaf e l => exact ⟨⟨.leaf l, e.start, e.stop⟩, by simp, rfl⟩
  | group e d ts c => exact ⟨⟨.closer d, e.stop - 1, e.stop⟩, by simp, rfl⟩

theorem flatten_subset_flattenAll {t : Tree} {ts : List Tree} (h : t ∈ ts) :
    t.flatten ⊆ flattenAll ts := by
  obtain ⟨front, back, rfl⟩ := List.append_of_mem h
  intro x hx
  simp [hx]

/-- Atoms in order. -/
def Ordered (xs : List PlacedAtom) : Prop := xs.Pairwise fun x y ↦ x.stop ≤ y.start

variable {source : List Char}

mutual

theorem lies_of_flatten (t : Tree) (ho : Ordered t.flatten) (hl : ∀ x ∈ t.flatten, x.Lies source) :
    t.Lies source := by
  cases t with
  | leaf e l => exact hl ⟨.leaf l, e.start, e.stop⟩ (by simp)
  | group e d ts c =>
    rw [flatten_group] at ho hl
    obtain ⟨hopen, hrest⟩ := List.pairwise_cons.1 ho
    obtain ⟨hts, -, hclose⟩ := List.pairwise_append.1 hrest
    obtain ⟨ho₁, hl⟩ := List.forall_mem_cons.1 hl
    obtain ⟨hl, hl'⟩ := List.forall_mem_append.1 hl
    obtain ⟨hc₁, hc₂⟩ := hl' ⟨.closer d, e.stop - 1, e.stop⟩ (by simp)
    have hw : e.start + 1 ≤ e.stop - 1 := hopen ⟨.closer d, e.stop - 1, e.stop⟩ (by simp)
    refine ⟨ho₁.2, hc₂, ?_, fun t ht ↦ ?_, lieAll_of_flattenAll ts hts hl⟩
    · simp only at hc₁
      omega
    · obtain ⟨x, hx, hs⟩ := exists_start t
      obtain ⟨y, hy, hp⟩ := exists_stop t
      have h₁ := hopen x (by simp [flatten_subset_flattenAll ht hx])
      have h₂ := hclose y (flatten_subset_flattenAll ht hy) _ (List.mem_singleton_self _)
      simp only at h₁ h₂
      omega

theorem lieAll_of_flattenAll (ts : List Tree) (ho : Ordered (flattenAll ts))
    (hl : ∀ x ∈ flattenAll ts, x.Lies source) : LieAll source ts := by
  cases ts with
  | nil => trivial
  | cons t ts =>
    rw [flattenAll_cons] at ho hl
    obtain ⟨ht, hts, hb⟩ := List.pairwise_append.1 ho
    obtain ⟨hl, hl'⟩ := List.forall_mem_append.1 hl
    refine ⟨lies_of_flatten t ht hl, fun u hu ↦ ?_, lieAll_of_flattenAll ts hts hl'⟩
    obtain ⟨x, hx, hs⟩ := exists_start u
    obtain ⟨y, hy, hp⟩ := exists_stop t
    rw [← hs, ← hp]
    exact hb y hy x (flatten_subset_flattenAll hu hx)

end

end Tree

/-! ## Atoms of laid tokens -/

namespace Token

variable {source : List Char} {offset : Nat} {tokens : List Token}

theorem Laid.le_start (h : Laid source offset tokens) : ∀ x ∈ atoms tokens, offset ≤ x.start := by
  induction tokens generalizing offset with
  | nil => intro x hx; cases hx
  | cons t tokens ih =>
    obtain ⟨⟨ho, -⟩, ⟨hl, -⟩, h⟩ := h
    refine List.forall_mem_cons.2 ⟨ho, fun x hx ↦ ?_⟩
    have := ih h x hx
    omega

theorem Laid.ordered (h : Laid source offset tokens) : Tree.Ordered (atoms tokens) := by
  induction tokens generalizing offset with
  | nil => exact .nil
  | cons t tokens ih => exact .cons h.2.2.le_start (ih h.2.2)

/-- The text of a token spells its atom. -/
theorem spells_atom {t : Token} (hb : t.SpellsBracket) (joint : Bool) :
    (t.kind.atom t.text joint).Spells t.text.toList := by
  cases hk : t.kind with
  | leaf k =>
    cases k with
    | doc => exact String.toList_ofList
    | literal k => rfl
    | lifetime => rfl
    | ident => rfl
    | punct => rfl
  | opener d => exact (hb d).1 hk
  | closer d => exact (hb d).2 hk

theorem Laid.lies (h : Laid source offset tokens) (hb : ∀ t ∈ tokens, t.SpellsBracket) :
    ∀ x ∈ atoms tokens, x.Lies source := by
  induction tokens generalizing offset with
  | nil => intro x hx; cases hx
  | cons t tokens ih =>
    obtain ⟨-, ⟨hl, ht⟩, h⟩ := h
    obtain ⟨hb, hs⟩ := List.forall_mem_cons.1 hb
    refine List.forall_mem_cons.2 ⟨⟨hl, ?_⟩, ih h hs⟩
    rw [← ht]
    exact spells_atom hb _

end Token

end ErrorDerive
