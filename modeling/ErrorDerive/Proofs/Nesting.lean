import ErrorDerive.Proofs.Lexing.Run
import ErrorDerive.Tree.Folding

/-!
# Nesting

Which texts fold into trees, and what the trees hold.  `nest` follows the brackets of a run of
lexemes with a stack of the open ones; a text folds exactly if it is made of lexemes whose brackets
come out even (`read_ok_iff`), and then the leaves of the trees are the leaves among the lexemes, in
order.
-/

namespace ErrorDerive

/-! ## Brackets -/

/-- The open brackets behind a lexeme of a class, the innermost first, given those before it; none
if the lexeme closes another bracket than the innermost. -/
def LexemeKind.nest (opened : List Delimiter) : LexemeKind → Option (List Delimiter)
  | .token (.opener d) => some (d :: opened)
  | .token (.closer d) => if opened.head? = some d then some opened.tail else none
  | _ => some opened

theorem LexemeKind.nest_closer_eq_some_iff {opened o : List Delimiter} {d : Delimiter} :
    LexemeKind.nest opened (.token (.closer d)) = some o ↔ opened = d :: o := by
  cases opened with
  | nil => simp [LexemeKind.nest]
  | cons e opened =>
    simp only [LexemeKind.nest, List.head?_cons, Option.some.injEq, List.tail_cons,
      Option.ite_none_right_eq_some, List.cons.injEq]

namespace Lexeme

open LexemeKind (nest_closer_eq_some_iff)

/-- The open brackets behind a run of lexemes, given those before it. -/
def nest (opened : List Delimiter) : List Lexeme → Option (List Delimiter)
  | [] => some opened
  | l :: ls => (l.kind.nest opened).bind fun o ↦ nest o ls

/-- Lexemes whose brackets come out even. -/
def Nested (ls : List Lexeme) : Prop := nest [] ls = some []

instance (ls : List Lexeme) : Decidable (Nested ls) :=
  inferInstanceAs (Decidable (nest [] ls = some []))

theorem nest_append (opened : List Delimiter) (ls ms : List Lexeme) :
    nest opened (ls ++ ms) = (nest opened ls).bind fun o ↦ nest o ms := by
  induction ls generalizing opened with
  | nil => rfl
  | cons l ls ih =>
    simp only [List.cons_append, nest]
    cases l.kind.nest opened with
    | none => rfl
    | some o => exact ih o

/-- Brackets that are open around a run do not matter to it. -/
theorem nest_outside {opened o : List Delimiter} {ls : List Lexeme} (h : nest opened ls = some o)
    (outside : List Delimiter) : nest (opened ++ outside) ls = some (o ++ outside) := by
  induction ls generalizing opened with
  | nil => cases h; rfl
  | cons l ls ih =>
    obtain ⟨k, text⟩ := l
    obtain ⟨p, hp, h⟩ := Option.bind_eq_some_iff.1 h
    refine Option.bind_eq_some_iff.2 ⟨p ++ outside, ?_, ih h⟩
    match k with
    | .trivia _ => cases hp; rfl
    | .token (.leaf _) => cases hp; rfl
    | .token (.opener d) => cases hp; rfl
    | .token (.closer d) =>
      rw [nest_closer_eq_some_iff] at hp ⊢
      rw [hp, List.cons_append]

/-- A run of lexemes opens as many brackets more than it closes wherever it stands. -/
theorem length_nest {opened opened' o o' : List Delimiter} {ls : List Lexeme}
    (h : nest opened ls = some o) (h' : nest opened' ls = some o') :
    opened.length + o'.length = opened'.length + o.length := by
  induction ls generalizing opened opened' with
  | nil =>
    cases h
    cases h'
    exact Nat.add_comm _ _
  | cons l ls ih =>
    obtain ⟨k, text⟩ := l
    obtain ⟨p, hp, h⟩ := Option.bind_eq_some_iff.1 h
    obtain ⟨p', hp', h'⟩ := Option.bind_eq_some_iff.1 h'
    have hi := ih h h'
    match k with
    | .trivia _ =>
      cases hp
      cases hp'
      exact hi
    | .token (.leaf _) =>
      cases hp
      cases hp'
      exact hi
    | .token (.opener d) =>
      cases hp
      cases hp'
      simp only [List.length_cons] at hi
      omega
    | .token (.closer d) =>
      rw [nest_closer_eq_some_iff.1 hp, nest_closer_eq_some_iff.1 hp', List.length_cons,
        List.length_cons]
      omega

theorem Nested.nest {ls : List Lexeme} (h : Nested ls) (opened : List Delimiter) :
    nest opened ls = some opened := by simpa using nest_outside h opened

theorem Nested.append {ls ms : List Lexeme} (hl : Nested ls) (hm : Nested ms) :
    Nested (ls ++ ms) := by
  rw [Nested, nest_append, hl]
  exact hm

end Lexeme

/-! ## Trees -/

namespace Tree

/-- Tokens fold exactly if they close the brackets that are open and all that they open. -/
theorem exists_fold_ok_iff (label : Option String) (p : Place) (ls : List Lexeme)
    (fs : List Frame) (done : List Tree) :
    (∃ ts, fold label fs done (Token.place label p ls) = .ok ts) ↔
      Lexeme.nest (fs.map Frame.delimiter) ls = some [] := by
  induction ls generalizing p fs done with
  | nil => cases fs <;> simp [Token.place, fold, Lexeme.nest]
  | cons l ls ih =>
    obtain ⟨k, text⟩ := l
    match k with
    | .trivia _ => simpa [Token.place, Lexeme.nest, LexemeKind.nest] using ih _ fs done
    | .token (.leaf _) => simpa [Token.place, fold, Lexeme.nest, LexemeKind.nest] using ih _ fs _
    | .token (.opener d) =>
      simpa [Token.place, fold, Lexeme.nest, LexemeKind.nest] using ih _ (⟨d, _, done⟩ :: fs) []
    | .token (.closer d) =>
      rw [Token.place, fold.eq_def]
      cases fs with
      | nil => simp [Lexeme.nest, LexemeKind.nest]
      | cons f fs =>
        by_cases hd : d = f.delimiter
        · subst hd
          simpa [Lexeme.nest, LexemeKind.nest] using ih _ fs _
        · simp [Lexeme.nest, LexemeKind.nest, hd, Ne.symm hd]

/-- A text folds into trees exactly if all of it is lexemes, with brackets that come out even. -/
theorem read_ok_iff {label : Option String} {source : String} :
    (∃ ts, read label source = .ok ts) ↔
      ∃ ls, Lexeme.split source.toList = (ls, []) ∧ Lexeme.Nested ls := by
  unfold read Token.scan
  rcases hs : Lexeme.split source.toList with ⟨ls, _ | ⟨c, cs⟩⟩
  · simpa [Lexeme.Nested] using exists_fold_ok_iff label .origin ls [] []
  · simp

/-! ## Leaves -/

mutual

/-- The leaves of a tree, from left to right. -/
def leaves : Tree → List Tree
  | .leaf e l => [.leaf e l]
  | .group _ _ ts _ => leavesAll ts

/-- The leaves of trees, from left to right. -/
def leavesAll : List Tree → List Tree
  | [] => []
  | t :: ts => leaves t ++ leavesAll ts

end

/-- The literals in trees at any depth, from left to right. -/
def literals (ts : List Tree) : List Lit := (leavesAll ts).filterMap lit?

@[simp] theorem leavesAll_nil : leavesAll [] = [] := by rw [leavesAll]

@[simp] theorem leavesAll_cons (t : Tree) (ts : List Tree) :
    leavesAll (t :: ts) = leaves t ++ leavesAll ts := by rw [leavesAll]

@[simp] theorem leaves_leaf (e : Extent) (l : Leaf) :
    leaves (.leaf e l) = [.leaf e l] := by rw [leaves]

@[simp] theorem leaves_group (e : Extent) (d : Delimiter) (ts : List Tree) (c : Extent) :
    leaves (.group e d ts c) = leavesAll ts := by rw [leaves]

@[simp] theorem leavesAll_append (ts us : List Tree) :
    leavesAll (ts ++ us) = leavesAll ts ++ leavesAll us := by
  induction ts with
  | nil => simp
  | cons t ts ih => simp [ih]

theorem leaves_subset_leavesAll {t : Tree} {ts : List Tree} (h : t ∈ ts) :
    leaves t ⊆ leavesAll ts := by
  obtain ⟨front, back, rfl⟩ := List.append_of_mem h
  intro x hx
  simp [hx]

end Tree

/-- The leaves among tokens. -/
def Token.leaves : List Token → List Tree
  | [] => []
  | t :: ts =>
    match t.kind with
    | .leaf k =>
      .leaf t.extent (Leaf.ofLexeme t.text (Token.markAt t.extent.stop ts) k) :: Token.leaves ts
    | _ => Token.leaves ts

namespace Tree

/-- The leaves of trees that stand before the open groups. -/
def pending (fs : List Frame) : List Tree := fs.reverse.flatMap fun f ↦ leavesAll f.before.reverse

/-- Folding keeps all leaves, in order. -/
theorem leavesAll_of_fold {label : Option String} {fs : List Frame} {done ts : List Tree}
    {tokens : List Token} (h : fold label fs done tokens = .ok ts) :
    leavesAll ts = pending fs ++ leavesAll done.reverse ++ Token.leaves tokens := by
  induction tokens generalizing fs done with
  | nil =>
    cases fs with
    | nil => cases h; simp [pending, Token.leaves]
    | cons f fs => cases h
  | cons t tokens ih =>
    rw [fold.eq_def] at h
    rcases hk : t.kind with k | d | d
    · simp only [hk] at h
      rw [ih h]
      simp [Token.leaves, hk]
    · simp only [hk] at h
      rw [ih h]
      simp [Token.leaves, hk, pending]
    · simp only [hk] at h
      cases fs with
      | nil => cases h
      | cons f fs =>
        simp only at h
        split at h
        · rw [ih h]
          simp [Token.leaves, hk, pending]
        · cases h

/-- The leaves of the trees of a text are those among its tokens. -/
theorem leavesAll_of_read {label : Option String} {source : String} {ts : List Tree}
    (h : read label source = .ok ts) :
    leavesAll ts =
      Token.leaves (Token.place label .origin (Lexeme.split source.toList).1) := by
  unfold read Token.scan at h
  rcases hs : Lexeme.split source.toList with ⟨ls, _ | ⟨c, cs⟩⟩
  · rw [hs] at h
    simpa [pending] using leavesAll_of_fold h
  · rw [hs] at h
    cases h

end Tree

/-- The kind and the text of a literal. -/
def Lexeme.literal? : Lexeme → Option (LiteralKind × String)
  | ⟨.token (.leaf (.literal k)), text⟩ => some (k, String.ofList text)
  | _ => none

/-- The literals among the leaves of tokens are those among the lexemes. -/
theorem Token.literals_place (label : Option String) (p : Place) (ls : List Lexeme) :
    ((Token.leaves (Token.place label p ls)).filterMap Tree.lit?).map (fun l ↦ (l.kind, l.text)) =
      ls.filterMap Lexeme.literal? := by
  induction ls generalizing p with
  | nil => rfl
  | cons l ls ih =>
    obtain ⟨k, text⟩ := l
    match k with
    | .trivia _ => simpa [Token.place, Lexeme.literal?, List.filterMap_cons] using ih _
    | .token (.opener d) =>
      simpa [Token.place, Token.leaves, Lexeme.literal?, List.filterMap_cons] using ih _
    | .token (.closer d) =>
      simpa [Token.place, Token.leaves, Lexeme.literal?, List.filterMap_cons] using ih _
    | .token (.leaf (.literal _)) =>
      simpa [Token.place, Token.leaves, Lexeme.literal?, Leaf.ofLexeme, Tree.lit?,
        List.filterMap_cons] using ih _
    | .token (.leaf .doc) =>
      simpa [Token.place, Token.leaves, Lexeme.literal?, Leaf.ofLexeme, Tree.lit?,
        List.filterMap_cons] using ih _
    | .token (.leaf .lifetime) =>
      simpa [Token.place, Token.leaves, Lexeme.literal?, Leaf.ofLexeme, Tree.lit?,
        List.filterMap_cons] using ih _
    | .token (.leaf .ident) =>
      simpa [Token.place, Token.leaves, Lexeme.literal?, Leaf.ofLexeme, Tree.lit?,
        List.filterMap_cons] using ih _
    | .token (.leaf .punct) =>
      simpa [Token.place, Token.leaves, Lexeme.literal?, Leaf.ofLexeme, Tree.lit?,
        List.filterMap_cons] using ih _

/-- The literals in the trees of a text are those among its lexemes. -/
theorem Tree.literals_of_read {label : Option String} {source : String} {ts : List Tree}
    (h : Tree.read label source = .ok ts) :
    (Tree.literals ts).map (fun l ↦ (l.kind, l.text)) =
      (Lexeme.split source.toList).1.filterMap Lexeme.literal? := by
  rw [Tree.literals, Tree.leavesAll_of_read h, Token.literals_place]

end ErrorDerive
