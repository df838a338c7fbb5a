import ErrorDerive.Cursor.FieldType
import ErrorDerive.Proofs.Integrity
import ErrorDerive.Proofs.Printing.Phrase

/-!
# Plain types as phrases

A plain type is a phrase whose outlines open and close angle brackets evenly and show its text
(`Phrase.type`).  Where such outlines are those of trees in front of a comma or the end, the trees
are read as a type with that text (`Parse.fieldType_of_spells`).
-/

namespace ErrorDerive

open MarkedAtom (write)

/-! ## Angle brackets -/

namespace Outline

/-- The depth of angle brackets behind a tree of a plain type, which is made of words, colons, commas
and angle brackets; none for any other tree, and for a comma or a bracket that ends the type. -/
def angle (depth : Nat) : Outline → Option Nat
  | .leaf _ (.ident _) => some depth
  | .leaf _ (.punct m _) =>
    if m = ":" then some depth
    else if m = "<" then some (depth + 1)
    else if m = ">" then
      match depth with
      | 0 => none
      | d + 1 => some d
    else if m = "," then if depth = 0 then none else some depth
    else none
  | _ => none

/-- The depth of angle brackets behind trees inside a type. -/
def angles (depth : Nat) (os : List Outline) : Option Nat := os.foldlM angle depth

theorem angles_append (depth : Nat) (os ps : List Outline) :
    angles depth (os ++ ps) = (angles depth os).bind fun d ↦ angles d ps := List.foldlM_append

@[simp] theorem angles_singleton (depth : Nat) (o : Outline) :
    angles depth [o] = angle depth o := by
  simp [angles]

end Outline

/-- Outlines that show a text, and behind which angle brackets are `j` deep if they were `i` deep
before, inside of any number of others. -/
structure Form.Spells (i j : Nat) (s : String) (os : List Outline) : Prop where
  depth : ∀ d, Outline.angles (d + i) os = some (d + j)
  text : ∃ o ps, os = o :: ps ∧ write (Outline.flatAll os) = spaceIf o.apart ++ s

namespace Form

open Outline (angles angles_append)

variable {i j k : Nat} {s t : String} {os : List Outline}

theorem Spells.append {y : Outline} {ys : List Outline} {apart : Bool} (h : Spells i j s os)
    (h' : Spells j k t (y :: ys)) (ha : y.apart = apart) :
    Spells i k (s ++ spaceIf apart ++ t) (os ++ y :: ys) := by
  obtain ⟨o, ps, rfl, ht⟩ := h.text
  obtain ⟨_, _, ⟨⟩, ht'⟩ := h'.text
  refine ⟨fun d ↦ ?_, o, ps ++ y :: ys, rfl, ?_⟩
  · rw [angles_append, h.depth d]
    exact h'.depth d
  · rw [Outline.flatAll_append, MarkedAtom.write_append, ht, ht', ha]
    simp only [String.append_assoc]

/-- Angle brackets that are open around outlines do not matter to them. -/
theorem Spells.inside (h : Spells i j s os) : Spells (i + 1) (j + 1) s os :=
  ⟨fun d ↦ by simpa only [Nat.add_assoc, Nat.add_comm 1] using h.depth (d + 1), h.text⟩

theorem spells_leaf {l : Leaf} {apart : Bool}
    (hd : ∀ d, (Outline.leaf apart l).angle (d + i) = some (d + j)) :
    Spells i j l.render [.leaf apart l] :=
  ⟨by simpa using hd, _, _, rfl, by simp [write, Atom.text, Outline.apart]⟩

end Form

namespace Phrase

open Form (Spells spells_leaf)

variable {a b c d : Edge} {i j k : Nat} {s t m : String}

theorem spells_append (h : Phrase a b (Spells i j s) s) (h' : Phrase c d (Spells j k t) t)
    (apart : Bool) (hm : apart = false → b.meets c = true) :
    Phrase a d (Spells i k (s ++ spaceIf apart ++ t)) (s ++ spaceIf apart ++ t) :=
  h.append h' apart hm fun _ _ _ hx hy ha ↦ hx.append hy ha

theorem spells_touching (h : Phrase a .solid (Spells i j s) s) (h' : Phrase c d (Spells j k t) t) :
    Phrase a d (Spells i k (s ++ t)) (s ++ t) := by
  simpa [spaceIf] using h.spells_append h' false fun _ ↦ rfl

theorem spells_inside (h : Phrase a b (Spells i j s) s) : Phrase a b (Spells (i + 1) (j + 1) s) s :=
  h.imp fun _ ho ↦ ho.inside

theorem spells_ident (h : Lexeme.isIdent s.toList = true) : Phrase .word .word (Spells i i s) s := by
  refine (ident h).imp ?_
  rintro os ⟨apart, rfl⟩
  exact spells_leaf (l := .ident s) fun d ↦ rfl

/-- A mark that takes angle brackets from one depth to another. -/
theorem spells_mark (h : Phrase a .solid (Form.mark m) m)
    (hd : ∀ apart joint d, (Outline.leaf apart (.punct m joint)).angle (d + i) = some (d + j)) :
    Phrase a .solid (Spells i j m) m := by
  refine h.imp ?_
  rintro os ⟨apart, joint, rfl⟩
  exact spells_leaf (l := .punct m joint) (hd apart joint)

/-- Phrases in a row, with a mark between them and perhaps a space behind it. -/
theorem spells_intercalate (hm : Phrase .solid .solid (Spells i i m) m) (apart : Bool)
    {ss : List String} (h : ∀ u ∈ s :: ss, Phrase .word .word (Spells i i u) u) :
    Phrase .word .word (Spells i i ((m ++ spaceIf apart).intercalate (s :: ss)))
      ((m ++ spaceIf apart).intercalate (s :: ss)) := by
  induction ss generalizing s with
  | nil => simpa using h s (by simp)
  | cons u ss ih =>
    have hr := ih fun v hv ↦ h v (List.mem_cons_of_mem s hv)
    have h₁ := (h s (by simp)).spells_append hm false fun _ ↦ rfl
    have h₂ := h₁.spells_append hr apart fun _ ↦ rfl
    simpa [String.intercalate_cons_cons, String.append_assoc, spaceIf] using h₂

theorem spells_colons : Phrase .solid .solid (Spells i i "::") "::" := by
  have h : Phrase .solid .solid (Spells i i ":") ":" :=
    spells_mark colon fun _ _ _ ↦ rfl
  exact h.spells_touching h

/-- Inside angle brackets a comma does not end the type. -/
theorem spells_comma : Phrase .solid .solid (Spells 1 1 ",") "," :=
  spells_mark comma fun _ _ _ ↦ rfl

theorem spells_path {n : String} {ns : List String}
    (h : ∀ m ∈ n :: ns, Lexeme.isIdent m.toList = true) :
    Phrase .word .word (Spells i i ("::".intercalate (n :: ns))) ("::".intercalate (n :: ns)) :=
  spells_intercalate spells_colons false fun m hm ↦ spells_ident (h m hm)

theorem spells_arguments {ss : List String}
    (h : ∀ u ∈ s :: ss, Phrase .word .word (Spells 0 0 u) u) :
    Phrase .solid .solid (Spells 0 0 ("<" ++ ", ".intercalate (s :: ss) ++ ">"))
      ("<" ++ ", ".intercalate (s :: ss) ++ ">") := by
  have ho : Phrase .solid .solid (Spells 0 1 "<") "<" :=
    spells_mark (mark (by decide) (by decide) (by decide) (by decide)) fun _ _ _ ↦ rfl
  have hc : Phrase .solid .solid (Spells 1 0 ">") ">" :=
    spells_mark (mark (by decide) (by decide) (by decide) (by decide)) fun _ _ _ ↦ rfl
  have hs := spells_intercalate spells_comma true fun u hu ↦ (h u hu).spells_inside
  simpa [spaceIf] using (ho.spells_touching hs).spells_append hc false fun _ ↦ rfl

/-- A plain type is a phrase that leaves angle brackets as they are. -/
theorem type (h : IsType t) : Phrase .word .word (Spells 0 0 t) t := by
  induction h with
  | path h => exact spells_path h
  | applied h _ ih =>
    have hp := (spells_path h).spells_append (spells_arguments ih) false fun _ ↦ rfl
    simpa [spaceIf, String.append_assoc] using hp.ofSolid (b := .word) (by decide)

end Phrase

/-! ## Reading types -/

namespace AngleRun

/-- A run with trees in front of it. -/
def after (us : List Tree) (r : AngleRun) : AngleRun := ⟨us ++ r.run, r.rest, r.depth⟩

theorem ofTrees_cons_of_step {depth e : Nat} {arrow : Bool} {t : Tree}
    (hc : ¬(t.isMark "," && depth == 0) = true) (hs : step depth arrow t = some e)
    (ts : List Tree) :
    ofTrees depth arrow (t :: ts) = (ofTrees e (t.isJointMark "-") ts).after [t] := by
  rw [ofTrees, if_neg hc, hs]
  rfl

theorem ofTrees_cons {depth e : Nat} {p : Option Nat} {t : Tree}
    (h : (t.outline p).angle depth = some e) (ts : List Tree) :
    ofTrees depth false (t :: ts) = (ofTrees e false ts).after [t] := by
  have hs : (t.isMark "," && depth == 0) = false ∧ t.isJointMark "-" = false ∧
      step depth false t = some e := by
    cases t with
    | group => simp [Outline.angle] at h
    | leaf x l =>
      rw [Tree.outline_leaf] at h
      cases l with
      | ident n => exact ⟨rfl, rfl, h⟩
      | punct m joint =>
        simp only [Outline.angle] at h
        simp only [Tree.isMark, Tree.isJointMark, step, beq_iff_eq]
        grind
      | _ => cases h
  obtain ⟨hc, hj, hs⟩ := hs
  rw [ofTrees_cons_of_step (Bool.eq_false_iff.1 hc) hs, hj]

/-- Trees inside a type are passed over. -/
theorem ofTrees_append {depth e : Nat} {p : Option Nat} {us : List Tree}
    (h : Outline.angles depth (Tree.outlines p us) = some e) (rest : List Tree) :
    ofTrees depth false (us ++ rest) = (ofTrees e false rest).after us := by
  induction us generalizing depth p with
  | nil =>
    cases h
    rfl
  | cons t us ih =>
    rw [Tree.outlines_cons, ← List.singleton_append, Outline.angles_append] at h
    obtain ⟨d, hd, h⟩ := Option.bind_eq_some_iff.1 h
    rw [List.cons_append, ofTrees_cons (by simpa using hd), ih h]
    rfl

/-- A type ends at the end and in front of a comma. -/
theorem ofTrees_zero {rest : List Tree} (h : ∀ t ∈ rest.head?, t.isMark "," = true) :
    ofTrees 0 false rest = ⟨[], rest, some 0⟩ := by
  cases rest with
  | nil => rfl
  | cons t ts => rw [ofTrees, h t rfl]; rfl

end AngleRun

theorem Tree.apart_outline (p : Option Nat) (t : Tree) :
    (t.outline p).apart = isBehind p t.start := by
  cases t <;> simp [Outline.apart, start]

/-- Trees show their text wherever they stand. -/
theorem Form.Spells.renderAll {p : Option Nat} {us : List Tree} {i j : Nat} {s : String}
    (h : Form.Spells i j s (Tree.outlines p us)) : Tree.renderAll none none us = s := by
  obtain ⟨o, ps, ho, ht⟩ := h.text
  cases us with
  | nil => simp at ho
  | cons t us =>
    rw [Tree.outlines_cons, List.cons.injEq] at ho
    obtain ⟨rfl, rfl⟩ := ho
    rw [Tree.apart_outline, Tree.outlines_cons, Outline.flatAll_cons, MarkedAtom.write_append,
      ← Tree.render_eq_write, String.append_assoc] at ht
    have hn := Tree.render_eq_write t none
    rw [Tree.renderAll_eq, Tree.outlines_cons, Outline.flatAll_cons, MarkedAtom.write_append, ← hn]
    simpa [spaceIf] using (String.append_right_inj _).1 ht

namespace Parse

/-- A plain type is read in front of a comma and at the end. -/
theorem fieldType_of_spells {c : Cursor} {p : Option Nat} {us rest : List Tree} {s : String}
    (hc : c.rest = us ++ rest) (h : Form.Spells 0 0 s (Tree.outlines p us))
    (hr : ∀ t ∈ rest.head?, t.isMark "," = true) :
    ∃ type d, fieldType c = (.ok type, d) ∧ type.text = s ∧ d.rest = rest := by
  have ht := AngleRun.ofTrees_append (by simpa using h.depth 0) rest
  rw [AngleRun.ofTrees_zero hr, AngleRun.after, List.append_nil, ← hc] at ht
  obtain ⟨t, us, rfl⟩ : ∃ t vs, us = t :: vs := by
    obtain ⟨o, ps, ho, -⟩ := h.text
    cases us with
    | nil => simp at ho
    | cons t us => exact ⟨t, us, rfl⟩
  refine ⟨_, _, by rw [fieldType, ht]; rfl, h.renderAll, ?_⟩
  simp [Cursor.skip, hc]

end Parse

end ErrorDerive
