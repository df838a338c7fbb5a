import ErrorDerive.Generated.Arm
import ErrorDerive.Proofs.Invariants
import ErrorDerive.Proofs.Templates.Pieces

/-!
# Names that a message binds

The arm that writes the message of a variant binds exactly the names that it passes on, and these
are the names of the placeholders in the text that it writes (`Variant.Binds`).  In a tuple, the
slots that are bound are those that the message calls by name or by index.
-/

namespace ErrorDerive

/-! ## References to tuple fields -/

/-- Whether a placeholder calls the tuple field of an index, by its name or by a numeral. -/
def Hole.refersTo (i : Nat) (h : Hole) : Bool :=
  h.name == tupleAlias (toString i) ||
    Text.isNumeral h.name.toList && Text.ofDigits h.name.toList == i

theorem tupleAlias_injective : Function.Injective tupleAlias := by
  intro k k' h
  have h : ("field_" ++ k).toList = ("field_" ++ k').toList := congrArg String.toList h
  rw [String.toList_append, String.toList_append] at h
  exact String.toList_injective (List.append_cancel_left h)

namespace Template

variable {text template : String} {ps qs : List Piece} {ns : List String} {count i : Nat}

/-- Whether some placeholder of a text calls the tuple field of an index. -/
def refersTo (text : String) (i : Nat) : Bool :=
  match placeholders text with
  | .ok ps => ps.any (·.hole.refersTo i)
  | .error _ => false

theorem refersTo_eq (h : pieces text = .ok ps) :
    refersTo text i = (ps.filterMap Piece.hole?).any (Hole.refersTo i) := by
  rw [refersTo, placeholders, h, ← map_hole_holesFrom 0 ps, List.any_map]
  rfl

theorem mem_names_iff (h : pieces template = .ok ps) (hn : names template = .ok ns) (n : String) :
    n ∈ ns ↔ (ps.filterMap Piece.hole?).any (·.name == n) = true := by
  rw [names, h] at hn
  cases hn
  rw [namesOf, List.mem_eraseDups, List.any_eq_true]
  simp only [List.mem_map, beq_iff_eq]

/-- A placeholder calls a field by name, once its index is bound, if it called it before. -/
theorem name_bindIndex {x y : Hole} (h : bindIndex count x = .ok y) (hi : i < count) :
    (y.name == tupleAlias (toString i)) = x.refersTo i := by
  unfold bindIndex at h
  by_cases hx : Text.isNumeral x.name.toList = true
  · have hne : x.name ≠ tupleAlias (toString i) := by
      intro he
      rw [he, isNumeral_tupleAlias] at hx
      cases hx
    have hv : x.refersTo i = (Text.ofDigits x.name.toList == i) := by
      rw [Hole.refersTo, beq_false_of_ne hne, hx, Bool.false_or, Bool.true_and]
    rw [if_pos hx] at h
    obtain ⟨j, hj, rfl⟩ := Except.map_eq_ok_iff.1 h
    obtain rfl : Text.ofDigits x.name.toList = j := by
      unfold Text.readNumeral at hj
      split at hj
      · cases hj; rfl
      · cases hj
    rw [hv, Bool.eq_iff_iff, beq_iff_eq, beq_iff_eq]
    split
    · exact ⟨fun he ↦ Text.toString_injective (tupleAlias_injective he), fun he ↦ by rw [he]; rfl⟩
    · next hc =>
      constructor
      · exact fun he ↦ absurd he hne
      · rintro rfl
        exact absurd hi hc
  · rw [if_neg hx] at h
    cases h
    simp [Hole.refersTo, hx]

theorem any_mapM_bindPiece (h : ps.mapM (bindPiece count) = .ok qs) (hi : i < count) :
    (qs.filterMap Piece.hole?).any (·.name == tupleAlias (toString i)) =
      (ps.filterMap Piece.hole?).any (Hole.refersTo i) := by
  rw [mapM_eq_ok_iff] at h
  induction h with
  | nil => rfl
  | @cons p q ps qs hq _ ih =>
    cases p with
    | hole x =>
      obtain ⟨y, hy, rfl⟩ := Except.map_eq_ok_iff.1 hq
      simp only [List.filterMap_cons, Piece.hole?, List.any_cons, name_bindIndex hy hi, ih]
    | _ =>
      cases hq
      simpa only [List.filterMap_cons, Piece.hole?] using ih

/-- The names of a text with bound indices are the fields that the text calls. -/
theorem mem_names_of_bindIndices (h : bindIndices text count = .ok template)
    (hn : names template = .ok ns) (hi : i < count) :
    tupleAlias (toString i) ∈ ns ↔ refersTo text i = true := by
  unfold bindIndices at h
  split at h
  · cases h
  · next ps hp =>
    split at h
    · cases h
    · next qs hq =>
      cases h
      have hw := pieces_write (proper_mapM_bindPiece (proper_of_piecesFrom hp) hq)
      rw [mem_names_iff hw hn, any_mapM_bindPiece hq hi, refersTo_eq hp]

/-- A text that calls no field by index calls a field if it has the name of it. -/
theorem mem_names_of_no_numeral (hn : names text = .ok ns)
    (hx : ∀ n ∈ ns, Text.isNumeral n.toList = false) :
    tupleAlias (toString i) ∈ ns ↔ refersTo text i = true := by
  obtain ⟨ps, hp⟩ : ∃ ps, pieces text = .ok ps := by
    obtain ⟨ps, hp, -⟩ := Except.map_eq_ok_iff.1 hn
    exact ⟨ps, hp⟩
  rw [refersTo_eq hp, mem_names_iff hp hn, List.any_eq_true, List.any_eq_true]
  refine exists_congr fun h ↦ and_congr_right fun hm ↦ ?_
  have hh : h.name ∈ ns :=
    (mem_names_iff hp hn _).2 (List.any_eq_true.2 ⟨h, hm, beq_self_eq_true _⟩)
  simp [Hole.refersTo, hx _ hh]

end Template

/-! ## Messages -/

/-- The text that a variant takes its message from: that of its message attribute, or else its
documentation. -/
def VariantHead.text (s : Settings) (h : VariantHead) : Except Refusal String :=
  (Attribute.message s h.attributes).map fun
    | some (text, _) => text
    | none => Attribute.documentation h.attributes

/-- A message is its text, with indices bound if it is the attribute of a tuple. -/
theorem VariantHead.exists_text {s : Settings} {h : VariantHead} {m : Message}
    (hm : h.message s false = .ok m) :
    ∃ text, h.text s = .ok text ∧ (m.template = text ∨ h.fields.shape = .tuple ∧
      Template.bindIndices text h.fields.fields.length = .ok m.template) := by
  obtain ⟨r, hr, hm⟩ := Except.bind_eq_ok_iff.1 hm
  cases r with
  | none =>
    refine ⟨Attribute.documentation h.attributes, by rw [text, hr]; rfl, .inl ?_⟩
    exact (Message.ofTemplate_eq_ok_iff.1 hm).1
  | some r =>
    obtain ⟨text, lit⟩ := r
    refine ⟨text, by rw [VariantHead.text, hr]; rfl, ?_⟩
    simp only at hm
    split at hm
    · next hs =>
      unfold Message.ofTuple at hm
      split at hm
      · next t ht =>
        obtain ⟨rfl, -⟩ := Message.ofTemplate_eq_ok_iff.1 hm
        exact .inr ⟨hs, ht⟩
      · cases hm
      · cases hm
    · exact .inl (Message.ofTemplate_eq_ok_iff.1 hm).1

/-! ## Patterns -/

namespace Variant

variable {v : Variant} {names : List String}

theorem displayNames_tuple (hs : v.shape = .tuple)
    (hk : v.fields.keys = (List.range v.fields.length).map toString) :
    v.displayNames = (List.range v.fields.length).map fun i ↦ tupleAlias (toString i) := by
  have hb : v.binding = tupleAlias := by
    funext key
    rw [binding, hs]
  rw [displayNames, hb, hk, List.map_map]
  rfl

theorem displayNames_of_ne_tuple (hs : v.shape ≠ .tuple) : v.displayNames = v.fields.keys := by
  have hb : v.binding = id := by
    funext key
    cases hv : v.shape with
    | tuple => exact absurd hv hs
    | _ => rw [binding, hv]; rfl
  rw [displayNames, hb, List.map_id]

/-- A pattern binds those of its fields that are asked for, in order. -/
theorem bound_pattern (hu : v.shape = .unit → v.fields = []) :
    (v.pattern names).bound = v.displayNames.filter names.contains := by
  cases hs : v.shape with
  | unit => simp [pattern, hs, Pattern.bound, displayNames, hu hs, Keyed.keys]
  | tuple =>
    simp only [pattern, hs, Pattern.bound]
    induction v.displayNames with
    | nil => rfl
    | cons n ns ih =>
      rw [List.map_cons, List.filter_cons]
      split
      · exact congrArg (n :: ·) ih
      · exact ih
  | struct => simp [pattern, hs, Pattern.bound, displayNames_of_ne_tuple]

theorem nodup_displayNames (h : v.fields.keys.Nodup) : v.displayNames.Nodup := by
  by_cases hs : v.shape = .tuple
  · have hb : v.binding = tupleAlias := by
      funext key
      rw [binding, hs]
    rw [displayNames, hb]
    exact h.map tupleAlias_injective
  · rwa [displayNames_of_ne_tuple hs]

/-- Slots are written out one by one, unless none of them binds anything. -/
theorem render_tuple (hs : v.shape = .tuple) (hn : ∀ n ∈ names, n ∈ v.displayNames) :
    (v.pattern names).render = "Self::" ++ v.name ++ "(" ++
      (if names = [] then ".." else ", ".intercalate
        (v.displayNames.map fun n ↦ if n ∈ names then n else "_")) ++ ")" := by
  have ha : (v.displayNames.map fun n ↦ if names.contains n then some n else none).all
      Option.isNone = true ↔ names = [] := by
    rw [List.all_map, List.all_eq_true, List.eq_nil_iff_forall_not_mem]
    constructor
    · intro h n hm
      have := h n (hn n hm)
      simp [hm] at this
    · intro h n _
      simp [h n]
  simp only [pattern, hs, Pattern.render, ha]
  split
  · simp [String.append_assoc]
  · have hm : ∀ n, (if names.contains n then some n else none).getD "_" =
        if n ∈ names then n else "_" := by
      intro n
      by_cases h : n ∈ names <;> simp [h]
    simp only [List.map_map, Function.comp_def, hm]

theorem intercalate_append_comma (n : String) (ns : List String) :
    ", ".intercalate (n :: ns) ++ ", " = String.join ((n :: ns).map (· ++ ", ")) := by
  induction ns generalizing n with
  | nil => simp
  | cons m ns ih =>
    rw [String.intercalate_cons_cons, String.append_assoc, ih]
    simp [String.append_assoc]

/-- Fields that are bound are written out in order, and then the rest. -/
theorem render_struct (hs : v.shape = .struct) :
    (v.pattern names).render = "Self::" ++ v.name ++ " \x7b " ++
      String.join ((v.fields.keys.filter names.contains).map (· ++ ", ")) ++ ".. \x7d" := by
  simp only [pattern, hs, Pattern.render]
  cases hk : v.fields.keys.filter names.contains with
  | nil => simp [String.append_assoc]
  | cons n ns =>
    rw [← intercalate_append_comma]
    simp [String.append_assoc]

/-! ## Messages and their patterns -/

/-- What the arm that writes the message of a variant binds and passes on, if the message is taken
from a given text. -/
structure Binds (v : Variant) (text : String) : Prop where
  /-- The names that are passed on are those of the placeholders in the text that is written. -/
  placeholders : ∃ ps, Template.placeholders v.template = .ok ps ∧
    FirstAppearances (ps.map fun p ↦ p.hole.name) v.displayFields
  /-- The names that are bound are those that are passed on. -/
  bound : v.displayArm.pattern.bound.Perm v.displayFields
  arm : ∀ l : Library, v.displayArm.render l =
    v.displayArm.pattern.render ++ " => " ++ l.root ++ "::write!(__formatter, " ++
      Literal.quote v.template ++
        String.join (v.displayFields.map fun n ↦ ", " ++ n ++ " = " ++ n) ++ "),"
  unit : v.shape = .unit → v.displayArm.pattern.render = "Self::" ++ v.name
  tuple : v.shape = .tuple → v.displayArm.pattern.render =
    "Self::" ++ v.name ++ "(" ++ (if v.displayFields = [] then ".." else ", ".intercalate
      ((List.range v.fields.length).map fun i ↦
        if Template.refersTo text i then tupleAlias (toString i) else "_")) ++ ")"
  struct : v.shape = .struct → v.displayArm.pattern.render =
    "Self::" ++ v.name ++ " \x7b " ++
      String.join ((v.fields.keys.filter v.displayFields.contains).map (· ++ ", ")) ++ ".. \x7d"

variable {s : Settings} {trees : List Tree} {text : String}

/-- A tuple field is passed on if its message calls it. -/
theorem Sound.mem_displayFields_iff (h : v.Sound s false trees) (hs : v.shape = .tuple)
    (ht : v.template = text ∨
      v.shape = .tuple ∧ Template.bindIndices text v.fields.length = .ok v.template)
    (hn : Template.names v.template = .ok v.displayFields) {i : Nat} (hi : i < v.fields.length) :
    tupleAlias (toString i) ∈ v.displayFields ↔ Template.refersTo text i = true := by
  rcases ht with rfl | ⟨-, ht⟩
  · refine Template.mem_names_of_no_numeral hn fun n hm ↦ ?_
    have hd := h.displayNames rfl n hm
    rw [displayNames_tuple hs (h.tuple_keys hs)] at hd
    obtain ⟨j, -, rfl⟩ := List.mem_map.1 hd
    exact isNumeral_tupleAlias _
  · exact Template.mem_names_of_bindIndices ht hn hi

/-- A sound variant whose message is taken from a text binds what it passes on. -/
theorem Sound.binds (h : v.Sound s false trees)
    (ht : v.template = text ∨
      v.shape = .tuple ∧ Template.bindIndices text v.fields.length = .ok v.template)
    (hn : Template.names v.template = .ok v.displayFields) : v.Binds text where
  placeholders := h.displayFields rfl
  bound := by
    obtain ⟨_, -, hf⟩ := h.displayFields rfl
    rw [displayArm, bound_pattern fun hu ↦ (h.unit hu).1]
    refine (List.perm_ext_iff_of_nodup ((nodup_displayNames h.nodup_keys).filter _) hf.nodup).2 ?_
    intro n
    rw [List.mem_filter, List.contains_iff_mem]
    exact ⟨fun hm ↦ hm.2, fun hm ↦ ⟨h.displayNames rfl n hm, hm⟩⟩
  arm l := by
    simp only [displayArm, Arm.render, ArmBody.render, namedArguments, String.append_assoc]
    rfl
  unit hs := by simp only [displayArm, pattern, hs, Pattern.render]
  tuple hs := by
    have hm : v.displayNames.map (fun n ↦ if n ∈ v.displayFields then n else "_") =
        (List.range v.fields.length).map fun i ↦
          if Template.refersTo text i then tupleAlias (toString i) else "_" := by
      rw [displayNames_tuple hs (h.tuple_keys hs), List.map_map]
      refine List.map_congr_left fun i hi ↦ ?_
      have hm := h.mem_displayFields_iff hs ht hn (List.mem_range.1 hi)
      simp only [Function.comp_apply, hm]
    rw [displayArm, render_tuple hs (h.displayNames rfl), hm]
  struct hs := by rw [displayArm, render_struct hs]

/-- A variant that is read from a body, and the text that its message is taken from. -/
def TakesMessage (s : Settings) (body : Group) (v : Variant) (text : String) : Prop :=
  ∃ c d h m, (Cursor.ofGroup body).Before c ∧ Parse.variantHead s c = (.ok h, d) ∧
    h.text s = .ok text ∧ h.variant m = v

end Variant

/-- The arm for each variant of a definition with messages that is read binds what it passes on,
and no more; what it passes on is what its message calls. -/
theorem Definition.binds_of_parse {s : Settings} {label : Option String} {source : String}
    {d : Definition} (h : Definition.parse s label source = .ok d) (hd : d.noDisplay = false) :
    ∃ ts body, Tree.read label source = .ok ts ∧ Group.toTree body ∈ ts ∧
      ∀ v ∈ d.variants, ∃ text, v.TakesMessage s body text ∧ v.Binds text := by
  obtain ⟨ts, head, e, vs, ht, hh, hv, -, hc, rfl⟩ := parse_eq_ok_iff.1 h
  change head.noDisplay = false at hd
  rw [hd] at hv
  refine ⟨ts, head.body, ht, (Parse.itemHead_eq_ok hh).2, fun v hm ↦ ?_⟩
  obtain ⟨c, hr, -⟩ := Parse.variants_eq_ok_iff.1 hv
  obtain ⟨x, m, c₁, c₂, hb, hx, hmsg, rfl⟩ := Parse.VariantRun.exists_head hr hm
  obtain ⟨text, htext, htemplate⟩ := x.exists_text hmsg
  have hn := Message.names_of_ofAttributes hmsg
  have hs : (x.variant m).Sound s false head.body.trees :=
    x.sound ((Parse.readFrom_of_variantHead hx).of_suffix hb.suffix) fun _ ↦
      ⟨hn, check_eq_ok_iff.1 (hc hd) _ hm⟩
  exact ⟨text, ⟨c₁, c₂, x, m, hb, hx, htext, rfl⟩, hs.binds htemplate hn⟩

/-- A tuple whose message calls one field twice, once by an index with a leading zero, and a
struct. -/
def calledTwice : String :=
  "enum E \x7b\n#[error(\"\x7b01\x7d \x7b\x7b0\x7d\x7d \x7bfield_1:?\x7d\")] A(T, U),\n" ++
    "/// \x7bb\x7d\nB \x7b a: T, b: U \x7d\n\x7d"

theorem Definition.binds_of_parse_called_twice :
    ∃ d, Definition.parse {} none calledTwice = .ok d ∧ d.noDisplay = false ∧
      d.variants.map (·.displayArm.pattern.render) =
        ["Self::A(_, field_1)", "Self::B \x7b b, .. \x7d"] ∧
      ∀ v ∈ d.variants, v.displayArm.pattern.bound.Perm v.displayFields := by
  have h : (Definition.parse {} none calledTwice).toOption.map
      (fun d ↦ (d.noDisplay, d.variants.map (·.displayArm.pattern.render))) =
        some (false, ["Self::A(_, field_1)", "Self::B \x7b b, .. \x7d"]) := by
    decide +kernel
  obtain ⟨d, hd, hx⟩ := Option.map_eq_some_iff.1 h
  obtain ⟨hn, hp⟩ := Prod.mk.inj hx
  have hd := Except.toOption_eq_some_iff.1 hd
  obtain ⟨_, _, -, -, hb⟩ := binds_of_parse hd hn
  refine ⟨d, hd, hn, hp, fun v hv ↦ ?_⟩
  obtain ⟨_, -, hb⟩ := hb v hv
  exact hb.bound

end ErrorDerive
