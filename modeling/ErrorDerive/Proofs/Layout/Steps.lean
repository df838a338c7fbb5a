import ErrorDerive.Item.Field
import ErrorDerive.Proofs.Layout.Alike

/-!
# Words, attributes and types of like trees

Two runs over like trees read the same words, the same attributes but for the places in their
arguments, and types with the same text.
-/

namespace ErrorDerive

/-- Identifiers that differ in their places only. -/
def Ident.Alike (i i' : Ident) : Prop := i.text = i'.text

/-- Literals that differ in their places only. -/
structure Lit.Alike (l l' : Lit) : Prop where
  kind : l.kind = l'.kind
  text : l.text = l'.text

/-- Attributes that differ in their places only. -/
structure Attribute.Alike (a a' : Attribute) : Prop where
  name : a.name = a'.name
  args : Option.Rel Group.Alike a.args a'.args
  value : Option.Rel Lit.Alike a.value a'.value
  doc : a.doc = a'.doc

theorem isNone_eq_of_rel {α : Type} {R : α → α → Prop} {x x' : Option α} (h : Option.Rel R x x') :
    x.isNone = x'.isNone := by
  cases h <;> rfl

theorem Attribute.Alike.isBare {a a' : Attribute} (h : a.Alike a') : a.isBare = a'.isBare := by
  rw [Attribute.isBare, Attribute.isBare, isNone_eq_of_rel h.args, isNone_eq_of_rel h.value]

/-- Field types that differ in their places only. -/
def FieldType.Alike (t t' : FieldType) : Prop := t.text = t'.text

namespace Parse

/-! ## Views -/

theorem agreeOn_ident? : AgreeOn Ident.Alike Tree.ident? := by
  intro t t' h
  cases h with
  | leaf e e' l =>
    cases l with
    | ident text => exact .some rfl
    | _ => exact .none
  | group => exact .none

theorem agreeOn_lit? : AgreeOn Lit.Alike Tree.lit? := by
  intro t t' h
  cases h with
  | leaf e e' l =>
    cases l with
    | literal kind text => exact .some ⟨rfl, rfl⟩
    | _ => exact .none
  | group => exact .none

theorem agreeOn_punct? : AgreeOn (fun p p' ↦ p.mark = p'.mark) Tree.punct? := by
  intro t t' h
  cases h with
  | leaf e e' l =>
    cases l with
    | punct mark joint => exact .some rfl
    | _ => exact .none
  | group => exact .none

theorem agreeOn_group? : AgreeOn Group.Alike Tree.group? := by
  intro t t' h
  cases h with
  | leaf => exact .none
  | group e e' c c' d h => exact .some ⟨rfl, h⟩

theorem agreeOn_docComment? : AgreeOn Attribute.Alike docComment? := by
  intro t t' h
  cases h with
  | leaf e e' l =>
    cases l with
    | doc text => exact .some ⟨rfl, .none, .none, rfl⟩
    | _ => exact .none
  | group => exact .none

variable {α : Type} {R : α → α → Prop}

/-- A view that is kept only if a test of what is related holds. -/
theorem AgreeOn.filter {view : Tree → Option α} {p : α → Bool} (h : AgreeOn R view)
    (hp : ∀ a a', R a a' → p a = p a') : AgreeOn R fun t ↦ (view t).filter p := by
  intro t t' ht
  have h := h ht
  change Option.Rel R ((view t).filter p) ((view t').filter p)
  generalize view t = x at h
  generalize view t' = x' at h
  cases h with
  | none => exact .none
  | @some a a' ha =>
    rw [Option.filter_some, Option.filter_some, hp a a' ha]
    split
    · exact .some ha
    · exact .none

theorem agreeOn_word? (name : String) : AgreeOn Ident.Alike (word? name) :=
  agreeOn_ident?.filter fun i i' (h : i.text = i'.text) ↦ by rw [h]

theorem agreeOn_mark? (mark : String) : AgreeOn (fun p p' ↦ p.mark = p'.mark) (mark? mark) :=
  agreeOn_punct?.filter fun p p' h ↦ by rw [h]

theorem agreeOn_brackets? (d : Delimiter) : AgreeOn Group.Alike (brackets? d) :=
  agreeOn_group?.filter fun g g' h ↦ by rw [h.delimiter]

theorem agreeOn_stringLit? : AgreeOn Lit.Alike stringLit? :=
  agreeOn_lit?.filter fun l l' h ↦ by rw [h.kind]

/-! ## Words and paths -/

theorem agree_litValue {l l' : Lit} (h : l.Alike l') :
    ErrorDerive.Agree Eq (litValue l) (litValue l') := by
  unfold litValue Lit.value
  rw [h.kind, h.text]
  cases Literal.value l'.kind l'.text with
  | ok s => exact .ok rfl
  | error e => exact .errorAt _ _ _

theorem agree_readString :
    Agree (fun x x' ↦ x.1 = x'.1 ∧ x.2.Alike x'.2) readString readString := by
  intro c c' hc
  have h := agreeOn_stringLit?.peek hc
  unfold readString
  generalize c.peek.bind stringLit? = x at h
  generalize c'.peek.bind stringLit? = x' at h
  cases h with
  | none => exact agree_unexpected _ hc
  | @some l l' hl =>
    have hv := agree_litValue hl
    simp only
    generalize litValue l = v at hv
    generalize litValue l' = v' at hv
    cases hv with
    | ok hv => exact .ok ⟨hv, hl⟩ (hc.skip 1)
    | error hr => exact .error hr

theorem agree_readIdent : Agree Ident.Alike readIdent readIdent := agree_expect agreeOn_ident? _

theorem agree_segment : Agree (Option.Rel Ident.Alike) segment segment := by
  refine Agree.bind (agree_eat (R := Eq) fun t t' h ↦ ?_) fun r r' hr ↦ ?_
  · rw [h.isJointMark]
    split
    · exact .some rfl
    · exact .none
  · cases hr with
    | none => exact agree_pure .none
    | some _ =>
      exact (agree_expect (agreeOn_mark? ":") _).bind fun _ _ _ ↦
        agree_readIdent.bind fun _ _ hi ↦ agree_pure (.some hi)

theorem agree_path : Agree (fun x x' ↦ x.1 = x'.1) path path := by
  refine agree_readIdent.bind fun i i' hi ↦ ?_
  refine (agree_collect (fun _ _ _ ↦ agree_segment) .nil).bind fun is is' his ↦ agree_pure ?_
  have hm : is.map Ident.text = is'.map Ident.text := by
    induction his with
    | nil => rfl
    | cons h _ ih => rw [List.map_cons, List.map_cons, h, ih]
  simp only
  rw [hi, hm]

/-! ## Attributes -/

theorem agree_docValue {name : String} {l l' : Lit} (h : l.Alike l') :
    ErrorDerive.Agree Eq (docValue name l) (docValue name l') := by
  unfold docValue
  rw [h.kind]
  split
  · exact (agree_litValue h).map fun _ _ hv ↦ congrArg some hv
  · exact .ok rfl

theorem agree_attributeContent : Agree Attribute.Alike attributeContent attributeContent := by
  refine agree_path.bind fun ⟨name, first⟩ ⟨name', first'⟩ hp ↦ ?_
  obtain rfl : name = name' := hp
  refine (agree_eat agreeOn_group?).bind fun g g' hg ↦ ?_
  cases hg with
  | some hg =>
    exact agree_expectEnd.bind fun _ _ _ ↦ agree_pure ⟨rfl, .some hg, .none, rfl⟩
  | none =>
    refine (agree_eat (agreeOn_mark? "=")).bind fun p p' hp ↦ ?_
    cases hp with
    | none => exact agree_expectEnd.bind fun _ _ _ ↦ agree_pure ⟨rfl, .none, .none, rfl⟩
    | some _ =>
      refine (agree_expect agreeOn_lit? _).bind fun l l' hl ↦ ?_
      refine (agree_ofExcept (agree_docValue hl)).bind fun d d' hd ↦ ?_
      exact agree_expectEnd.bind fun _ _ _ ↦ agree_pure ⟨rfl, .none, .some hl, hd⟩

theorem agree_noInner : Agree Eq noInner noInner := by
  intro c c' hc
  unfold noInner Cursor.peek
  rcases Tree.Alike.cases hc with ⟨h, h'⟩ | ⟨t, ts, t', ts', h, h', hm, -⟩
  · rw [h, h']
    exact .ok rfl hc
  · simp only [h, h', List.head?_cons, hm.isMark]
    split
    · exact agree_failHere _ hc
    · exact .ok rfl hc

theorem agree_attributeBody : Agree Attribute.Alike attributeBody attributeBody :=
  agree_noInner.bind fun _ _ _ ↦ (agree_expect (agreeOn_brackets? .bracket) _).bind fun _ _ hg ↦
    agree_ofExcept (agree_attributeContent.within hg)

theorem agree_attribute? : Agree (Option.Rel Attribute.Alike) attribute? attribute? := by
  refine (agree_eat agreeOn_docComment?).bind fun a a' ha ↦ ?_
  cases ha with
  | some ha => exact agree_pure (.some ha)
  | none =>
    refine (agree_eat (agreeOn_mark? "#")).bind fun p p' hp ↦ ?_
    cases hp with
    | none => exact agree_pure .none
    | some _ => exact agree_attributeBody.bind fun _ _ ha ↦ agree_pure (.some ha)

theorem agree_attributes : Agree (List.Forall₂ Attribute.Alike) attributes attributes :=
  agree_collect (fun _ _ _ ↦ agree_attribute?) .nil

theorem agree_visibility : Agree (fun _ _ ↦ True) visibility visibility := by
  refine (agree_eat (agreeOn_word? "pub")).bind fun i i' hi ↦ ?_
  cases hi with
  | none => exact agree_pure trivial
  | some _ =>
    refine (agree_eat (agreeOn_brackets? .paren)).bind fun g g' hg ↦ ?_
    cases hg with
    | none => exact agree_pure trivial
    | some _ => exact agree_pure trivial

end Parse

/-! ## Types -/

namespace AngleRun

theorem step_eq {t t' : Tree} (h : t.Match t') (depth : Nat) (arrow : Bool) :
    step depth arrow t = step depth arrow t' := by
  unfold step
  rw [h.isMark, h.isMark]

/-- The runs of like trees end at the same place and depth. -/
theorem ofTrees_alike {ts ts' : List Tree} (h : Tree.Alike ts ts') (depth : Nat) (arrow : Bool) :
    (ofTrees depth arrow ts).run.length = (ofTrees depth arrow ts').run.length ∧
      (ofTrees depth arrow ts).depth = (ofTrees depth arrow ts').depth := by
  induction ts generalizing ts' depth arrow with
  | nil =>
    rcases h.cases with ⟨-, rfl⟩ | ⟨t, us, t', us', e, -⟩
    · exact ⟨rfl, rfl⟩
    · cases e
  | cons t ts ih =>
    rcases h.cases with ⟨e, -⟩ | ⟨t, us, t', us', e, rfl, hm, hs⟩
    · cases e
    · cases e
      rw [ofTrees, ofTrees, hm.isMark, step_eq hm, hm.isJointMark]
      split
      · exact ⟨rfl, rfl⟩
      · split
        · exact ⟨rfl, rfl⟩
        · next d _ =>
          obtain ⟨hl, hd⟩ := ih hs d (t'.isJointMark "-")
          exact ⟨congrArg (· + 1) hl, hd⟩

theorem run_eq_take (depth : Nat) (arrow : Bool) (ts : List Tree) :
    (ofTrees depth arrow ts).run = ts.take (ofTrees depth arrow ts).run.length := by
  have h : ((ofTrees depth arrow ts).run ++ (ofTrees depth arrow ts).rest).take
      (ofTrees depth arrow ts).run.length = (ofTrees depth arrow ts).run := List.take_left
  rwa [run_append_rest, eq_comm] at h

end AngleRun

namespace Parse

theorem agree_typeOfRun {r r' : AngleRun} (hd : r.depth = r'.depth)
    (hr : Tree.Alike r.run r'.run) : Agree FieldType.Alike (typeOfRun r) (typeOfRun r') := by
  obtain ⟨run, rest, depth⟩ := r
  obtain ⟨run', rest', depth'⟩ := r'
  obtain rfl : depth = depth' := hd
  cases depth with
  | none => exact agree_failHere _
  | some depth =>
    rcases hr.cases with ⟨h, h'⟩ | ⟨t, ts, t', ts', h, h', -, -⟩
    · cases h
      cases h'
      exact agree_unexpected _
    · cases h
      cases h'
      cases depth with
      | zero =>
        refine agree_pure ?_
        change Tree.renderAll none none _ = Tree.renderAll none none _
        rw [Tree.renderAll_eq, Tree.renderAll_eq, hr]
      | succ depth => exact agree_fail _ _ _

theorem agree_fieldType : Agree FieldType.Alike fieldType fieldType := by
  intro c c' hc
  obtain ⟨hl, hd⟩ := AngleRun.ofTrees_alike hc 0 false
  unfold fieldType
  refine agree_typeOfRun hd ?_ (by rw [hl]; exact hc.skip _)
  rw [AngleRun.run_eq_take, AngleRun.run_eq_take 0 false c'.rest, hl]
  exact Tree.Alike.take hc _

end Parse

end ErrorDerive
