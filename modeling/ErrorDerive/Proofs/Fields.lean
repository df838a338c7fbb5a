import ErrorDerive.Proofs.Fields.Attributes
import ErrorDerive.Proofs.Fields.Types

/-!
# Field lists by their grammar

A field list is empty, or fields with commas in between and perhaps one behind them.  Where a field
ends is not written in the trees but found by reading its type, and the comma behind it is read if
it is there; so each step is compared with the grammar on all trees, in front of all others.
-/

namespace ErrorDerive

namespace Tree

/-- Trees that are the attributes of a field; one that belongs on the enum is not among them. -/
def AreFieldAttributes (s : Settings) (us : List Tree) (as : List Attribute) : Prop :=
  AreAttributes us as ∧ ∀ a ∈ as, a.name ≠ s.noDisplayName

/-- Trees that are a field of a tuple behind others: attributes and a type that starts with none.
Its key is its index. -/
inductive IsTupleField (s : Settings) (done : List FieldDecl) : List Tree → FieldDecl → Prop
  | intro {us run : List Tree} {as : List Attribute} {type : FieldType}
      (ha : AreFieldAttributes s us as) (ht : IsFieldType run type)
      (hb : ∀ t ∈ run.head?, Parse.Blunt t) :
      IsTupleField s done (us ++ run) ⟨toString done.length, type, as, type.extent⟩

/-- Trees that are a field of a struct behind others: attributes, a name that none of those has, a
colon and a type. -/
inductive IsStructField (s : Settings) (done : List FieldDecl) : List Tree → FieldDecl → Prop
  | intro {us run : List Tree} {as : List Attribute} {type : FieldType} {name : Ident}
      (e : Extent) (joint : Bool) (ha : AreFieldAttributes s us as)
      (hn : name.text ∉ done.map FieldDecl.key) (ht : IsFieldType run type) :
      IsStructField s done (us ++ name.toTree :: .leaf e (.punct ":" joint) :: run)
        ⟨name.text, type, as, name.extent⟩

/-- Trees that are fields behind others, with a comma between two of them and perhaps one at the
end. -/
inductive AreFields (field : List FieldDecl → List Tree → FieldDecl → Prop) :
    List FieldDecl → List Tree → List FieldDecl → Prop
  | last {done : List FieldDecl} {us : List Tree} {f : FieldDecl} (h : field done us f) :
      AreFields field done us [f]
  | trailing {done : List FieldDecl} {us : List Tree} {f : FieldDecl} (e : Extent) (joint : Bool)
      (h : field done us f) : AreFields field done (us ++ [.leaf e (.punct "," joint)]) [f]
  | more {done : List FieldDecl} {us : List Tree} {f : FieldDecl} {ts : List Tree}
      {fs : List FieldDecl} (e : Extent) (joint : Bool) (h : field done us f)
      (hs : AreFields field (done ++ [f]) ts fs) :
      AreFields field done (us ++ .leaf e (.punct "," joint) :: ts) (f :: fs)

/-- Trees that are a list of fields. -/
def IsFieldList (field : List FieldDecl → List Tree → FieldDecl → Prop) (ts : List Tree)
    (fs : List FieldDecl) : Prop :=
  ts = [] ∧ fs = [] ∨ AreFields field [] ts fs

theorem AreFields.ne_nil {field : List FieldDecl → List Tree → FieldDecl → Prop}
    {done fs : List FieldDecl} {ts : List Tree} (hn : ∀ done us f, field done us f → us ≠ [])
    (h : AreFields field done ts fs) : ts ≠ [] := by
  cases h with
  | last h => exact hn _ _ _ h
  | trailing => simp
  | more => simp

end Tree

namespace Parse

open ErrorDerive.Tree

variable {s : Settings} {c d : Cursor} {α : Type}

/-! ## Fields -/

theorem hasGraph_fieldAttributes (s : Settings) :
    HasGraph (fieldAttributes s) fun ts as rest ↦
      ∃ us, ts = us ++ rest ∧ AreFieldAttributes s us as ∧ ∀ t ∈ rest.head?, Blunt t := by
  refine (hasGraph_attributes.bind fun as ↦ (hasGraph_ofExcept _).bind fun _ ↦
    hasGraph_pure as).imp fun ts as rest ↦ ?_
  constructor
  · rintro ⟨_, _, ⟨us, hu, ha, hb⟩, _, _, ⟨hr, rfl⟩, rfl, rfl⟩
    exact ⟨us, hu, ⟨ha, refuseNoDisplay_eq_ok_iff.1 hr⟩, hb⟩
  · rintro ⟨us, hu, ⟨ha, hn⟩, hb⟩
    exact ⟨as, rest, ⟨us, hu, ha, hb⟩, (), rest, ⟨refuseNoDisplay_eq_ok_iff.2 hn, rfl⟩, rfl, rfl⟩

/-- A comma that may come behind a type is read. -/
theorem hasGraph_fieldType_comma (f : FieldType → α) :
    HasGraph (fieldType >>= fun type ↦ eatPunct "," >>= fun _ ↦ pure (f type)) fun ts b rest' ↦
      ∃ run rest type, ts = run ++ rest ∧ IsFieldType run type ∧ Comma rest rest' ∧ f type = b := by
  intro c b rest'
  constructor
  · rintro ⟨_, d, h, rfl, rfl⟩
    obtain ⟨type, e, ht, h⟩ := bind_eq_ok_iff.1 h
    obtain ⟨r, e', hr, h⟩ := bind_eq_ok_iff.1 h
    obtain ⟨rfl, rfl⟩ := pure_eq_ok_iff.1 h
    obtain ⟨run, hc, ht, hm⟩ := reaches_fieldType_iff.1 ⟨_, _, ht, rfl, rfl⟩
    exact ⟨run, e.rest, type, hc, ht, comma_of_eatPunct hm hr, rfl⟩
  · rintro ⟨run, rest, type, hc, ht, hr, rfl⟩
    have hm : ∀ t ∈ rest.head?, t.isMark "," = true := by
      cases hr with
      | none => simp
      | some e joint ts => simp [Tree.isMark]
    refine (reaches_fieldType_iff.2 ⟨run, hc, ht, hm⟩).bind ?_
    rintro _ d rfl rfl
    exact (reaches_comma hr).bind fun _ k _ hk ↦ reaches_pure hk rfl

/-- Trees that start with a field, up to the end or behind the comma that ends the field. -/
def Ended (field : List Tree → FieldDecl → Prop) (ts : List Tree) (f : FieldDecl)
    (rest' : List Tree) : Prop :=
  ∃ us rest, ts = us ++ rest ∧ field us f ∧ Comma rest rest'

theorem hasGraph_tupleField (s : Settings) (done : List FieldDecl) :
    HasGraph (tupleField s done) (Ended (IsTupleField s done)) := by
  refine ((hasGraph_fieldAttributes s).bind fun as ↦
    hasGraph_fieldType_comma fun type ↦ (⟨toString done.length, type, as, type.extent⟩ :
      FieldDecl)).imp fun ts f rest' ↦ ?_
  constructor
  · rintro ⟨as, _, ⟨us, rfl, ha, hb⟩, run, rest, type, rfl, ht, hr, rfl⟩
    refine ⟨us ++ run, rest, (List.append_assoc ..).symm, .intro ha ht fun t h ↦ hb t ?_, hr⟩
    rw [List.head?_append, h, Option.some_or]
    rfl
  · rintro ⟨_, rest, rfl, ⟨ha, ht, hb⟩, hr⟩
    refine ⟨_, _, ⟨_, List.append_assoc .., ha, fun t h ↦ hb t ?_⟩, _, rest, _, rfl, ht, hr, rfl⟩
    rwa [List.head?_append_of_ne_nil _ ht.nonempty] at h

theorem hasGraph_structField (s : Settings) (done : List FieldDecl) :
    HasGraph (structField s done) (Ended (IsStructField s done)) := by
  refine ((hasGraph_fieldAttributes s).bind fun as ↦ (hasGraph_expect _ Tree.ident?).bind fun name ↦
    (hasGraph_ofExcept _).bind fun _ ↦ (hasGraph_expect _ (mark? ":")).bind fun _ ↦
      hasGraph_fieldType_comma fun type ↦ (⟨name.text, type, as, name.extent⟩ :
        FieldDecl)).imp fun ts f rest' ↦ ?_
  constructor
  · rintro ⟨as, _, ⟨us, rfl, ha, -⟩, name, _, ⟨_, rfl, hi⟩, _, _, ⟨hn, rfl⟩, p, _, ⟨_, rfl, hp⟩,
      run, rest, type, rfl, ht, hr, rfl⟩
    obtain rfl := ident?_eq_some_iff.1 hi
    obtain ⟨rfl, -⟩ := mark?_eq_some_iff.1 hp
    refine ⟨_, rest, ?_, .intro p.extent p.joint ha (refuseRedeclared_eq_ok_iff.1 hn) ht, hr⟩
    rw [List.append_assoc]
    rfl
  · rintro ⟨_, rest, rfl, @⟨us, run, as, type, name, e, joint, ha, hn, ht⟩, hr⟩
    refine ⟨as, name.toTree :: .leaf e (.punct ":" joint) :: run ++ rest, ⟨us, by simp, ha, ?_⟩,
      name, _, ⟨_, rfl, rfl⟩, (), _, ⟨refuseRedeclared_eq_ok_iff.2 hn, rfl⟩, ⟨e, ":", joint⟩, _,
      ⟨_, rfl, rfl⟩, run, rest, type, rfl, ht, hr, rfl⟩
    rintro _ ⟨⟩
    exact blunt_ident name.extent name.text

/-! ## Lists -/

section Lists

variable {field : List FieldDecl → List Tree → FieldDecl → Prop}
  {step : List FieldDecl → Parse FieldDecl} {h : ∀ done, (step done).Reads}
  {done fs : List FieldDecl}

/-- A field that a step reads has trees. -/
theorem ne_nil_of_hasGraph (h : ∀ done, (step done).Reads)
    (hs : ∀ done, HasGraph (step done) (Ended (field done))) {us : List Tree} {f : FieldDecl}
    (hf : field done us f) : us ≠ [] := by
  rintro rfl
  obtain ⟨_, d, ha, -⟩ := (hs done ⟨[], default, 0⟩ f []).2 ⟨[], [], rfl, hf, .none⟩
  exact Nat.not_lt_zero _ (h done _ _ _ ha)

/-- What a loop over the trees has read are fields. -/
theorem areFields_of_collect {hy : ∀ done, (ifMore (step done)).Yields}
    (h : ∀ done, (step done).Reads) (hs : ∀ done, HasGraph (step done) (Ended (field done)))
    {all : List FieldDecl}
    (hc : collect (fun done ↦ ifMore (step done)) hy done c = (.ok all, d)) :
    ∃ fs, all = done ++ fs ∧ (c.rest = [] ∧ fs = [] ∨ AreFields field done c.rest fs) := by
  fun_induction collect (fun done ↦ ifMore (step done)) hy done c with
  | case1 done c e hn =>
    cases hc
    exact ⟨[], (List.append_nil _).symm, .inl ⟨(ifMore_eq_none_iff.1 hn).1, rfl⟩⟩
  | case2 done c f e hm ih =>
    obtain ⟨us, rest, hu, hf, hr⟩ := (hs done).of_eq (ifMore_eq_some_iff.1 hm).2
    obtain ⟨fs, rfl, hfs⟩ := ih hc
    refine ⟨f :: fs, List.append_assoc .., .inr ?_⟩
    rw [hu]
    generalize e.rest = rest' at hr hfs
    cases hr with
    | none =>
      -- At the end no further field is left, since each has trees.
      obtain ⟨-, rfl⟩ | hfs := hfs
      · rw [List.append_nil]
        exact .last hf
      · exact absurd rfl (hfs.ne_nil fun _ _ _ ↦ ne_nil_of_hasGraph h hs)
    | some x joint =>
      obtain ⟨rfl, rfl⟩ | hfs := hfs
      · exact .trailing x joint hf
      · exact .more x joint hf hfs
  | case3 => cases hc

/-- Fields are read by a loop over the trees. -/
theorem reaches_of_areFields {hy : ∀ done, (ifMore (step done)).Yields}
    (h : ∀ done, (step done).Reads) (hs : ∀ done, HasGraph (step done) (Ended (field done)))
    {ts : List Tree} (hf : AreFields field done ts fs) (hc : c.rest = ts) :
    Reaches (collect (fun done ↦ ifMore (step done)) hy done) c (· = done ++ fs) [] := by
  have hn : ∀ (all : List FieldDecl) (d : Cursor), d.rest = [] →
      Reaches (collect (fun done ↦ ifMore (step done)) hy all) d (· = all) [] := by
    intro all d hd
    exact ⟨all, d, by rw [collect_apply, ifMore_of_nil hd], rfl, hd⟩
  induction hf generalizing c with
  | @last done us f hf =>
    refine ((hs done c f []).2 ⟨us, [], by simpa using hc, hf, .none⟩).collect h ?_
    rintro _ d rfl hd
    exact hn _ d hd
  | @trailing done us f e joint hf =>
    refine ((hs done c f []).2 ⟨us, _, hc, hf, .some e joint []⟩).collect h ?_
    rintro _ d rfl hd
    exact hn _ d hd
  | @more done us f ts fs e joint hf _ ih =>
    refine ((hs done c f ts).2 ⟨us, _, hc, hf, .some e joint ts⟩).collect h ?_
    rintro _ d rfl hd
    simpa using ih hd

/-- A loop over all trees of a group reads exactly a list of fields. -/
theorem within_many_eq_ok_iff (hs : ∀ done, HasGraph (step done) (Ended (field done)))
    {g : Group} : within g (many step h) = .ok fs ↔ IsFieldList field g.trees fs := by
  rw [within_eq_iff]
  constructor
  · rintro ⟨d, hm⟩
    obtain ⟨fs, rfl, hf⟩ := areFields_of_collect h hs hm
    exact hf
  · rintro (⟨hn, rfl⟩ | hf)
    · exact ⟨Cursor.ofGroup g, many_eq_ok_iff.2 ⟨.start, hn⟩⟩
    · have hm : Reaches (many step h) (Cursor.ofGroup g) (· = fs) [] :=
        reaches_of_areFields h hs hf rfl
      obtain ⟨_, d, hm, rfl, -⟩ := hm
      exact ⟨d, hm⟩

end Lists

/-- A group is a list of fields exactly if its trees are one by the grammar, and the fields are
those of the grammar in order. -/
theorem fields_eq_ok_iff (s : Settings) (g : Group) (fs : List FieldDecl) :
    (within g (tupleFields s) = .ok fs ↔ IsFieldList (IsTupleField s) g.trees fs) ∧
      (within g (structFields s) = .ok fs ↔ IsFieldList (IsStructField s) g.trees fs) :=
  ⟨within_many_eq_ok_iff (hasGraph_tupleField s), within_many_eq_ok_iff (hasGraph_structField s)⟩

end Parse

end ErrorDerive
