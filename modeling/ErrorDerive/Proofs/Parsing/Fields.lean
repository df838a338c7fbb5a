import ErrorDerive.Item.Field
import ErrorDerive.Proofs.Parsing.Steps
import Mathlib.Data.List.Nodup

/-!
# Declared fields

The keys of declared fields are distinct, and count from zero in a tuple; so the table of a field
list holds its declarations in order.  The cause of a field list is that of its only marker.
-/

namespace ErrorDerive

/-! ## Numerals -/

namespace Text

theorem ofDigits_toDigits (n : Nat) : ofDigits (Nat.toDigits 10 n) = n := by
  have h : ofDigits (Nat.toDigits 10 n) = Nat.ofDigitChars 10 (Nat.toDigits 10 n) 0 := by
    rw [Nat.ofDigitChars_eq_foldl]
    rfl
  rw [h, Nat.ofDigitChars_ten_toDigits]

theorem toString_injective : Function.Injective (toString : Nat → String) := by
  intro m n h
  have h : Nat.toDigits 10 m = Nat.toDigits 10 n := by
    rw [Nat.toString_eq_ofList_toDigits, Nat.toString_eq_ofList_toDigits] at h
    exact String.ofList_injective h
  rw [← ofDigits_toDigits m, h, ofDigits_toDigits]

theorem isNumeral_toString (n : Nat) : isNumeral (toString n).toList = true := by
  rw [Nat.toString_eq_ofList_toDigits, String.toList_ofList, isNumeral, Bool.and_eq_true,
    List.all_eq_true]
  refine ⟨?_, fun c hc ↦ Nat.isDigit_of_mem_toDigits (by omega) (by omega) hc⟩
  simp [Nat.toDigits_ne_nil]

end Text

/-! ## Tables -/

namespace Keyed

variable {κ α : Type} [DecidableEq κ]

theorem put_of_not_mem {key : κ} {value : α} {xs : Keyed κ α} (h : key ∉ keys xs) :
    put key value xs = xs ++ [(key, value)] := by
  induction xs with
  | nil => rfl
  | cons x xs ih =>
    obtain ⟨hx, hs⟩ : key ≠ x.1 ∧ key ∉ keys xs := by simpa [keys] using h
    rw [put, if_neg (Ne.symm hx), ih hs]
    rfl

/-- Pairs with distinct keys are kept as they are. -/
theorem ofPairs_of_nodup {ps : List (κ × α)} (h : (keys ps).Nodup) : ofPairs ps = ps := by
  have hf : ∀ xs : Keyed κ α, (keys (xs ++ ps)).Nodup →
      ps.foldl (fun xs p ↦ put p.1 p.2 xs) xs = xs ++ ps := by
    clear h
    induction ps with
    | nil => simp
    | cons p ps ih =>
      intro xs hx
      have hp : p.1 ∉ keys xs := by
        intro hm
        simp only [keys, List.map_append, List.map_cons] at hx
        exact (List.disjoint_of_nodup_append hx) hm (by simp)
      rw [List.foldl_cons, put_of_not_mem hp, ih (xs ++ [(p.1, p.2)]) (by simpa using hx)]
      simp
  exact hf [] h

theorem isSome_get? {xs : Keyed κ α} {key : κ} (h : key ∈ keys xs) :
    (get? xs key).isSome = true := by
  obtain ⟨⟨k, a⟩, hx, rfl⟩ := List.mem_map.1 h
  exact List.lookup_isSome_iff.2 ⟨(k, a), hx, by simp⟩

end Keyed

/-! ## Declarations -/

namespace Parse

variable {s : Settings} {done : List FieldDecl} {f : FieldDecl} {c d : Cursor}

theorem refuseNoDisplay_eq_ok_iff {as : List Attribute} {u : Unit} :
    refuseNoDisplay s as = .ok u ↔ ∀ a ∈ as, a.name ≠ s.noDisplayName := by
  unfold refuseNoDisplay
  cases h : as.find? (·.name == s.noDisplayName) with
  | none => simpa using h
  | some a =>
    have ha := List.find?_some h
    simpa using ⟨a, List.mem_of_find?_eq_some h, by simpa using ha⟩

theorem refuseRedeclared_eq_ok_iff {name : Ident} {u : Unit} :
    refuseRedeclared done name = .ok u ↔ name.text ∉ done.map FieldDecl.key := by
  unfold refuseRedeclared
  split
  · next h => simpa using h
  · next h => simpa using h

/-- A field of a tuple is keyed by its index. -/
theorem tupleField_eq_ok (h : tupleField s done c = (.ok f, d)) :
    f.key = toString done.length ∧
      ∃ e e', c.Before e ∧ fieldType e = (.ok f.type, e') := by
  obtain ⟨as, e, h₁, h⟩ := bind_eq_ok_iff.1 h
  obtain ⟨type, e', h₂, h⟩ := bind_eq_ok_iff.1 h
  obtain ⟨_, _, -, h⟩ := bind_eq_ok_iff.1 h
  cases h
  have hb := forward_fieldAttributes s c
  rw [h₁] at hb
  exact ⟨rfl, e, e', hb, h₂⟩

/-- A field of a struct is keyed by its name, which no field before it has. -/
theorem structField_eq_ok (h : structField s done c = (.ok f, d)) :
    f.key ∉ done.map FieldDecl.key ∧
      (∃ i e e', c.Before e ∧ readIdent e = (.ok i, e') ∧ i.text = f.key) ∧
      ∃ e e', c.Before e ∧ fieldType e = (.ok f.type, e') := by
  obtain ⟨as, e₁, h₁, h⟩ := bind_eq_ok_iff.1 h
  obtain ⟨i, e₂, h₂, h⟩ := bind_eq_ok_iff.1 h
  obtain ⟨_, e₃, h₃, h⟩ := bind_eq_ok_iff.1 h
  obtain ⟨_, e₄, h₄, h⟩ := bind_eq_ok_iff.1 h
  obtain ⟨type, e₅, h₅, h⟩ := bind_eq_ok_iff.1 h
  obtain ⟨_, _, -, h⟩ := bind_eq_ok_iff.1 h
  cases h
  obtain ⟨hr, rfl⟩ := ofExcept_eq_iff.1 h₃
  have hb₁ := forward_fieldAttributes s c
  have hb₂ := forward_expect .identifier Tree.ident? e₁
  have hb₄ := forward_expect (.text ":") (mark? ":") e₂
  rw [h₁] at hb₁
  rw [show expect .identifier Tree.ident? e₁ = _ from h₂] at hb₂
  rw [show expect (.text ":") (mark? ":") e₂ = _ from h₄] at hb₄
  exact ⟨refuseRedeclared_eq_ok_iff.1 hr, ⟨i, e₁, e₂, hb₁, h₂, rfl⟩, e₄, e₅,
    (hb₁.trans hb₂).trans hb₄, h₅⟩

theorem keys_of_tupleFields {g : Group} {fs : List FieldDecl}
    (h : within g (tupleFields s) = .ok fs) :
    fs.map FieldDecl.key = (List.range fs.length).map toString := by
  obtain ⟨d, h⟩ := within_eq_iff.1 h
  obtain ⟨hr, -⟩ := many_eq_ok_iff.1 h
  apply hr.inv (fun fs _ ↦ fs.map FieldDecl.key = (List.range fs.length).map toString) rfl
  intro fs c f d ih hs
  have hk := (tupleField_eq_ok (ifMore_eq_some_iff.1 hs).2).1
  simp [ih, hk, List.range_succ]

theorem nodup_of_structFields {g : Group} {fs : List FieldDecl}
    (h : within g (structFields s) = .ok fs) : (fs.map FieldDecl.key).Nodup := by
  obtain ⟨d, h⟩ := within_eq_iff.1 h
  obtain ⟨hr, -⟩ := many_eq_ok_iff.1 h
  apply hr.inv (fun fs _ ↦ (fs.map FieldDecl.key).Nodup) List.nodup_nil
  intro fs c f d ih hs
  have hk := (structField_eq_ok (ifMore_eq_some_iff.1 hs).2).1
  rw [List.map_append, List.map_singleton, ← List.concat_eq_append]
  exact ih.concat hk

end Parse

namespace FieldDecl

variable {s : Settings} {g : Group} {shape : Shape} {fs : List FieldDecl}

theorem ofGroup_eq_ok_iff :
    ofGroup s g = .ok (shape, fs) ↔
      (g.delimiter = .paren ∧ shape = .tuple ∧ Parse.within g (Parse.tupleFields s) = .ok fs) ∨
      (g.delimiter = .brace ∧ shape = .struct ∧
        Parse.within g (Parse.structFields s) = .ok fs) := by
  unfold ofGroup
  cases hd : g.delimiter with
  | paren =>
    simp only [Except.map_eq_ok_iff, Prod.mk.injEq, true_and, reduceCtorEq, false_and, or_false]
    constructor
    · rintro ⟨_, h, rfl, rfl⟩
      exact ⟨rfl, h⟩
    · rintro ⟨rfl, h⟩
      exact ⟨fs, h, rfl, rfl⟩
  | brace =>
    simp only [Except.map_eq_ok_iff, Prod.mk.injEq, true_and, reduceCtorEq, false_and, false_or]
    constructor
    · rintro ⟨_, h, rfl, rfl⟩
      exact ⟨rfl, h⟩
    · rintro ⟨rfl, h⟩
      exact ⟨fs, h, rfl, rfl⟩
  | bracket => simp

/-- The keys of declared fields are distinct. -/
theorem nodup_keys (h : ofGroup s g = .ok (shape, fs)) : (fs.map key).Nodup := by
  rcases ofGroup_eq_ok_iff.1 h with ⟨-, -, h⟩ | ⟨-, -, h⟩
  · rw [Parse.keys_of_tupleFields h]
    exact List.nodup_range.map Text.toString_injective
  · exact Parse.nodup_of_structFields h

/-- The table of declared fields holds them in order. -/
theorem table_eq (h : (fs.map key).Nodup) : table fs = fs.map fun f ↦ (f.key, f.type.text) := by
  refine Keyed.ofPairs_of_nodup ?_
  rwa [Keyed.keys, List.map_map]

theorem keys_table (h : (fs.map key).Nodup) : (table fs).keys = fs.map key := by
  rw [table_eq h, Keyed.keys, List.map_map]
  rfl

theorem length_table (h : (fs.map key).Nodup) : (table fs).length = fs.length := by
  rw [table_eq h, List.length_map]

/-! ## Causes -/

/-- A declaration that carries a cause marker. -/
def Marked (s : Settings) (f : FieldDecl) : Prop := ∃ a ∈ f.attributes, a.name ∈ s.causeNames

theorem mem_markers {k : String} {a : Attribute} :
    (k, a) ∈ markers s fs ↔
      ∃ f ∈ fs, f.key = k ∧ a ∈ f.attributes ∧ a.name ∈ s.causeNames := by
  unfold markers
  simp only [List.mem_flatMap, List.mem_map, List.mem_filter, List.contains_iff_mem,
    Prod.mk.injEq]
  constructor
  · rintro ⟨f, hf, a', ⟨ha, hn⟩, rfl, rfl⟩
    exact ⟨f, hf, rfl, ha, hn⟩
  · rintro ⟨f, hf, rfl, ha, hn⟩
    exact ⟨f, hf, a, ⟨ha, hn⟩, rfl, rfl⟩

variable {variant : Ident} {count : Nat} {m m' : CauseMarker} {ms : List (String × Attribute)}

/-- What becomes of the first marker, and of the one behind it. -/
theorem resolve_cons {k : String} {a : Attribute} :
    resolve s variant count {} ((k, a) :: ms) =
      if a.isBare = false then .error (.at a.extent.span (.attributeArguments a.name))
      else if a.name = s.fromName ∧ 1 < count then
        .error (.at variant.extent.span (.conversionArity s.fromName))
      else match ms with
        | [] => .ok (if a.name = s.fromName then .conversion k else .sourceOnly k)
        | (_, b) :: _ =>
          .error (.at b.extent.span (.secondMarker s.fromName s.sourceName k)) := by
  rw [resolve]
  cases hb : a.isBare with
  | false => simp
  | true =>
    by_cases hn : a.name = s.fromName
    · by_cases hc : 1 < count
      · simp [hn, hc]
      · cases ms <;> simp [hn, hc, resolve, CauseMarker.conversion]
    · cases ms <;> simp [hn, resolve, CauseMarker.sourceOnly]

/-- The cause of no marker is none, and that of one marker is its field. -/
theorem resolve_eq_ok_iff :
    resolve s variant count {} ms = .ok m ↔
      (ms = [] ∧ m = {}) ∨ ∃ k a, ms = [(k, a)] ∧ a.isBare = true ∧
        (a.name = s.fromName ∧ count ≤ 1 ∧ m = .conversion k ∨
          a.name ≠ s.fromName ∧ m = .sourceOnly k) := by
  match ms with
  | [] =>
    rw [resolve, Except.ok.injEq]
    simp only [true_and, List.nil_eq, reduceCtorEq, false_and, exists_false, or_false]
    exact eq_comm
  | (k, a) :: ms =>
    rw [resolve_cons]
    cases hb : a.isBare with
    | false => simp [hb]
    | true => cases ms <;> grind

theorem marked_iff_exists_marker {f : FieldDecl} (hf : f ∈ fs) (hn : (fs.map key).Nodup) :
    f.Marked s ↔ ∃ a, (f.key, a) ∈ markers s fs := by
  constructor
  · rintro ⟨a, ha, hs⟩
    exact ⟨a, mem_markers.2 ⟨f, hf, rfl, ha, hs⟩⟩
  · rintro ⟨a, ha⟩
    obtain ⟨f', hf', hk, hs⟩ := mem_markers.1 ha
    obtain rfl := List.inj_on_of_nodup_map hn hf' hf hk
    exact ⟨a, hs⟩

section Cause

variable (h : cause s variant fs = .ok m)
include h

theorem kind_eq_none_iff_of_cause : m.kind = .none ↔ m.key = none := by
  rcases resolve_eq_ok_iff.1 h with ⟨-, rfl⟩ | ⟨k, a, -, -, ⟨-, -, rfl⟩ | ⟨-, rfl⟩⟩
  · exact ⟨fun _ ↦ rfl, fun _ ↦ rfl⟩
  · exact ⟨fun h ↦ (nomatch h), fun h ↦ (nomatch h)⟩
  · exact ⟨fun h ↦ (nomatch h), fun h ↦ (nomatch h)⟩

/-- The key of a cause is that of a marker, and there is no other marker. -/
theorem key_of_cause (k : String) :
    m.key = some k ↔ ∃ a, (k, a) ∈ markers s fs := by
  rcases resolve_eq_ok_iff.1 h with ⟨hm, rfl⟩ | ⟨k', a, hm, -, ⟨-, -, rfl⟩ | ⟨-, rfl⟩⟩
  · simp [hm]
  · simp [hm, CauseMarker.conversion, eq_comm]
  · simp [hm, CauseMarker.sourceOnly, eq_comm]

theorem mem_keys_of_cause {k : String} (hk : m.key = some k) : k ∈ fs.map key := by
  obtain ⟨a, ha⟩ := (key_of_cause h k).1 hk
  obtain ⟨f, hf, rfl, -⟩ := mem_markers.1 ha
  exact List.mem_map_of_mem hf

theorem marked_iff_of_cause (hn : (fs.map key).Nodup) {f : FieldDecl} (hf : f ∈ fs) :
    f.Marked s ↔ m.key = some f.key := by
  rw [key_of_cause h, marked_iff_exists_marker hf hn]

theorem length_of_conversion (hm : m.kind = .conversion) : fs.length = 1 := by
  rcases resolve_eq_ok_iff.1 h with ⟨-, rfl⟩ | ⟨k, a, -, -, ⟨-, hc, rfl⟩ | ⟨-, rfl⟩⟩
  · cases hm
  · have hk : k ∈ fs.map key := mem_keys_of_cause h rfl
    have := List.length_pos_of_mem hk
    rw [List.length_map] at this
    omega
  · cases hm

end Cause

end FieldDecl

end ErrorDerive
