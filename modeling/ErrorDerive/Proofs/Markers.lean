import ErrorDerive.Proofs.Parsing.Fields
import Mathlib.Data.List.Flatten

/-!
# Cause markers

The attributes of a field list may mark one cause: with a single bare attribute, which may ask for
a conversion only in a list of one field.  The cause of a list exists exactly if its markers are
legal in this sense (`FieldDecl.cause_of_markers`), and the refusal of a second marker names the
field of the first.  Two marked fields are always refused, but for the second marker only if nothing
is wrong with the first (`FieldDecl.refusesSecond_iff`).
-/

namespace ErrorDerive

namespace FieldDecl

/-- The attributes of fields that mark a cause, in the order of their declaration. -/
def markerAttributes (s : Settings) (fs : List FieldDecl) : List Attribute :=
  (fs.flatMap attributes).filter (·.name ∈ s.causeNames)

/-- Fields whose markers are legal. -/
structure LegallyMarked (s : Settings) (fs : List FieldDecl) : Prop where
  once : (markerAttributes s fs).length ≤ 1
  bare : ∀ a ∈ markerAttributes s fs, a.isBare = true
  alone : ∀ a ∈ markerAttributes s fs, a.name = s.fromName → fs.length = 1

/-- The cause that the markers of fields ask for: the field that carries one.  A name with both
roles, which no valid settings have, asks for a conversion. -/
structure Marks (s : Settings) (fs : List FieldDecl) (m : CauseMarker) : Prop where
  none : markerAttributes s fs = [] → m = {}
  conversion : ∀ f ∈ fs, ∀ a ∈ f.attributes, a.name = s.fromName → m = .conversion f.key
  sourceOnly : s.fromName ≠ s.sourceName →
    ∀ f ∈ fs, ∀ a ∈ f.attributes, a.name = s.sourceName → m = .sourceOnly f.key

/-- The refusal of a second marker: it stands at that marker and names the first field that carries
one. -/
structure RefusesSecond (s : Settings) (fs : List FieldDecl) (x : Failure) : Prop where
  first : ∃ before f behind, fs = before ++ f :: behind ∧ (∀ g ∈ before, ¬g.Marked s) ∧
    f.Marked s ∧ x.cause = .secondMarker s.fromName s.sourceName f.key
  second : ∃ a b rest, markerAttributes s fs = a :: b :: rest ∧ x.span = b.extent.span

variable {s : Settings} {variant : Ident} {count : Nat} {fs : List FieldDecl} {m : CauseMarker}
  {k : String} {a : Attribute} {ms : List (String × Attribute)} {x : Failure}

/-! ## Markers and their fields -/

theorem map_snd_markers : (markers s fs).map Prod.snd = markerAttributes s fs := by
  simp only [markers, markerAttributes, List.map_flatMap, List.map_map, List.filter_flatMap]
  refine congrArg (List.flatMap · fs) (funext fun f ↦ ?_)
  simp [Function.comp_def]

/-- The first marker is on the first field that carries one. -/
theorem exists_first_of_markers (h : markers s fs = (k, a) :: ms) :
    ∃ before f behind, fs = before ++ f :: behind ∧ (∀ g ∈ before, ¬g.Marked s) ∧
      f.Marked s ∧ f.key = k := by
  induction fs with
  | nil => cases h
  | cons f fs ih =>
    by_cases hf : f.Marked s
    · refine ⟨[], f, fs, rfl, by simp, hf, ?_⟩
      obtain ⟨b, hb, hn⟩ := hf
      have hm : (f.attributes.filter (s.causeNames.contains ·.name)) ≠ [] :=
        List.ne_nil_of_mem (List.mem_filter.2 ⟨hb, by simpa using hn⟩)
      obtain ⟨b', bs, hbs⟩ := List.exists_cons_of_ne_nil hm
      rw [markers, List.flatMap_cons, hbs] at h
      exact congrArg Prod.fst (List.cons.inj h).1
    · have hm : f.attributes.filter (s.causeNames.contains ·.name) = [] := by
        refine List.filter_eq_nil_iff.2 fun b hb hn ↦ hf ⟨b, hb, by simpa using hn⟩
      rw [markers, List.flatMap_cons, hm] at h
      obtain ⟨before, g, behind, rfl, hg, hx⟩ := ih h
      exact ⟨f :: before, g, behind, rfl, by simpa using ⟨hf, hg⟩, hx⟩

/-! ## Resolving markers -/

/-- A second marker is refused where it stands, with the key of the field that has the first. -/
theorem exists_second_of_resolve (h : resolve s variant count {} ms = .error (.failure x))
    (hx : x.cause.category = .duplicateCauseMarker) :
    ∃ k a y ms', ms = (k, a) :: y :: ms' ∧ x.span = y.2.extent.span ∧
      x.cause = .secondMarker s.fromName s.sourceName k := by
  cases ms with
  | nil => cases h
  | cons y ms =>
    obtain ⟨k, a⟩ := y
    rw [resolve_cons] at h
    split at h
    · cases h
      cases hx
    · split at h
      · cases h
        cases hx
      · split at h
        · cases h
        · cases h
          exact ⟨k, a, _, _, rfl, rfl, rfl⟩

theorem mem_markerAttributes :
    a ∈ markerAttributes s fs ↔ ∃ f ∈ fs, a ∈ f.attributes ∧ a.name ∈ s.causeNames := by
  simp only [markerAttributes, List.mem_filter, List.mem_flatMap, decide_eq_true_eq]
  grind

/-- The cause of fields is what their markers ask for. -/
theorem marks_of_cause (h : cause s variant fs = .ok m) : Marks s fs m := by
  have hk : ∀ {n}, n ∈ s.causeNames → ∀ f ∈ fs, ∀ b ∈ f.attributes, b.name = n →
      (f.key, b) ∈ markers s fs := by
    rintro _ hn f hf b hb rfl
    exact mem_markers.2 ⟨f, hf, rfl, hb, hn⟩
  have hfrom := hk (List.mem_cons_self : s.fromName ∈ s.causeNames)
  have hsource := hk (by simp [Settings.causeNames] : s.sourceName ∈ s.causeNames)
  rcases resolve_eq_ok_iff.1 h with ⟨hm, rfl⟩ | ⟨k, a, hm, -, hx⟩
  · rw [hm] at hfrom hsource
    refine ⟨fun _ ↦ rfl, fun f hf b hb hn ↦ ?_, fun _ f hf b hb hn ↦ ?_⟩
    · cases hfrom f hf b hb hn
    · cases hsource f hf b hb hn
  · -- The marker of a field is the one that was resolved, because there is no other.
    rw [hm] at hfrom hsource
    refine ⟨fun hn ↦ ?_, fun f hf b hb hn ↦ ?_, fun hs f hf b hb hn ↦ ?_⟩
    · simp [← map_snd_markers, hm] at hn
    · obtain ⟨rfl, rfl⟩ := Prod.mk.inj (List.mem_singleton.1 (hfrom f hf b hb hn))
      exact (hx.resolve_right fun h ↦ h.1 hn).2.2
    · obtain ⟨rfl, rfl⟩ := Prod.mk.inj (List.mem_singleton.1 (hsource f hf b hb hn))
      exact (hx.resolve_left fun h ↦ hs (h.1.symm.trans hn)).2

/-- Fields are accepted exactly if they are legally marked. -/
theorem exists_cause_iff : (∃ m, cause s variant fs = .ok m) ↔ LegallyMarked s fs := by
  have hl : (markers s fs).map Prod.snd = markerAttributes s fs := map_snd_markers
  have hp : ∀ a ∈ markerAttributes s fs, 1 ≤ fs.length := by
    intro a ha
    obtain ⟨f, hf, -⟩ := mem_markerAttributes.1 ha
    exact List.length_pos_of_mem hf
  constructor
  · rintro ⟨m, h⟩
    rcases resolve_eq_ok_iff.1 h with ⟨hm, -⟩ | ⟨k, a, hm, hb, hx⟩
    · rw [hm] at hl
      exact ⟨by simp [← hl], by simp [← hl], by simp [← hl]⟩
    · rw [hm, List.map_singleton] at hl
      rw [← hl] at hp
      refine ⟨by simp [← hl], by simpa [← hl] using hb, fun b hb' hn ↦ ?_⟩
      obtain rfl : b = a := by simpa [← hl] using hb'
      have hle : fs.length ≤ 1 := (hx.resolve_right fun h ↦ h.1 hn).2.1
      exact Nat.le_antisymm hle (hp b (by simp))
  · rintro ⟨hone, hbare, halone⟩
    rw [← hl] at hone hbare halone
    rw [List.length_map] at hone
    match hm : markers s fs with
    | [] => exact ⟨{}, resolve_eq_ok_iff.2 (.inl ⟨hm, rfl⟩)⟩
    | [(k, a)] =>
      rw [hm] at hbare halone
      have hb := hbare a (by simp)
      by_cases hn : a.name = s.fromName
      · have hle := Nat.le_of_eq (halone a (by simp) hn)
        exact ⟨.conversion k, resolve_eq_ok_iff.2 (.inr ⟨k, a, hm, hb, .inl ⟨hn, hle, rfl⟩⟩)⟩
      · exact ⟨.sourceOnly k, resolve_eq_ok_iff.2 (.inr ⟨k, a, hm, hb, .inr ⟨hn, rfl⟩⟩)⟩
    | _ :: _ :: _ =>
      rw [hm] at hone
      simp at hone

theorem refusesSecond_of_cause (h : cause s variant fs = .error (.failure x))
    (hx : x.cause.category = .duplicateCauseMarker) : RefusesSecond s fs x := by
  obtain ⟨k, a, y, ms, hm, hs, hc⟩ := exists_second_of_resolve h hx
  refine ⟨?_, a, y.2, ms.map Prod.snd, by rw [← map_snd_markers, hm]; rfl, hs⟩
  obtain ⟨before, f, behind, he, hb, hf, rfl⟩ := exists_first_of_markers hm
  exact ⟨before, f, behind, he, hb, hf, hc⟩

/-- Fields have a cause exactly if their markers are legal; it is what the markers ask for.  A
refusal because of a second marker is at that marker and names the first field with one. -/
theorem cause_of_markers (s : Settings) (variant : Ident) (fs : List FieldDecl) :
    ((∃ m, cause s variant fs = .ok m) ↔ LegallyMarked s fs) ∧
      (∀ m, cause s variant fs = .ok m → Marks s fs m) ∧
        ∀ x, cause s variant fs = .error (.failure x) →
          x.cause.category = .duplicateCauseMarker → RefusesSecond s fs x :=
  ⟨exists_cause_iff, fun _ ↦ marks_of_cause, fun _ ↦ refusesSecond_of_cause⟩

/-! ## Two marked fields -/

/-- A declaration that carries a cause marker without arguments. -/
def MarkedBare (s : Settings) (f : FieldDecl) : Prop :=
  ∃ a ∈ f.attributes, a.name ∈ s.causeNames ∧ a.isBare = true

theorem MarkedBare.marked {f : FieldDecl} (h : f.MarkedBare s) : f.Marked s := by
  obtain ⟨a, ha, hn, -⟩ := h
  exact ⟨a, ha, hn⟩

theorem markers_ne_nil_of_marked {f : FieldDecl} (h : f.Marked s) : markers s [f] ≠ [] := by
  obtain ⟨a, ha, hn⟩ := h
  exact List.ne_nil_of_mem (mem_markers.2 ⟨f, List.mem_singleton_self f, rfl, ha, hn⟩)

/-- Two marked fields, wherever they stand in a list, make two markers. -/
theorem exists_markers_of_two {f g : FieldDecl} (h : [f, g].Sublist fs) (hf : f.Marked s)
    (hg : g.Marked s) : ∃ x y ms, markers s fs = x :: y :: ms := by
  have hs : (markers s [f] ++ markers s [g]).Sublist (markers s fs) := by
    simpa [markers] using h.flatMap fun f ↦
      (f.attributes.filter (s.causeNames.contains ·.name)).map fun a ↦ (f.key, a)
  have hl : 2 ≤ (markers s fs).length := by
    have hx := List.length_pos_iff.2 (markers_ne_nil_of_marked hf)
    have hy := List.length_pos_iff.2 (markers_ne_nil_of_marked hg)
    have hle := hs.length_le
    rw [List.length_append] at hle
    omega
  match hm : markers s fs with
  | x :: y :: ms => exact ⟨x, y, ms, rfl⟩
  | [_] => simp [hm] at hl
  | [] => simp [hm] at hl

theorem RefusesSecond.category (h : RefusesSecond s fs x) :
    x.cause.category = .duplicateCauseMarker := by
  obtain ⟨_, _, _, -, -, -, hc⟩ := h.first
  rw [hc]
  rfl

theorem exists_refusesSecond_iff :
    (∃ x, cause s variant fs = .error (.failure x) ∧ RefusesSecond s fs x) ↔
      ∃ x, cause s variant fs = .error (.failure x) ∧
        x.cause.category = .duplicateCauseMarker :=
  exists_congr fun _ ↦ and_congr_right fun h ↦
    ⟨RefusesSecond.category, refusesSecond_of_cause h⟩

/-- Which of the refusals two marked fields meet with depends on the first marker alone.  The second
marker is refused, with the name of the first marked field, exactly if the first one is bare and
does not ask for a conversion; otherwise the first marker is refused, whatever follows it. -/
theorem refusesSecond_iff {f g : FieldDecl} (h : [f, g].Sublist fs) (hf : f.MarkedBare s)
    (hg : g.MarkedBare s) (variant : Ident) :
    ∃ first second rest, markerAttributes s fs = first :: second :: rest ∧
      ((∃ x, cause s variant fs = .error (.failure x) ∧ RefusesSecond s fs x) ↔
        first.isBare = true ∧ first.name ≠ s.fromName) ∧
      (cause s variant fs = .error (.at variant.extent.span (.conversionArity s.fromName)) ↔
        first.isBare = true ∧ first.name = s.fromName) ∧
      (cause s variant fs = .error (.at first.extent.span (.attributeArguments first.name)) ↔
        first.isBare = false) := by
  obtain ⟨⟨k, a⟩, ⟨k', b⟩, ms, hm⟩ := exists_markers_of_two h hf.marked hg.marked
  have hc : 1 < fs.length := h.length_le
  refine ⟨a, b, ms.map Prod.snd, by rw [← map_snd_markers, hm]; rfl, ?_⟩
  rw [exists_refusesSecond_iff, cause, hm, resolve_cons]
  by_cases hb : a.isBare = false
  · -- arguments of the first marker are refused before anything else is looked at
    rw [if_pos hb]
    simp [hb, Refusal.at, Cause.category]
  · by_cases hn : a.name = s.fromName
    · -- so is a conversion, because the list has two fields
      rw [if_neg hb, if_pos ⟨hn, hc⟩]
      simp [hb, hn, Refusal.at, Cause.category]
    · rw [if_neg hb, if_neg fun hx ↦ hn hx.1]
      simp [hb, hn, Refusal.at, Cause.category]

/-- The first field of `(#[from] A, #[source] B)`. -/
def conversionField : FieldDecl where
  key := "0"
  type := ⟨"A", ⟨none, ⟨9, 1, 10⟩, ⟨10, 1, 11⟩⟩⟩
  attributes := [{ name := "from", extent := ⟨none, ⟨3, 1, 4⟩, ⟨7, 1, 8⟩⟩ }]
  extent := ⟨none, ⟨9, 1, 10⟩, ⟨10, 1, 11⟩⟩

/-- The second field of `(#[from] A, #[source] B)`. -/
def sourceField : FieldDecl where
  key := "1"
  type := ⟨"B", ⟨none, ⟨22, 1, 23⟩, ⟨23, 1, 24⟩⟩⟩
  attributes := [{ name := "source", extent := ⟨none, ⟨14, 1, 15⟩, ⟨20, 1, 21⟩⟩ }]
  extent := ⟨none, ⟨22, 1, 23⟩, ⟨23, 1, 24⟩⟩

/-- In front of another marker a conversion is refused for the number of fields. -/
theorem refusesSecond_iff_conversion_first :
    conversionField.MarkedBare {} ∧ sourceField.MarkedBare {} ∧
      cause {} ⟨.endOf none [], "V"⟩ [conversionField, sourceField] =
        .error (.at (Extent.endOf none []).span (.conversionArity "from")) ∧
      ¬ ∃ x, cause {} ⟨.endOf none [], "V"⟩ [conversionField, sourceField] = .error (.failure x) ∧
        RefusesSecond {} [conversionField, sourceField] x := by
  have hf : conversionField.MarkedBare {} := ⟨_, List.mem_singleton_self _, by decide, rfl⟩
  have hg : sourceField.MarkedBare {} := ⟨_, List.mem_singleton_self _, by decide, rfl⟩
  obtain ⟨a, b, rest, hm, hs, hc, -⟩ :=
    refusesSecond_iff (List.Sublist.refl _) hf hg ⟨.endOf none [], "V"⟩
  have ha : markerAttributes {} [conversionField, sourceField] =
      conversionField.attributes ++ sourceField.attributes := by
    simp [markerAttributes, conversionField, sourceField, Settings.causeNames]
  obtain rfl : { name := "from", extent := ⟨none, ⟨3, 1, 4⟩, ⟨7, 1, 8⟩⟩ } = a :=
    (List.cons.inj (ha.symm.trans hm)).1
  exact ⟨hf, hg, hc.2 ⟨rfl, rfl⟩, fun hx ↦ (hs.1 hx).2 rfl⟩

end FieldDecl

end ErrorDerive
