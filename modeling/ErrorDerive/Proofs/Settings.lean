import ErrorDerive.Proofs.Delivery.Json
import ErrorDerive.Proofs.Templates.Pieces
import ErrorDerive.Settings.Document

/-!
# Settings keep their names apart and can be written down

Settings come from the defaults, from a JSON value, or from other settings by changes.  Whichever
way they come, they are valid, so that no name has two roles.  Changes can be written as a JSON
object, and reading the object in any order of its fields makes these changes to the defaults; so
valid settings are read back from all of their options, and from those that are not the default.
-/

namespace ErrorDerive

/-! ## Keyed lists -/

namespace Keyed

variable {κ α : Type} [DecidableEq κ] {xs ys : Keyed κ α} {key : κ}

/-- The value of a key is the one beside it, if no key comes twice. -/
theorem get?_eq_some_iff (h : (keys xs).Nodup) {value : α} :
    get? xs key = some value ↔ (key, value) ∈ xs := by
  induction xs with
  | nil => simp [get?]
  | cons x xs ih =>
    obtain ⟨hx, hn⟩ : x.1 ∉ keys xs ∧ (keys xs).Nodup := by simpa [keys] using h
    have hi : xs.lookup key = some value ↔ (key, value) ∈ xs := ih hn
    rw [get?, List.lookup_cons, List.mem_cons]
    by_cases hk : key = x.1
    · subst hk
      rw [beq_self_eq_true]
      constructor
      · intro hv
        exact .inl (Prod.ext rfl (Option.some.inj hv).symm)
      · rintro (hv | hv)
        · rw [← hv]
        · exact absurd (List.mem_map_of_mem hv) hx
    · rw [beq_false_of_ne hk, hi]
      exact ⟨.inr, fun hv ↦ hv.resolve_left fun he ↦ hk (congrArg Prod.fst he)⟩

/-- The order of distinct keys does not matter. -/
theorem get?_perm (h : xs.Perm ys) (hn : (keys xs).Nodup) : get? xs key = get? ys key := by
  have hm : (keys ys).Nodup := (h.map Prod.fst).nodup_iff.1 hn
  refine Option.ext fun value ↦ ?_
  rw [get?_eq_some_iff hn, get?_eq_some_iff hm, h.mem_iff]

end Keyed

namespace Settings

variable {s t : Settings} {c : Changes}

/-! ## Valid settings -/

/-- A name that can be given a role. -/
def Admissible (a : String) : Prop := Text.isIdentifier a = true ∧ a ≠ "doc"

/-- Some name marks messages, every name can be given a role, and none is given two. -/
structure Valid (s : Settings) : Prop where
  messages : s.messageNames ≠ []
  admissible : ∀ a ∈ s.names, Admissible a
  nodup : s.names.Nodup

/-- Settings as one would propose them. -/
def proposal (s : Settings) : Proposal := s.propose {}

theorem mapM_name_eq_ok_iff {ts : List Text.Loose} {as : List String} :
    ts.mapM name = .ok as ↔ ts = as.map .ofString ∧ ∀ a ∈ as, Admissible a := by
  rw [Template.mapM_eq_ok_iff]
  constructor
  · intro h
    induction h with
    | nil => exact ⟨rfl, fun a ha ↦ absurd ha List.not_mem_nil⟩
    | cons hn _ ih =>
      obtain ⟨rfl, ha⟩ := name_eq_ok_iff.1 hn
      exact ⟨congrArg _ ih.1, List.forall_mem_cons.2 ⟨ha, ih.2⟩⟩
  · rintro ⟨rfl, ha⟩
    rw [List.forall₂_map_left_iff, List.forall₂_same]
    exact fun a h ↦ name_eq_ok_iff.2 ⟨rfl, ha a h⟩

theorem forall_mem_names {P : String → Prop} :
    (∀ a ∈ s.names, P a) ↔
      (∀ a ∈ s.messageNames, P a) ∧ P s.fromName ∧ P s.sourceName ∧ P s.noDisplayName := by
  simp [names, or_imp, forall_and]

/-- A proposal is accepted exactly if it is one of valid settings, and then as these. -/
theorem validate_eq_ok_iff {p : Proposal} : validate p = .ok s ↔ s.Valid ∧ p = s.proposal := by
  unfold validate
  constructor
  · intro h
    split at h
    · cases h
    next he =>
    obtain ⟨ms, hm, h⟩ := Except.bind_eq_ok_iff.1 h
    obtain ⟨f, hf, h⟩ := Except.bind_eq_ok_iff.1 h
    obtain ⟨o, ho, h⟩ := Except.bind_eq_ok_iff.1 h
    obtain ⟨n, hn, h⟩ := Except.bind_eq_ok_iff.1 h
    dsimp only at h
    split at h
    next hd =>
      obtain rfl := Except.ok.inj h
      obtain ⟨hm, hma⟩ := mapM_name_eq_ok_iff.1 hm
      obtain ⟨hf, hfa⟩ := name_eq_ok_iff.1 hf
      obtain ⟨ho, hoa⟩ := name_eq_ok_iff.1 ho
      obtain ⟨hn, hna⟩ := name_eq_ok_iff.1 hn
      refine ⟨⟨?_, forall_mem_names.2 ⟨hma, hfa, hoa, hna⟩, hd⟩, ?_⟩
      · rintro rfl
        exact he (by rw [hm]; rfl)
      · cases p
        cases hm
        cases hf
        cases ho
        cases hn
        rfl
    · cases h
  · rintro ⟨h, rfl⟩
    obtain ⟨hma, hfa, hoa, hna⟩ := forall_mem_names.1 h.admissible
    rw [if_neg]
    · refine Except.bind_eq_ok_iff.2 ⟨_, mapM_name_eq_ok_iff.2 ⟨rfl, hma⟩, ?_⟩
      refine Except.bind_eq_ok_iff.2 ⟨_, name_eq_ok_iff.2 ⟨rfl, hfa⟩, ?_⟩
      refine Except.bind_eq_ok_iff.2 ⟨_, name_eq_ok_iff.2 ⟨rfl, hoa⟩, ?_⟩
      refine Except.bind_eq_ok_iff.2 ⟨_, name_eq_ok_iff.2 ⟨rfl, hna⟩, ?_⟩
      exact if_pos h.nodup
    · intro he
      exact h.messages (List.map_eq_nil_iff.1 (List.isEmpty_iff.1 he))

/-- Changes are made exactly if they lead to valid settings. -/
theorem override_eq_ok_iff : s.override c = .ok t ↔ t.Valid ∧ s.propose c = t.proposal :=
  validate_eq_ok_iff

theorem valid_of_ofJson {j : Json} (h : ofJson j = .ok s) : s.Valid := by
  unfold ofJson at h
  split at h
  · split at h
    · cases h
    split at h
    · obtain ⟨c, -, h⟩ := Except.bind_eq_ok_iff.1 h
      exact (override_eq_ok_iff.1 h).1
    · cases h
  · cases h

/-! ## How settings come about -/

/-- Settings after changes; changes that are refused leave them as they are. -/
def revise (s : Settings) (c : Changes) : Settings :=
  match s.override c with
  | .ok t => t
  | .error _ => s

/-- Settings that the program can come by. -/
inductive Obtained : Settings → Prop
  | construct {c : Changes} {s : Settings} (h : ofChanges c = .ok s) : Obtained s
  | read {j : Json} {s : Settings} (h : ofJson j = .ok s) : Obtained s
  | revise {s : Settings} (h : Obtained s) (c : Changes) : Obtained (s.revise c)

theorem Valid.revise (h : s.Valid) (c : Changes) : (s.revise c).Valid := by
  unfold Settings.revise
  split
  · next ho => exact (override_eq_ok_iff.1 ho).1
  · exact h

theorem Obtained.valid (h : s.Obtained) : s.Valid := by
  induction h with
  | construct h => exact (override_eq_ok_iff.1 h).1
  | read h => exact valid_of_ofJson h
  | revise _ c ih => exact ih.revise c

/-! ## Roles -/

/-- What an attribute is read as because of its name. -/
inductive Role
  | message
  | conversion
  | source
  | noDisplay
  | documentation

/-- The names that attributes are known by, with their roles. -/
def roles (s : Settings) : Keyed String Role :=
  s.messageNames.map (·, .message) ++ [(s.fromName, .conversion), (s.sourceName, .source),
    (s.noDisplayName, .noDisplay), ("doc", .documentation)]

theorem keys_roles (s : Settings) : s.roles.keys = s.names ++ ["doc"] := by
  simp [roles, Keyed.keys, names, Function.comp_def]

/-- In valid settings a name has one role at most. -/
theorem Valid.role_unique (h : s.Valid) {a : String} {r r' : Role} (hr : (a, r) ∈ s.roles)
    (hr' : (a, r') ∈ s.roles) : r = r' := by
  have hn : s.roles.keys.Nodup := by
    rw [keys_roles, List.nodup_append_comm, List.singleton_append, List.nodup_cons]
    exact ⟨fun hm ↦ (h.admissible _ hm).2 rfl, h.nodup⟩
  rw [← Keyed.get?_eq_some_iff hn] at hr hr'
  exact Option.some.inj (hr.symm.trans hr')

/-! ## Settings as an object -/

/-- An option of a given name, if it has a value. -/
def option {α : Type} (key : String) (f : α → Json) (o : Option α) : List (String × Json) :=
  (o.map fun a ↦ (key, f a)).toList

/-- The options that changes set. -/
def Changes.options (c : Changes) : List (String × Json) :=
  option "no_std" .bool c.noStd ++
  option "message_attributes" (fun ts ↦ .array (ts.map .string)) c.messageNames ++
  option "from_attribute" .string c.fromName ++
  option "source_attribute" .string c.sourceName ++
  option "no_display_attribute" .string c.noDisplayName

/-- The fields of an object that stands for changes. -/
def Changes.fields (c : Changes) : Keyed Text.Loose Json :=
  Json.recordFields (("format", .text formatName) :: ("version", .int 0) :: c.options)

theorem lookup_option {α : Type} (o : Option α) (k key : String) (f : α → Json) :
    (option k f o).lookup key = if key = k then o.map f else none := by
  cases o with
  | none => simp [option]
  | some a =>
    by_cases h : key = k
    · simp [option, h]
    · simp [option, List.lookup_cons, beq_false_of_ne h, h]

theorem Changes.sublist_fields (c : Changes) :
    (("format" :: "version" :: c.options.map Prod.fst)).Sublist
      ("format" :: "version" :: optionNames) := by
  have hk : ∀ {α : Type} (k : String) (f : α → Json) (o : Option α),
      ((option k f o).map Prod.fst).Sublist [k] := by
    intro α k f o
    cases o <;> simp [option]
  have ho : (c.options.map Prod.fst).Sublist optionNames := by
    simp only [options, List.map_append]
    exact ((((hk _ _ _).append (hk _ _ _)).append (hk _ _ _)).append (hk _ _ _)).append (hk _ _ _)
  exact (ho.cons_cons _).cons_cons _

theorem Changes.nodup_keys_fields (c : Changes) : (Keyed.keys c.fields).Nodup :=
  Json.nodup_keys_recordFields (c.sublist_fields.nodup (by decide))

theorem mapM_text?_map_string (ts : List Text.Loose) :
    (ts.map Json.string).mapM text? = some ts := by
  induction ts with
  | nil => rfl
  | cons t ts ih => rw [List.map_cons, List.mapM_cons, ih]; rfl

section Fields

variable {fs : Keyed Text.Loose Json} (h : fs.Perm c.fields)

include h

theorem nodup_keys_of_perm : (Keyed.keys fs).Nodup :=
  (h.map Prod.fst).nodup_iff.2 c.nodup_keys_fields

theorem get?_of_perm (key : String) :
    Keyed.get? fs (.ofString key) =
      (("format", Json.text formatName) :: ("version", .int 0) :: c.options).lookup key := by
  rw [Keyed.get?_perm h (nodup_keys_of_perm h), Changes.fields, Json.get?_recordFields]

theorem unknownKeys_of_perm : unknownKeys fs = [] := by
  have hk : ∀ k ∈ Keyed.keys fs,
      k ∈ ("format" :: "version" :: optionNames).map Text.Loose.ofString := by
    intro k hk
    rw [Keyed.keys, (h.map Prod.fst).mem_iff, Changes.fields, Json.recordFields, List.map_map] at hk
    obtain ⟨f, hf, rfl⟩ := List.mem_map.1 hk
    refine List.mem_map_of_mem ?_
    exact c.sublist_fields.subset (List.mem_map_of_mem hf)
  have hf : (Keyed.keys fs).filter (fun k ↦
      !(("format" :: "version" :: optionNames).map Text.Loose.ofString).contains k) = [] := by
    rw [List.filter_eq_nil_iff]
    intro k hm
    rw [List.contains_iff_mem.2 (hk k hm)]
    exact Bool.false_ne_true
  unfold unknownKeys
  dsimp only
  rw [hf, List.mergeSort_nil]

theorem get?_option_of_perm :
    Keyed.get? fs (.ofString "no_std") = c.noStd.map .bool ∧
    Keyed.get? fs (.ofString "message_attributes") =
      c.messageNames.map (fun ts ↦ .array (ts.map .string)) ∧
    Keyed.get? fs (.ofString "from_attribute") = c.fromName.map .string ∧
    Keyed.get? fs (.ofString "source_attribute") = c.sourceName.map .string ∧
    Keyed.get? fs (.ofString "no_display_attribute") = c.noDisplayName.map .string := by
  simp only [get?_of_perm h]
  simp [Changes.options, List.lookup_append, lookup_option, List.lookup_cons]

theorem changesOf_of_perm : changesOf fs = .ok c := by
  obtain ⟨hb, hl, hf, ho, hn⟩ := get?_option_of_perm h
  have hb : boolOption fs "no_std" = .ok c.noStd := by
    rw [boolOption, hb]
    cases c.noStd <;> rfl
  have hl : listOption fs "message_attributes" = .ok c.messageNames := by
    rw [listOption, hl]
    cases c.messageNames with
    | none => rfl
    | some ts => simp only [Option.map_some, mapM_text?_map_string]
  have hs : ∀ {key o}, Keyed.get? fs (.ofString key) = o.map .string →
      stringOption fs key = .ok o := by
    intro key o ho
    rw [stringOption, ho]
    cases o <;> rfl
  rw [changesOf, hb, hl, hs hf, hs ho, hs hn]
  rfl

/-- Changes are read back from their fields, in whatever order these come. -/
theorem ofJson_of_perm : ofJson (.object fs) = ofChanges c := by
  have hf : isFormat (Keyed.get? fs (.ofString "format")) = true := by
    rw [get?_of_perm h]
    rfl
  have hv : isVersionZero (Keyed.get? fs (.ofString "version")) = true := by
    rw [get?_of_perm h]
    rfl
  rw [ofJson, hf, hv, unknownKeys_of_perm h, changesOf_of_perm h]
  rfl

end Fields

/-! ## The options of settings -/

/-- All options of settings. -/
def all (s : Settings) : Changes where
  noStd := some s.noStd
  messageNames := some (s.messageNames.map .ofString)
  fromName := some s.fromName
  sourceName := some s.sourceName
  noDisplayName := some s.noDisplayName

/-- A value other than the default, as it is proposed. -/
def departure? {α β : Type} [DecidableEq α] (propose : α → β) (default value : α) : Option β :=
  if value = default then none else some (propose value)

/-- The options in which settings differ from the default ones. -/
def departures (s : Settings) : Changes :=
  let d : Settings := {}
  { noStd := departure? id d.noStd s.noStd
    messageNames := departure? (List.map .ofString) d.messageNames s.messageNames
    fromName := departure? .ofString d.fromName s.fromName
    sourceName := departure? .ofString d.sourceName s.sourceName
    noDisplayName := departure? .ofString d.noDisplayName s.noDisplayName }

theorem getD_departure? {α β : Type} [DecidableEq α] (propose : α → β) (default value : α) :
    (departure? propose default value).getD (propose default) = propose value := by
  unfold departure?
  split
  · next h => rw [h, Option.getD_none]
  · rfl

/-- What differs from the defaults is enough to get from them to the settings. -/
theorem propose_departures (s : Settings) : ({} : Settings).propose s.departures = s.proposal := by
  rw [propose, proposal, propose, Proposal.mk.injEq]
  exact ⟨getD_departure? _ _ _, getD_departure? _ _ _, getD_departure? _ _ _,
    getD_departure? _ _ _, getD_departure? _ _ _⟩

/-- Changes that lead from the defaults to valid settings are read as these. -/
theorem Valid.ofJson_of_perm (h : s.Valid) (hc : ({} : Settings).propose c = s.proposal)
    {fs : Keyed Text.Loose Json} (hf : fs.Perm c.fields) : ofJson (.object fs) = .ok s := by
  rw [Settings.ofJson_of_perm hf]
  exact override_eq_ok_iff.2 ⟨h, hc⟩

theorem Valid.obtained (h : s.Valid) : s.Obtained :=
  .construct (c := s.all) (override_eq_ok_iff.2 ⟨h, rfl⟩)

/-- One step of changes: the proposed settings if they are valid, and else the old ones. -/
theorem revise_eq_iff : s.revise c = t ↔
    (t.Valid ∧ s.propose c = t.proposal) ∨
      (t = s ∧ ∀ u : Settings, u.Valid → s.propose c ≠ u.proposal) := by
  simp only [← override_eq_ok_iff]
  cases h : s.override c with
  | ok u =>
    have hr : s.revise c = u := by rw [Settings.revise, h]
    rw [hr]
    constructor
    · rintro rfl
      exact .inl rfl
    · rintro (he | ⟨-, hn⟩)
      · exact Except.ok.inj he
      · obtain ⟨hu, hp⟩ := override_eq_ok_iff.1 h
        exact absurd hp (hn u hu)
  | error f =>
    have hr : s.revise c = s := by rw [Settings.revise, h]
    rw [hr]
    constructor
    · rintro rfl
      refine .inr ⟨rfl, fun u hu hp ↦ ?_⟩
      rw [override_eq_ok_iff.2 ⟨hu, hp⟩] at h
      cases h
    · rintro (he | ⟨rfl, -⟩)
      · cases he
      · rfl

/-- The settings that the program comes by are the valid ones.  Changes take effect exactly if they
lead to valid settings.  In valid settings no name has two roles, and they are read back from an
object of all options, or of those that are not the default, in any order. -/
theorem obtained_and_reread (s : Settings) :
    (s.Obtained ↔ s.Valid) ∧
      (∀ c t, s.revise c = t ↔
        (t.Valid ∧ s.propose c = t.proposal) ∨
          (t = s ∧ ∀ u : Settings, u.Valid → s.propose c ≠ u.proposal)) ∧
      (s.Valid →
        (∀ a r r', (a, r) ∈ s.roles → (a, r') ∈ s.roles → r = r') ∧
          (∀ fs, fs.Perm s.all.fields → ofJson (.object fs) = .ok s) ∧
          ∀ fs, fs.Perm s.departures.fields → ofJson (.object fs) = .ok s) :=
  ⟨⟨Obtained.valid, Valid.obtained⟩, fun _ _ ↦ revise_eq_iff, fun h ↦
    ⟨fun _ _ _ ↦ h.role_unique, fun _ ↦ h.ofJson_of_perm rfl,
      fun _ ↦ h.ofJson_of_perm s.propose_departures⟩⟩

/-- Settings in which two names have changed places. -/
def exchanged : Settings where
  noStd := true
  messageNames := ["source", "не"]
  sourceName := "error"

/-- The exchanged settings can be had, and are read back; a name that they use is not given away
a second time. -/
theorem obtained_and_reread_exchanged :
    exchanged.Obtained ∧
      ofJson (.record [("source_attribute", .text "error"),
        ("message_attributes", .array [.text "source", .text "не"]), ("no_std", .bool true),
        ("version", .int 0), ("format", .text "onlyerror-config")]) = .ok exchanged ∧
      exchanged.revise { noDisplayName := some "source" } = exchanged := by
  have hv : exchanged.Valid :=
    ⟨by decide, forall_mem_names.2 (by unfold Admissible; decide +kernel), by decide⟩
  have he : exchanged.override { noDisplayName := some "source" } = .error .repeatedName := by
    decide +kernel
  obtain ⟨ho, hs, hr⟩ := obtained_and_reread exchanged
  obtain ⟨-, -, hd⟩ := hr hv
  refine ⟨ho.2 hv, hd _ (List.reverse_perm exchanged.departures.fields), ?_⟩
  refine (hs _ _).2 (.inr ⟨rfl, fun u hu hp ↦ ?_⟩)
  cases he.symm.trans (override_eq_ok_iff.2 ⟨hu, hp⟩)

end Settings

end ErrorDerive
