import ErrorDerive.Expansion
import ErrorDerive.Proofs.Parsing.Items

/-!
# When there is no expansion

Every failure to read an item is reported, with one exception: an index in the message of a tuple
variant that has more digits than numbers may have.  `exists_expansion_iff` says exactly for which
texts that happens.
-/

namespace ErrorDerive

/-- An outcome that is no refusal without a diagnostic. -/
def Diagnosed {α : Type} (x : Except Refusal α) : Prop := ∀ l, x ≠ .error (.limit l)

section

variable {α β : Type}

theorem diagnosed_ok (a : α) : Diagnosed (.ok a) := fun _ h ↦ nomatch h

theorem diagnosed_at (span : Span) (cause : Cause) :
    Diagnosed (.error (.at span cause) : Except Refusal α) := fun _ h ↦ nomatch h

theorem Diagnosed.bind {x : Except Refusal α} {f : α → Except Refusal β} (hx : Diagnosed x)
    (hf : ∀ a, Diagnosed (f a)) : Diagnosed (x >>= f) := by
  intro l h
  rcases Except.bind_eq_error_iff.1 h with h | ⟨a, -, h⟩
  · exact hx l h
  · exact hf a l h

theorem Diagnosed.map {x : Except Refusal α} (hx : Diagnosed x) (f : α → β) :
    Diagnosed (x.map f) := by
  intro l h
  cases x with
  | error e => cases h; exact hx l rfl
  | ok a => cases h

end

/-! ## Steps -/

namespace Parse

variable {α β : Type}

/-- A step all of whose refusals are reported. -/
def Diagnosed (m : Parse α) : Prop := ∀ c, ErrorDerive.Diagnosed (m c).1

theorem diagnosed_pure (a : α) : Diagnosed (pure a) := fun _ ↦ diagnosed_ok a

theorem diagnosed_fail (cause : Cause) (span : Span) : Diagnosed (fail cause span : Parse α) :=
  fun _ ↦ diagnosed_at _ _

theorem diagnosed_failHere (cause : Cause) : Diagnosed (failHere cause : Parse α) :=
  fun _ ↦ diagnosed_at _ _

theorem diagnosed_unexpected (what : Expectation) : Diagnosed (unexpected what : Parse α) :=
  fun _ ↦ diagnosed_at _ _

theorem diagnosed_ofExcept {x : Except Refusal α} (h : ErrorDerive.Diagnosed x) :
    Diagnosed (ofExcept x) := fun _ ↦ h

theorem diagnosed_eat (view : Tree → Option α) : Diagnosed (eat view) := by
  intro c
  unfold eat
  split
  · exact diagnosed_ok _
  · exact diagnosed_ok _

theorem diagnosed_expect (what : Expectation) (view : Tree → Option α) :
    Diagnosed (expect what view) := by
  intro c
  unfold expect
  split
  · exact diagnosed_unexpected what c
  · exact diagnosed_ok _

theorem diagnosed_expectEnd : Diagnosed expectEnd := by
  intro c
  unfold expectEnd
  split
  · exact diagnosed_ok _
  · exact diagnosed_at _ _

theorem Diagnosed.bind {m : Parse α} {f : α → Parse β} (hm : m.Diagnosed)
    (hf : ∀ a, (f a).Diagnosed) : (m >>= f).Diagnosed := by
  intro c
  rw [bind_apply]
  have h := hm c
  rcases hc : m c with ⟨r | a, d⟩
  · rw [hc] at h
    intro l e
    cases e
    exact h l rfl
  · exact hf a d

theorem Diagnosed.within {m : Parse α} (hm : m.Diagnosed) (g : Group) :
    ErrorDerive.Diagnosed (within g m) := hm _

theorem diagnosed_collect {step : List α → Parse (Option α)} {h : ∀ done, (step done).Yields}
    (hs : ∀ done, (step done).Diagnosed) : Diagnosed (collect step h []) := by
  intro c l e
  obtain ⟨xs, d, -, he⟩ := collect_eq_error_iff.1 (Prod.ext e rfl)
  exact hs xs d l (by rw [he])

theorem diagnosed_many {step : List α → Parse α} {h : ∀ done, (step done).Reads}
    (hs : ∀ done, (step done).Diagnosed) : Diagnosed (many step h) := by
  intro c l e
  obtain ⟨xs, d, -, -, he⟩ := many_eq_error_iff.1 (Prod.ext e rfl)
  exact hs xs d l (by rw [he])

/-! ## Attributes -/

theorem diagnosed_litValue (l : Lit) : ErrorDerive.Diagnosed (litValue l) := by
  intro x h
  unfold litValue at h
  cases hv : l.value with
  | error e => rw [hv] at h; cases h
  | ok v => rw [hv] at h; cases h

theorem diagnosed_readString : Diagnosed readString := by
  intro c
  unfold readString
  split
  · exact diagnosed_unexpected _ c
  · next l _ =>
    split
    · exact diagnosed_ok _
    · next h =>
      intro x e
      cases e
      exact diagnosed_litValue l x h

theorem diagnosed_segment : Diagnosed segment := by
  apply (diagnosed_eat _).bind
  intro r
  cases r with
  | none => exact diagnosed_pure _
  | some _ =>
    exact (diagnosed_expect _ _).bind fun _ ↦ (diagnosed_expect _ _).bind fun _ ↦ diagnosed_pure _

theorem diagnosed_path : Diagnosed path :=
  (diagnosed_expect _ _).bind fun _ ↦
    (diagnosed_collect fun _ ↦ diagnosed_segment).bind fun _ ↦ diagnosed_pure _

theorem diagnosed_docValue (name : String) (l : Lit) : ErrorDerive.Diagnosed (docValue name l) := by
  unfold docValue
  split
  · exact (diagnosed_litValue l).map _
  · exact diagnosed_ok _

theorem diagnosed_attributeContent : Diagnosed attributeContent := by
  refine diagnosed_path.bind fun p ↦ (diagnosed_eat _).bind fun g ↦ ?_
  cases g with
  | some g => exact diagnosed_expectEnd.bind fun _ ↦ diagnosed_pure _
  | none =>
    apply (diagnosed_eat _).bind
    intro q
    cases q with
    | none => exact diagnosed_expectEnd.bind fun _ ↦ diagnosed_pure _
    | some _ =>
      exact (diagnosed_expect _ _).bind fun v ↦
        (diagnosed_ofExcept (diagnosed_docValue _ v)).bind fun _ ↦
          diagnosed_expectEnd.bind fun _ ↦ diagnosed_pure _

theorem diagnosed_noInner : Diagnosed noInner := by
  intro c
  unfold noInner
  split
  · split
    · exact diagnosed_failHere _ c
    · exact diagnosed_ok _
  · exact diagnosed_ok _

theorem diagnosed_attribute? : Diagnosed attribute? := by
  apply (diagnosed_eat _).bind
  intro a
  cases a with
  | some a => exact diagnosed_pure _
  | none =>
    apply (diagnosed_eat _).bind
    intro p
    cases p with
    | none => exact diagnosed_pure _
    | some _ =>
      refine Diagnosed.bind ?_ fun _ ↦ diagnosed_pure _
      exact diagnosed_noInner.bind fun _ ↦ (diagnosed_expect _ _).bind fun g ↦
        diagnosed_ofExcept (diagnosed_attributeContent.within g)

theorem diagnosed_attributes : Diagnosed attributes :=
  diagnosed_collect fun _ ↦ diagnosed_attribute?

theorem diagnosed_visibility : Diagnosed visibility := by
  apply (diagnosed_eat _).bind
  intro i
  cases i with
  | none => exact diagnosed_pure _
  | some i =>
    apply (diagnosed_eat _).bind
    intro g
    cases g with
    | none => exact diagnosed_pure _
    | some g => exact diagnosed_pure _

/-! ## Fields -/

theorem diagnosed_fieldAttributes (s : Settings) : Diagnosed (fieldAttributes s) := by
  refine diagnosed_attributes.bind fun as ↦ Diagnosed.bind ?_ fun _ ↦ diagnosed_pure _
  refine diagnosed_ofExcept ?_
  unfold refuseNoDisplay
  split
  · exact diagnosed_at _ _
  · exact diagnosed_ok _

theorem diagnosed_typeOfRun (r : AngleRun) : Diagnosed (typeOfRun r) := by
  unfold typeOfRun
  split
  · exact diagnosed_failHere _
  · exact diagnosed_unexpected _
  · exact diagnosed_pure _
  · exact diagnosed_fail _ _

theorem diagnosed_fieldType : Diagnosed fieldType := fun _ ↦ diagnosed_typeOfRun _ _

theorem diagnosed_tupleField (s : Settings) (done : List FieldDecl) :
    Diagnosed (tupleField s done) :=
  (diagnosed_fieldAttributes s).bind fun _ ↦ diagnosed_fieldType.bind fun _ ↦
    (diagnosed_eat _).bind fun _ ↦ diagnosed_pure _

theorem diagnosed_refuseRedeclared (done : List FieldDecl) (name : Ident) :
    ErrorDerive.Diagnosed (refuseRedeclared done name) := by
  unfold refuseRedeclared
  split
  · exact diagnosed_at _ _
  · exact diagnosed_ok _

theorem diagnosed_structField (s : Settings) (done : List FieldDecl) :
    Diagnosed (structField s done) :=
  (diagnosed_fieldAttributes s).bind fun _ ↦ (diagnosed_expect _ _).bind fun name ↦
    (diagnosed_ofExcept (diagnosed_refuseRedeclared done name)).bind fun _ ↦
      (diagnosed_expect _ _).bind fun _ ↦ diagnosed_fieldType.bind fun _ ↦
        (diagnosed_eat _).bind fun _ ↦ diagnosed_pure _

theorem diagnosed_fieldDecls (s : Settings) (g : Group) :
    ErrorDerive.Diagnosed (FieldDecl.ofGroup s g) := by
  unfold FieldDecl.ofGroup
  split
  · exact ((diagnosed_many fun _ ↦ diagnosed_tupleField s _).within g).map _
  · exact ((diagnosed_many fun _ ↦ diagnosed_structField s _).within g).map _
  · exact diagnosed_at _ _

theorem diagnosed_resolve (s : Settings) (variant : Ident) (count : Nat) (m : CauseMarker)
    (ms : List (String × Attribute)) :
    ErrorDerive.Diagnosed (FieldDecl.resolve s variant count m ms) := by
  fun_induction FieldDecl.resolve s variant count m ms with
  | case1 => exact diagnosed_ok _
  | case2 => exact diagnosed_at _ _
  | case3 => exact diagnosed_at _ _
  | case4 => exact diagnosed_at _ _
  | case5 => assumption
  | case6 => assumption

theorem diagnosed_fieldList (s : Settings) (name : Ident) : Diagnosed (fieldList s name) := by
  apply (diagnosed_eat _).bind
  intro g
  cases g with
  | none => exact diagnosed_pure _
  | some g =>
    exact diagnosed_ofExcept ((diagnosed_fieldDecls s g).bind fun _ ↦
      (diagnosed_resolve _ _ _ _ _).bind fun _ ↦ diagnosed_ok _)

/-! ## Heads -/

theorem diagnosed_refuseOnVariant (s : Settings) (as : List Attribute) (name : Ident) :
    ErrorDerive.Diagnosed (refuseOnVariant s as name) := by
  unfold refuseOnVariant
  split
  · exact diagnosed_at _ _
  · exact diagnosed_ok _

theorem diagnosed_variantHead (s : Settings) : Diagnosed (variantHead s) :=
  diagnosed_attributes.bind fun as ↦ (diagnosed_expect _ _).bind fun name ↦
    (diagnosed_ofExcept (diagnosed_refuseOnVariant s as name)).bind fun _ ↦
      (diagnosed_fieldList s name).bind fun _ ↦ (diagnosed_eat _).bind fun _ ↦ diagnosed_pure _

theorem diagnosed_noDisplayFrom (s : Settings) (seen : Bool) (as : List Attribute) :
    ErrorDerive.Diagnosed (Attribute.noDisplayFrom s seen as) := by
  fun_induction Attribute.noDisplayFrom s seen as with
  | case1 => exact diagnosed_ok _
  | case2 => exact diagnosed_at _ _
  | case3 => exact diagnosed_at _ _
  | case4 => assumption
  | case5 => assumption

theorem diagnosed_itemHead (s : Settings) : Diagnosed (itemHead s) :=
  diagnosed_attributes.bind fun as ↦
    (diagnosed_ofExcept (diagnosed_noDisplayFrom s false as)).bind fun _ ↦
      diagnosed_visibility.bind fun _ ↦ (diagnosed_expect _ _).bind fun _ ↦
        (diagnosed_expect _ _).bind fun _ ↦ (diagnosed_expect _ _).bind fun _ ↦ diagnosed_pure _

theorem diagnosed_nothingMore : Diagnosed nothingMore := by
  intro c
  unfold nothingMore
  split
  · exact diagnosed_ok _
  · exact diagnosed_at _ _

end Parse

theorem Definition.diagnosed_check (vs : List Variant) : Diagnosed (Definition.check vs) := by
  refine Diagnosed.bind ?_ fun _ ↦ ?_
  · unfold checkMessages
    split
    · exact diagnosed_ok _
    · exact diagnosed_at _ _
  · fun_induction checkNames vs with
    | case1 => exact diagnosed_ok _
    | case2 => exact diagnosed_at _ _
    | case3 => assumption

/-! ## Messages -/

namespace Attribute

theorem diagnosed_messageText (a : Attribute) : Diagnosed a.messageText := by
  unfold messageText
  split
  · split
    · exact Parse.Diagnosed.within (Parse.diagnosed_readString.bind fun _ ↦
        Parse.diagnosed_expectEnd.bind fun _ ↦ Parse.diagnosed_pure _) _
    · exact diagnosed_at _ _
  · exact diagnosed_at _ _

theorem diagnosed_messageFrom (s : Settings) (found : Option (String × Lit))
    (as : List Attribute) : Diagnosed (messageFrom s found as) := by
  fun_induction messageFrom s found as with
  | case1 => exact diagnosed_ok _
  | case2 => exact diagnosed_at _ _
  | case3 => assumption
  | case4 a as _ e h =>
    intro l he
    cases he
    exact diagnosed_messageText a l h
  | case5 => assumption

end Attribute

/-- A placeholder for an index with more digits than numbers may have. -/
def Hole.Overlong (h : Hole) : Prop :=
  Text.isNumeral h.name.toList = true ∧ Text.maxDigits < h.name.length

namespace Template

theorem exists_bindPiece_error_iff {count : Nat} {p : Piece} :
    (∃ l, bindPiece count p = .error l) ↔ ∃ h, p = .hole h ∧ h.Overlong := by
  cases p with
  | hole h =>
    have hl : h.name.toList.length = h.name.length := String.length_toList
    simp only [bindPiece, bindIndex, Piece.hole.injEq, Hole.Overlong, Text.readNumeral, hl]
    by_cases hn : Text.isNumeral h.name.toList = true
    · by_cases hm : h.name.length ≤ Text.maxDigits
      · simp [hn, hm, Except.map, Nat.not_lt.2 hm]
      · simp [hn, hm, Except.map, Nat.lt_of_not_le hm]
    · simp [hn, Except.map]
  | plain c => simp [bindPiece]
  | openBrace => simp [bindPiece]
  | closeBrace => simp [bindPiece]

theorem exists_mapM_error_iff {α β ε : Type} {f : α → Except ε β} {xs : List α} :
    (∃ e, xs.mapM f = .error e) ↔ ∃ x ∈ xs, ∃ e, f x = .error e := by
  induction xs with
  | nil => simp [pure, Except.pure]
  | cons x xs ih =>
    rw [List.mapM_cons]
    simp only [Except.bind_eq_error_iff, List.mem_cons, exists_eq_or_imp, ← ih]
    constructor
    · rintro ⟨e, h | ⟨y, -, h | ⟨ys, -, h⟩⟩⟩
      · exact .inl ⟨e, h⟩
      · exact .inr ⟨e, h⟩
      · cases h
    · rintro (⟨e, h⟩ | ⟨e, h⟩)
      · exact ⟨e, .inl h⟩
      · cases hx : f x with
        | error e' => exact ⟨e', .inl rfl⟩
        | ok y => exact ⟨e, .inr ⟨y, rfl, .inl h⟩⟩

/-- The indices of a template cannot be read exactly if its braces match and an index is too
long. -/
theorem exists_limit_iff {template : String} {count : Nat} :
    (∃ l, bindIndices template count = .error (.limit l)) ↔
      ∃ ps, pieces template = .ok ps ∧ ∃ h, .hole h ∈ ps ∧ h.Overlong := by
  unfold bindIndices
  cases pieces template with
  | error u => simp
  | ok ps =>
    have h : (∃ l, ps.mapM (bindPiece count) = .error l) ↔ ∃ h, .hole h ∈ ps ∧ h.Overlong := by
      rw [exists_mapM_error_iff]
      simp only [exists_bindPiece_error_iff]
      constructor
      · rintro ⟨_, hp, h, rfl, ho⟩
        exact ⟨h, hp, ho⟩
      · rintro ⟨h, hp, ho⟩
        exact ⟨_, hp, h, rfl, ho⟩
    simp only [Except.ok.injEq, exists_eq_left', ← h]
    cases ps.mapM (bindPiece count) with
    | error l => simp
    | ok qs => simp

end Template

namespace Message

theorem diagnosed_ofTemplate (span : Span) (template : String) :
    Diagnosed (ofTemplate span template) := by
  unfold ofTemplate
  split
  · exact diagnosed_ok _
  · exact diagnosed_at _ _

theorem ofTuple_eq_limit_iff {span : Span} {template : String} {count : Nat}
    {l : Text.DigitLimit} :
    ofTuple span template count = .error (.limit l) ↔
      Template.bindIndices template count = .error (.limit l) := by
  unfold ofTuple
  cases Template.bindIndices template count with
  | ok t => simpa using diagnosed_ofTemplate span t l
  | error e =>
    cases e with
    | unmatched u => simp [refuse, Refusal.at]
    | limit l' => simp

end Message

/-- A variant whose message has an index that is too long: a tuple with a message in an
attribute. -/
def VariantHead.Overlong (s : Settings) (h : VariantHead) : Prop :=
  h.fields.shape = .tuple ∧ ∃ text lit ps,
    Attribute.message s h.attributes = .ok (some (text, lit)) ∧
      Template.pieces text = .ok ps ∧ ∃ x, .hole x ∈ ps ∧ x.Overlong

/-- Only such a message is refused without a diagnostic. -/
theorem VariantHead.exists_limit_iff {s : Settings} {noDisplay : Bool} {h : VariantHead} :
    (∃ l, h.message s noDisplay = .error (.limit l)) ↔ h.Overlong s := by
  unfold VariantHead.message Message.ofAttributes VariantHead.Overlong
  cases hm : Attribute.message s h.attributes with
  | error e =>
    simp only [reduceCtorEq, false_and, exists_false, and_false, iff_false]
    rintro ⟨l, hl⟩
    cases hl
    exact Attribute.diagnosed_messageFrom s none h.attributes l hm
  | ok r =>
    simp only [bind, Except.bind]
    cases r with
    | none =>
      simp only [Except.ok.injEq, reduceCtorEq, false_and, exists_false, and_false, iff_false]
      rintro ⟨l, hl⟩
      split at hl
      · cases hl
      · exact Message.diagnosed_ofTemplate _ _ l hl
    | some r =>
      obtain ⟨text, lit⟩ := r
      cases hs : h.fields.shape with
      | tuple =>
        simp only [Message.ofTuple_eq_limit_iff, Template.exists_limit_iff, true_and]
        constructor
        · rintro ⟨ps, hp, hx⟩
          exact ⟨text, lit, ps, rfl, hp, hx⟩
        · rintro ⟨_, _, ps, ⟨⟩, hp, hx⟩
          exact ⟨ps, hp, hx⟩
      | unit =>
        simp only [reduceCtorEq, false_and, iff_false]
        rintro ⟨l, hl⟩
        exact Message.diagnosed_ofTemplate _ _ l hl
      | struct =>
        simp only [reduceCtorEq, false_and, iff_false]
        rintro ⟨l, hl⟩
        exact Message.diagnosed_ofTemplate _ _ l hl

/-! ## Items -/

/-- A text that reads as an item as far as a variant whose message has an index that is too long:
its trees, the head of the item, and all variants before that one are in order. -/
def OverlongIndex (s : Settings) (label : Option String) (source : String) : Prop :=
  ∃ ts head e vs c h d, Tree.read label source = .ok ts ∧
    Parse.itemHead s (Cursor.ofSource label source ts) = (.ok head, e) ∧
      Parse.VariantRun s head.noDisplay head.body vs c ∧
        Parse.variantHead s c = (.ok h, d) ∧ h.Overlong s

/-- The limit ends a body at the first variant whose message exceeds it, behind variants that are
read. -/
theorem Parse.exists_variants_limit_iff {s : Settings} {noDisplay : Bool} {body : Group} :
    (∃ l, within body (variants s noDisplay) = .error (.limit l)) ↔
      ∃ vs c h d, VariantRun s noDisplay body vs c ∧ variantHead s c = (.ok h, d) ∧
        h.Overlong s := by
  simp only [variants_eq_error_iff, variant_eq_error_iff]
  constructor
  · rintro ⟨l, vs, c, d, hr, -, hv | ⟨h, hh, hm⟩⟩
    · exact absurd (congrArg Prod.fst hv) (diagnosed_variantHead s c l)
    · exact ⟨vs, c, h, d, hr, hh, VariantHead.exists_limit_iff.1 ⟨l, hm⟩⟩
  · rintro ⟨vs, c, h, d, hr, hh, ho⟩
    obtain ⟨l, hm⟩ : ∃ l, h.message s noDisplay = .error (.limit l) :=
      VariantHead.exists_limit_iff.2 ho
    refine ⟨l, vs, c, d, hr, ?_, .inr ⟨h, hh, hm⟩⟩
    intro hc
    obtain ⟨e, hb, ⟨-, ts, ht⟩ | ⟨g, ts, ht, -⟩⟩ := variantHead_eq_ok hh
    · simpa [hc, ht] using hb.length_le
    · simpa [hc, ht] using hb.length_le

/-- Only the variants of an item can meet the limit. -/
theorem Parse.definition_eq_limit_iff {s : Settings} {c : Cursor} {l : Text.DigitLimit} :
    (Parse.definition s c).1 = .error (.limit l) ↔
      ∃ h e, itemHead s c = (.ok h, e) ∧
        within h.body (variants s h.noDisplay) = .error (.limit l) := by
  rw [definition_eq, bind_apply]
  have hd := diagnosed_itemHead s c
  rcases hc : itemHead s c with ⟨r | h, e⟩
  · rw [hc] at hd
    simpa using hd l
  · have hx : ∀ vs, Diagnosed (nothingMore >>= fun _ ↦
        ofExcept (if h.noDisplay then .ok () else Definition.check vs) >>= fun _ ↦
          pure (h.definition vs)) := by
      intro vs
      refine diagnosed_nothingMore.bind fun _ ↦ Diagnosed.bind (diagnosed_ofExcept ?_) fun _ ↦
        diagnosed_pure _
      split
      · exact diagnosed_ok _
      · exact Definition.diagnosed_check vs
    simp only [Prod.mk.injEq, Except.ok.injEq]
    constructor
    · intro hl
      refine ⟨h, e, ⟨rfl, rfl⟩, ?_⟩
      rw [bind_apply] at hl
      cases hw : within h.body (variants s h.noDisplay) with
      | error r =>
        rw [hw] at hl
        cases hl
        rfl
      | ok vs =>
        rw [hw] at hl
        exact absurd hl (hx vs e l)
    · rintro ⟨_, _, ⟨rfl, rfl⟩, hw⟩
      rw [bind_apply, hw]
      rfl

theorem Definition.exists_parse_limit_iff {s : Settings} {label : Option String}
    {source : String} :
    (∃ l, Definition.parse s label source = .error (.limit l)) ↔ OverlongIndex s label source := by
  unfold Definition.parse OverlongIndex
  cases Tree.read label source with
  | error u => simp [Unreadable.refusal, Refusal.at]
  | ok ts =>
    simp only [Parse.definition_eq_limit_iff]
    constructor
    · rintro ⟨l, head, e, hh, hw⟩
      obtain ⟨vs, c, h, d, hv⟩ := Parse.exists_variants_limit_iff.1 ⟨l, hw⟩
      exact ⟨ts, head, e, vs, c, h, d, rfl, hh, hv⟩
    · rintro ⟨_, head, e, vs, c, h, d, ⟨⟩, hh, hv⟩
      obtain ⟨l, hw⟩ := Parse.exists_variants_limit_iff.2 ⟨vs, c, h, d, hv⟩
      exact ⟨l, head, e, hh, hw⟩

/-- What an expansion reports: the code of the definition that was read, or the one failure to read
it or to write its code. -/
def Expansion.Reports (s : Settings) (label : Option String) (source : String) (e : Expansion) :
    Prop :=
  (∃ d code, Definition.parse s label source = .ok d ∧ d.generate s.library = .ok code ∧
      e = { code, definition := some d }) ∨
    ∃ f, e = .ofFailure f ∧ (Definition.parse s label source = .error (.failure f) ∨
      ∃ d, Definition.parse s label source = .ok d ∧ d.generate s.library = .error f)

/-- A text has an expansion, with every failure reported as its diagnostic, unless it reads as an
item as far as an index that is too long. -/
theorem exists_expansion_iff (s : Settings) (label : Option String) (source : String) :
    (∃ e, expand s label source = .ok e ∧ e.Reports s label source) ↔
      ¬ OverlongIndex s label source := by
  rw [← Definition.exists_parse_limit_iff]
  unfold expand Expansion.Reports
  cases Definition.parse s label source with
  | error r =>
    cases r with
    | failure f => simp
    | limit l => simp
  | ok d =>
    simp only [reduceCtorEq, exists_false, not_false_eq_true, iff_true]
    refine ⟨_, rfl, ?_⟩
    unfold Expansion.ofDefinition
    cases hg : d.generate s.library with
    | ok code => exact .inl ⟨d, code, rfl, hg, rfl⟩
    | error f => exact .inr ⟨f, rfl, .inr ⟨d, rfl, hg⟩⟩

end ErrorDerive
