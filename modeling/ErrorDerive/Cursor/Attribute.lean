import ErrorDerive.Cursor.Basic

/-!
# Words, paths and attributes

An outer attribute is `#[path]`, `#[path(...)]` with any brackets, or `#[path = literal]`; a
documentation comment is an attribute named `doc` too.
-/

namespace ErrorDerive

/-- An attribute.  Its extent is that of the first word of its path. -/
structure Attribute where
  name : String
  extent : Extent
  args : Option Group := none
  value : Option Lit := none
  doc : Option String := none
deriving Repr

/-- An attribute that has neither arguments nor a value. -/
def Attribute.isBare (a : Attribute) : Bool := a.args.isNone && a.value.isNone

namespace Parse

/-- The view of a given word. -/
def word? (name : String) (t : Tree) : Option Ident := t.ident?.filter (·.text == name)

/-- The view of a given mark. -/
def mark? (mark : String) (t : Tree) : Option Punct := t.punct?.filter (·.mark == mark)

/-- The view of a group with given brackets. -/
def brackets? (d : Delimiter) (t : Tree) : Option Group := t.group?.filter (·.delimiter == d)

def expectIdent (name : String) : Parse Ident := expect (.text name) (word? name)

def eatIdent (name : String) : Parse (Option Ident) := eat (word? name)

def expectPunct (mark : String) : Parse Punct := expect (.text mark) (mark? mark)

def eatPunct (mark : String) : Parse (Option Punct) := eat (mark? mark)

def expectGroup (d : Delimiter) : Parse Group := expect (.group d) (brackets? d)

def readIdent : Parse Ident := expect .identifier Tree.ident?

/-- The view of a string literal. -/
def stringLit? (t : Tree) : Option Lit := t.lit?.filter (·.kind.isString)

/-- Takes over the value of a literal, or fails at it. -/
def litValue (l : Lit) : Except Refusal String :=
  l.value.mapError fun e ↦ .at l.extent.span (.literal e)

/-- Reads a string literal; one that has no value is not read. -/
def readString : Parse (String × Lit) := fun c ↦
  match c.peek.bind stringLit? with
  | none => unexpected .stringLiteral c
  | some l =>
    match litValue l with
    | .ok s => (.ok (s, l), c.skip 1)
    | .error e => (.error e, c)

/-- Reads `:: word`, if a colon that touches another mark comes next. -/
def segment : Parse (Option Ident) := do
  match ← eat fun t ↦ if t.isJointMark ":" then some () else none with
  | none => pure none
  | some _ => do
    let _ ← expectPunct ":"
    let i ← readIdent
    pure (some i)

theorem forward_segment : Forward segment := by
  refine (forward_eat _).bind fun r ↦ ?_
  cases r with
  | none => exact forward_pure _
  | some _ =>
    exact (forward_expect _ _).bind fun _ ↦ (forward_expect _ _).bind fun _ ↦ forward_pure _

theorem yields_segment : Yields segment := by
  intro c a d h
  unfold segment at h
  rw [bind_apply] at h
  split at h
  · next r d' hc =>
    cases r with
    | none => cases h
    | some u =>
      refine Nat.lt_of_le_of_lt ?_ (yields_eat _ _ _ _ hc)
      exact ((forward_expect _ _).bind fun _ ↦
        (forward_expect _ _).bind fun _ ↦ forward_pure _).length_le h
  · cases h

/-- Reads a path: its words joined by double colons, and the first of them. -/
def path : Parse (String × Ident) := do
  let first ← readIdent
  let more ← collect (fun _ ↦ segment) (fun _ ↦ yields_segment) []
  pure ("::".intercalate (first.text :: more.map Ident.text), first)

theorem forward_path : Forward path :=
  (forward_expect _ _).bind fun _ ↦
    (forward_collect (fun _ ↦ forward_segment) _).bind fun _ ↦ forward_pure _

theorem reads_path : Reads path :=
  (reads_expect _ _).bind_right fun _ ↦
    (forward_collect (fun _ ↦ forward_segment) _).bind fun _ ↦ forward_pure _

/-- Reads the literal of `#[path = literal]`. -/
def attributeValue : Parse Lit := expect .literal Tree.lit?

/-- The text of a `doc` attribute with a string literal. -/
def docValue (name : String) (l : Lit) : Except Refusal (Option String) :=
  if name == "doc" && l.kind.isString then (litValue l).map some else .ok none

/-- Reads what stands between the brackets of an attribute. -/
def attributeContent : Parse Attribute := do
  let (name, first) ← path
  match ← eat Tree.group? with
  | some args => do
    expectEnd
    pure { name, extent := first.extent, args := some args }
  | none =>
    match ← eatPunct "=" with
    | none => do
      expectEnd
      pure { name, extent := first.extent }
    | some _ => do
      let value ← attributeValue
      let doc ← ofExcept (docValue name value)
      expectEnd
      pure { name, extent := first.extent, value := some value, doc }

/-- The view of a documentation comment, as an attribute. -/
def docComment? : Tree → Option Attribute
  | .leaf e (.doc text) => some { name := "doc", extent := e, doc := some text }
  | _ => none

/-- Refuses the mark that makes an attribute an inner one. -/
def noInner : Parse Unit := fun c ↦
  match c.peek with
  | some t => if t.isMark "!" then failHere .innerAttribute c else (.ok (), c)
  | none => (.ok (), c)

/-- Reads an attribute from behind its hash. -/
def attributeBody : Parse Attribute := do
  noInner
  let g ← expectGroup .bracket
  ofExcept (within g attributeContent)

/-- Reads one attribute, if one comes next. -/
def attribute? : Parse (Option Attribute) := do
  match ← eat docComment? with
  | some a => pure (some a)
  | none =>
    match ← eatPunct "#" with
    | none => pure none
    | some _ => do
      let a ← attributeBody
      pure (some a)

theorem forward_noInner : Forward noInner := by
  intro c
  unfold noInner
  split
  · split <;> exact .refl c
  · exact .refl c

theorem forward_attributeBody : Forward attributeBody :=
  forward_noInner.bind fun _ ↦ (forward_expect _ _).bind fun _ ↦ forward_ofExcept _

theorem forward_attribute? : Forward attribute? := by
  refine (forward_eat _).bind fun r ↦ ?_
  cases r with
  | some a => exact forward_pure _
  | none =>
    refine (forward_eat _).bind fun r ↦ ?_
    cases r with
    | none => exact forward_pure _
    | some _ => exact forward_attributeBody.bind fun _ ↦ forward_pure _

theorem yields_attribute? : Yields attribute? := by
  intro c a d h
  unfold attribute? at h
  rw [bind_apply] at h
  split at h
  · next r d₁ hc =>
    cases r with
    | some b => cases h; exact yields_eat _ _ _ _ hc
    | none =>
      have h₁ := (forward_eat _).length_le hc
      change (eatPunct "#" >>= _) d₁ = _ at h
      rw [bind_apply] at h
      split at h
      · next r d₂ hc₂ =>
        cases r with
        | none => cases h
        | some _ =>
          have h₂ := yields_eat _ _ _ _ hc₂
          have h₃ := (forward_attributeBody.bind fun _ ↦ forward_pure _).length_le h
          omega
      · cases h
  · cases h

/-- Reads the attributes and documentation comments that come next. -/
def attributes : Parse (List Attribute) :=
  collect (fun _ ↦ attribute?) (fun _ ↦ yields_attribute?) []

theorem forward_attributes : Forward attributes := forward_collect (fun _ ↦ forward_attribute?) _

/-- Reads `pub`, perhaps with a restriction in parentheses. -/
def visibility : Parse (Option String) := do
  match ← eatIdent "pub" with
  | none => pure none
  | some _ =>
    match ← eat (brackets? .paren) with
    | none => pure (some "pub")
    | some g => pure (some ("pub" ++ g.toTree.render))

end Parse

end ErrorDerive
