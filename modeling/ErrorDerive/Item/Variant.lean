import ErrorDerive.Item.Field

/-!
# Variants

A variant is its attributes, a name, perhaps a field list, and perhaps a comma.  Its message is the
string of a message attribute, in which a tuple variant may call its fields by index; without one
it is the text of the documentation.
-/

namespace ErrorDerive

namespace Attribute

/-- The string of a message attribute. -/
def messageText (a : Attribute) : Except Refusal (String × Lit) :=
  match a.args with
  | some g =>
    if g.delimiter = .paren then
      Parse.within g do
        let m ← Parse.readString
        Parse.expectEnd
        pure m
    else .error (.at a.extent.span (.messageShape a.name))
  | none => .error (.at a.extent.span (.messageShape a.name))

/-- The message among attributes, given one found before; a second one is refused unread. -/
def messageFrom (s : Settings) : Option (String × Lit) → List Attribute →
    Except Refusal (Option (String × Lit))
  | found, [] => .ok found
  | found, a :: as =>
    if s.messageNames.contains a.name then
      match found with
      | some _ => .error (.at a.extent.span (.repeatedMessage a.name))
      | none =>
        match a.messageText with
        | .ok m => messageFrom s (some m) as
        | .error e => .error e
    else messageFrom s found as

/-- The message that attributes give. -/
def message (s : Settings) (as : List Attribute) : Except Refusal (Option (String × Lit)) :=
  messageFrom s none as

/-- The nonempty lines of a text, without white space around them. -/
def docLines (text : String) : List String :=
  (((Text.lines text.toList).map Text.trim).filter (!·.isEmpty)).map String.ofList

/-- The text of the documentation among attributes: its lines joined by spaces. -/
def documentation (as : List Attribute) : String :=
  " ".intercalate ((as.filter (·.name == "doc")).filterMap Attribute.doc |>.flatMap docLines)

end Attribute

/-- A template with the names it refers to. -/
structure Message where
  template : String
  names : List String
deriving DecidableEq, Repr

namespace Message

/-- A refused template. -/
def refuse (span : Span) (template : String) (u : Template.Unmatched) : Refusal :=
  .at span (.unmatchedBrace u.brace u.offset template)

/-- A template that is used as it stands. -/
def ofTemplate (span : Span) (template : String) : Except Refusal Message :=
  match Template.names template with
  | .ok names => .ok ⟨template, names⟩
  | .error u => .error (refuse span template u)

/-- The message of a tuple: indices become the names of its fields. -/
def ofTuple (span : Span) (template : String) (count : Nat) : Except Refusal Message :=
  match Template.bindIndices template count with
  | .ok t => ofTemplate span t
  | .error (.unmatched u) => .error (refuse span template u)
  | .error (.limit l) => .error (.limit l)

/-- The message of a variant with given attributes, name and fields.  The documentation is no
message where messages are not asked for. -/
def ofAttributes (s : Settings) (noDisplay : Bool) (as : List Attribute) (name : Ident)
    (fs : FieldList) : Except Refusal Message := do
  match ← Attribute.message s as with
  | some (text, lit) =>
    match fs.shape with
    | .tuple => ofTuple lit.extent.span text fs.fields.length
    | _ => ofTemplate lit.extent.span text
  | none =>
    let text := Attribute.documentation as
    if noDisplay then pure ⟨text, []⟩ else ofTemplate name.extent.span text

end Message

namespace Parse

/-- Refuses an attribute that belongs on the enum. -/
def refuseOnVariant (s : Settings) (as : List Attribute) (name : Ident) : Except Refusal Unit :=
  match as.find? (·.name == s.noDisplayName) with
  | some a => .error (.at a.extent.span (.misplacedOnVariant a.name name.text))
  | none => .ok ()

/-- The view of a group that holds fields. -/
def fieldGroup? (t : Tree) : Option Group :=
  t.group?.filter fun g ↦ g.delimiter == .paren || g.delimiter == .brace

/-- Reads the fields of a variant, if it has any. -/
def fieldList (s : Settings) (name : Ident) : Parse FieldList := do
  match ← eat fieldGroup? with
  | some g => ofExcept (FieldList.ofGroup s name g)
  | none => pure ⟨.unit, [], {}⟩

/-- Reads a variant. -/
def variant (s : Settings) (noDisplay : Bool) : Parse Variant := do
  let as ← attributes
  let name ← readIdent
  ofExcept (refuseOnVariant s as name)
  let fs ← fieldList s name
  let _ ← eatPunct ","
  let m ← ofExcept (Message.ofAttributes s noDisplay as name fs)
  pure
    { name := name.text, shape := fs.shape, fields := fs.fields, template := m.template,
      displayFields := m.names, cause := fs.cause, span := name.extent.span }

theorem forward_fieldList (s : Settings) (name : Ident) : (fieldList s name).Forward := by
  refine (forward_eat _).bind fun r ↦ ?_
  cases r with
  | none => exact forward_pure _
  | some g => exact forward_ofExcept _

theorem forward_variant (s : Settings) (noDisplay : Bool) : (variant s noDisplay).Forward :=
  forward_attributes.bind fun _ ↦ (forward_expect _ _).bind fun _ ↦
    (forward_ofExcept _).bind fun _ ↦ (forward_fieldList _ _).bind fun _ ↦
      (forward_eat _).bind fun _ ↦ (forward_ofExcept _).bind fun _ ↦ forward_pure _

theorem reads_variant (s : Settings) (noDisplay : Bool) : (variant s noDisplay).Reads :=
  .bind_left forward_attributes fun _ ↦ (reads_expect _ _).bind_right fun _ ↦
    (forward_ofExcept _).bind fun _ ↦ (forward_fieldList _ _).bind fun _ ↦
      (forward_eat _).bind fun _ ↦ (forward_ofExcept _).bind fun _ ↦ forward_pure _

/-- Reads the variants of an enum. -/
def variants (s : Settings) (noDisplay : Bool) : Parse (List Variant) :=
  many (fun _ ↦ variant s noDisplay) fun _ ↦ reads_variant s noDisplay

end Parse

end ErrorDerive
