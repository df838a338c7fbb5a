import ErrorDerive.Item.Variant

/-!
# Enum items

An item is its attributes, perhaps a visibility, the word `enum`, a name, and variants in braces;
nothing may follow.  Unless the enum goes without messages, every variant has one, and each name in
a message is that of a field.
-/

namespace ErrorDerive

namespace Attribute

/-- Whether attributes of the enum say that it goes without messages, given that one did before. -/
def noDisplayFrom (s : Settings) : Bool → List Attribute → Except Refusal Bool
  | seen, [] => .ok seen
  | seen, a :: as =>
    if a.name == s.noDisplayName then
      if seen then .error (.at a.extent.span (.repeatedAttribute a.name))
      else if !a.isBare then .error (.at a.extent.span (.attributeArguments a.name))
      else noDisplayFrom s true as
    else noDisplayFrom s seen as

/-- Whether attributes of the enum say that it goes without messages. -/
def noDisplay (s : Settings) (as : List Attribute) : Except Refusal Bool := noDisplayFrom s false as

end Attribute

namespace Definition

/-- Refuses variants without a message, all in one failure at the first of them. -/
def checkMessages (vs : List Variant) : Except Refusal Unit :=
  match vs.filter (·.template.isEmpty) with
  | [] => .ok ()
  | v :: more => .error (.at v.span (.missingMessage v.name (more.map Variant.name)))

/-- The first name in the message of a variant that is not that of a field. -/
def strangeName? (v : Variant) : Option String :=
  v.displayFields.find? (!v.displayNames.contains ·)

/-- Why a name in the message of a variant is refused. -/
def strangeCause (v : Variant) (name : String) : Cause :=
  if name.isEmpty then .implicitPlaceholder v.name else .unknownField v.name name

/-- Refuses names in messages that are not those of fields. -/
def checkNames : List Variant → Except Refusal Unit
  | [] => .ok ()
  | v :: vs =>
    match strangeName? v with
    | some name => .error (.at v.span (strangeCause v name))
    | none => checkNames vs

/-- Checks the messages of all variants, then the names in them. -/
def check (vs : List Variant) : Except Refusal Unit := do
  checkMessages vs
  checkNames vs

end Definition

namespace Parse

/-- Refuses what follows the braces of an enum. -/
def nothingMore : Parse Unit := fun c ↦
  match c.rest with
  | [] => (.ok (), c)
  | t :: _ => (.error (.at t.span (.trailing t.describe)), c)

/-- Reads an enum item. -/
def definition (s : Settings) : Parse Definition := do
  let as ← attributes
  let noDisplay ← ofExcept (Attribute.noDisplay s as)
  let _ ← visibility
  let keyword ← expectIdent "enum"
  let name ← readIdent
  let body ← expectGroup .brace
  let vs ← ofExcept (within body (variants s noDisplay))
  nothingMore
  ofExcept (if noDisplay then .ok () else Definition.check vs)
  pure { name := name.text, variants := vs, span := keyword.extent.span, noDisplay }

end Parse

/-- Reads the source text of one enum item. -/
def Definition.parse (s : Settings) (label : Option String) (source : String) :
    Except Refusal Definition :=
  match Tree.read label source with
  | .ok trees => (Parse.definition s (Cursor.ofSource label source trees)).1
  | .error u => .error u.refusal

end ErrorDerive
