import ErrorDerive.Cursor.Attribute
import ErrorDerive.Cursor.FieldType
import ErrorDerive.Model
import ErrorDerive.Settings.Basic

/-!
# Field lists

A tuple field is its attributes and a type, keyed by its index; a struct field has a name and a
colon in between, and its name is its key.  A comma may end each field.  One attribute of the whole
list may mark the cause.
-/

namespace ErrorDerive

/-- A field as declared.  Its extent is that of its name, or of its type in a tuple. -/
structure FieldDecl where
  key : String
  type : FieldType
  attributes : List Attribute
  extent : Extent
deriving Repr

/-- The fields of a variant. -/
structure FieldList where
  shape : Shape
  fields : Fields
  cause : CauseMarker
deriving DecidableEq, Repr

namespace Parse

/-- Refuses an attribute that belongs on the enum. -/
def refuseNoDisplay (s : Settings) (as : List Attribute) : Except Refusal Unit :=
  match as.find? (·.name == s.noDisplayName) with
  | some a => .error (.at a.extent.span (.misplacedOnField a.name))
  | none => .ok ()

/-- Reads the attributes of a field. -/
def fieldAttributes (s : Settings) : Parse (List Attribute) := do
  let as ← attributes
  ofExcept (refuseNoDisplay s as)
  pure as

/-- Reads a field of a tuple behind those read before. -/
def tupleField (s : Settings) (done : List FieldDecl) : Parse FieldDecl := do
  let as ← fieldAttributes s
  let type ← fieldType
  let _ ← eatPunct ","
  pure ⟨toString done.length, type, as, type.extent⟩

/-- Refuses a name that a field has already. -/
def refuseRedeclared (done : List FieldDecl) (name : Ident) : Except Refusal Unit :=
  if done.any (·.key == name.text) then
    .error (.at name.extent.span (.redeclaredField name.text))
  else .ok ()

/-- Reads a field of a struct behind those read before. -/
def structField (s : Settings) (done : List FieldDecl) : Parse FieldDecl := do
  let as ← fieldAttributes s
  let name ← readIdent
  ofExcept (refuseRedeclared done name)
  let _ ← expectPunct ":"
  let type ← fieldType
  let _ ← eatPunct ","
  pure ⟨name.text, type, as, name.extent⟩

theorem forward_fieldAttributes (s : Settings) : (fieldAttributes s).Forward :=
  forward_attributes.bind fun _ ↦ (forward_ofExcept _).bind fun _ ↦ forward_pure _

theorem forward_tupleField (s : Settings) (done : List FieldDecl) : (tupleField s done).Forward :=
  (forward_fieldAttributes s).bind fun _ ↦ forward_fieldType.bind fun _ ↦
    (forward_eat _).bind fun _ ↦ forward_pure _

theorem reads_tupleField (s : Settings) (done : List FieldDecl) : (tupleField s done).Reads :=
  .bind_left (forward_fieldAttributes s) fun _ ↦ reads_fieldType.bind_right fun _ ↦
    (forward_eat _).bind fun _ ↦ forward_pure _

theorem forward_structField (s : Settings) (done : List FieldDecl) :
    (structField s done).Forward :=
  (forward_fieldAttributes s).bind fun _ ↦ (forward_expect _ _).bind fun _ ↦
    (forward_ofExcept _).bind fun _ ↦ (forward_expect _ _).bind fun _ ↦
      forward_fieldType.bind fun _ ↦ (forward_eat _).bind fun _ ↦ forward_pure _

theorem reads_structField (s : Settings) (done : List FieldDecl) : (structField s done).Reads :=
  .bind_left (forward_fieldAttributes s) fun _ ↦ (reads_expect _ _).bind_right fun _ ↦
    (forward_ofExcept _).bind fun _ ↦ (forward_expect _ _).bind fun _ ↦
      forward_fieldType.bind fun _ ↦ (forward_eat _).bind fun _ ↦ forward_pure _

/-- Reads the fields of a tuple. -/
def tupleFields (s : Settings) : Parse (List FieldDecl) := many (tupleField s) (reads_tupleField s)

/-- Reads the fields of a struct. -/
def structFields (s : Settings) : Parse (List FieldDecl) :=
  many (structField s) (reads_structField s)

end Parse

namespace FieldDecl

/-- The cause markers of fields, each with the key of its field, in order. -/
def markers (s : Settings) (fs : List FieldDecl) : List (String × Attribute) :=
  fs.flatMap fun f ↦ (f.attributes.filter (s.causeNames.contains ·.name)).map fun a ↦ (f.key, a)

/-- Takes markers one by one: a second one is refused, then arguments, then a conversion from one
of several fields. -/
def resolve (s : Settings) (variant : Ident) (count : Nat) :
    CauseMarker → List (String × Attribute) → Except Refusal CauseMarker
  | m, [] => .ok m
  | m, (key, a) :: rest =>
    match m.key with
    | some first =>
      .error (.at a.extent.span (.secondMarker s.fromName s.sourceName first))
    | none =>
      if !a.isBare then .error (.at a.extent.span (.attributeArguments a.name))
      else if a.name == s.fromName then
        if 1 < count then .error (.at variant.extent.span (.conversionArity s.fromName))
        else resolve s variant count (.conversion key) rest
      else resolve s variant count (.sourceOnly key) rest

/-- The cause that fields mark. -/
def cause (s : Settings) (variant : Ident) (fs : List FieldDecl) : Except Refusal CauseMarker :=
  resolve s variant fs.length {} (markers s fs)

/-- The keys of fields with their types. -/
def table (fs : List FieldDecl) : Fields := Keyed.ofPairs (fs.map fun f ↦ (f.key, f.type.text))

/-- The declarations in a group, with the shape that its brackets give. -/
def ofGroup (s : Settings) (g : Group) : Except Refusal (Shape × List FieldDecl) :=
  match g.delimiter with
  | .paren => (Parse.within g (Parse.tupleFields s)).map fun fs ↦ (.tuple, fs)
  | .brace => (Parse.within g (Parse.structFields s)).map fun fs ↦ (.struct, fs)
  | .bracket => .error (.at g.extent.span (.fieldDelimiter g.delimiter))

end FieldDecl

/-- The fields in a group that follows the name of a variant. -/
def FieldList.ofGroup (s : Settings) (variant : Ident) (g : Group) : Except Refusal FieldList := do
  let (shape, fs) ← FieldDecl.ofGroup s g
  let cause ← FieldDecl.cause s variant fs
  pure ⟨shape, FieldDecl.table fs, cause⟩

end ErrorDerive
