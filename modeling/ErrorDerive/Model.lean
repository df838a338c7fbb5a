import ErrorDerive.Keyed
import ErrorDerive.Source.Span
import ErrorDerive.Template

/-!
# The model of an error enum

A definition has variants; a variant has a shape, fields in order, a message template with the
names it refers to, and perhaps a field that holds the cause of the error.
-/

namespace ErrorDerive

inductive Shape
  | unit
  | tuple
  | struct
deriving DecidableEq, Repr

def Shape.name : Shape → String
  | .unit => "unit"
  | .tuple => "tuple"
  | .struct => "struct"

/-- Whether a variant has a cause, and whether it can be made from that alone. -/
inductive CauseKind
  | none
  | conversion
  | sourceOnly
deriving DecidableEq, Repr

def CauseKind.name : CauseKind → String
  | .none => "none"
  | .conversion => "conversion_source"
  | .sourceOnly => "source_only"

/-- The cause of a variant: its kind and the key of the field that holds it. -/
structure CauseMarker where
  kind : CauseKind := .none
  key : Option String := none
deriving DecidableEq, Repr

namespace CauseMarker

def isPresent (m : CauseMarker) : Bool := m.kind != .none

def conversion (key : String) : CauseMarker := ⟨.conversion, some key⟩

def sourceOnly (key : String) : CauseMarker := ⟨.sourceOnly, some key⟩

end CauseMarker

/-- Fields in order: each key with the text of its type. -/
abbrev Fields := Keyed String String

/-- A field key that names no field. -/
structure MissingField where
  key : String
deriving DecidableEq, Repr

structure Variant where
  name : String
  shape : Shape
  fields : Fields := []
  template : String := ""
  /-- The names that the template refers to, in the order of their first appearance. -/
  displayFields : List String := []
  cause : CauseMarker := {}
  span : Span := {}
deriving DecidableEq, Repr

namespace Variant

/-- The name that a pattern binds a field to. -/
def binding (v : Variant) (key : String) : String :=
  match v.shape with
  | .tuple => tupleAlias key
  | _ => key

/-- The names that the template may refer to. -/
def displayNames (v : Variant) : List String := v.fields.keys.map v.binding

/-- The type that the variant can be made from, if its cause is a conversion. -/
def conversionType (v : Variant) : Except MissingField (Option String) :=
  match v.cause with
  | ⟨.conversion, some key⟩ =>
    match v.fields.get? key with
    | some type => .ok (some type)
    | none => .error ⟨key⟩
  | _ => .ok none

end Variant

structure Definition where
  name : String
  variants : List Variant
  span : Span := {}
  noDisplay : Bool := false
deriving DecidableEq, Repr

/-- The first variant of a name. -/
def Definition.variant? (d : Definition) (name : String) : Option Variant :=
  d.variants.find? (·.name == name)

end ErrorDerive
