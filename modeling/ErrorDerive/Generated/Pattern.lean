import ErrorDerive.Model

/-!
# Match patterns

A pattern has the shape of its variant and binds some of its fields: a tuple has a slot for each
field, a struct names the fields it binds.
-/

namespace ErrorDerive

inductive Pattern
  | unit (variant : String)
  | tuple (variant : String) (slots : List (Option String))
  | struct (variant : String) (names : List String)
  | wildcard
deriving DecidableEq, Repr

namespace Pattern

/-- The names that a pattern binds, from left to right. -/
def bound : Pattern → List String
  | .unit _ => []
  | .tuple _ slots => slots.filterMap id
  | .struct _ names => names
  | .wildcard => []

/-- Slots that bind nothing at all are written as one rest. -/
def render : Pattern → String
  | .unit v => "Self::" ++ v
  | .tuple v slots =>
    if slots.all Option.isNone then "Self::" ++ v ++ "(..)"
    else "Self::" ++ v ++ "(" ++ ", ".intercalate (slots.map (·.getD "_")) ++ ")"
  | .struct v names =>
    if names.isEmpty then "Self::" ++ v ++ " \x7b .. \x7d"
    else "Self::" ++ v ++ " \x7b " ++ ", ".intercalate names ++ ", .. \x7d"
  | .wildcard => "_"

end Pattern

/-- The pattern of a variant that binds the fields whose binding names are given. -/
def Variant.pattern (v : Variant) (names : List String) : Pattern :=
  match v.shape with
  | .unit => .unit v.name
  | .tuple =>
    .tuple v.name
      (v.displayNames.map fun name ↦ if names.contains name then some name else none)
  | .struct => .struct v.name (v.fields.keys.filter names.contains)

end ErrorDerive
