import ErrorDerive.Generated.Pattern
import ErrorDerive.Literal.Quote
import ErrorDerive.Settings.Basic

/-!
# Match arms

The arms of the generated matches: one yields the cause of a variant, one writes its message.
-/

namespace ErrorDerive

/-- The library whose paths generated code spells out. -/
inductive Library
  | std
  | core
deriving DecidableEq, Repr

namespace Library

def root : Library → String
  | .std => "::std"
  | .core => "::core"

def errorTrait (l : Library) : String := l.root ++ "::error::Error"

def fmt (l : Library) : String := l.root ++ "::fmt"

def option (l : Library) : String := l.root ++ "::option::Option"

def fromTrait (l : Library) : String := l.root ++ "::convert::From"

end Library

def Settings.library (s : Settings) : Library := if s.noStd then .core else .std

/-- What an arm yields: the cause bound to a name, no cause, or a message written out. -/
inductive ArmBody
  | cause (name : String)
  | noCause
  | write (template : String) (names : List String)
deriving DecidableEq, Repr

/-- Arguments that pass each name on as itself. -/
def namedArguments (names : List String) : String :=
  String.join (names.map fun n ↦ ", " ++ n ++ " = " ++ n)

def ArmBody.render (l : Library) : ArmBody → String
  | .cause name => l.option ++ "::Some(" ++ name ++ ")"
  | .noCause => l.option ++ "::None"
  | .write template names =>
    l.root ++ "::write!(__formatter, " ++ Literal.quote template ++ namedArguments names ++ ")"

structure Arm where
  pattern : Pattern
  body : ArmBody
deriving DecidableEq, Repr

def Arm.render (l : Library) (a : Arm) : String :=
  a.pattern.render ++ " => " ++ a.body.render l ++ ","

namespace Variant

/-- The arm that yields the cause, if the variant has one. -/
def causeArm? (v : Variant) : Option Arm :=
  match v.cause with
  | ⟨.none, _⟩ | ⟨_, none⟩ => none
  | ⟨_, some key⟩ =>
    let name := v.binding key
    some ⟨v.pattern [name], .cause name⟩

/-- The arm that writes the message. -/
def displayArm (v : Variant) : Arm :=
  ⟨v.pattern v.displayFields, .write v.template v.displayFields⟩

end Variant

namespace Definition

/-- The arms of the accessor of causes: one for each variant with a cause, and one for all the
others if there are any. -/
def causeArms (d : Definition) : List Arm :=
  let arms := d.variants.filterMap Variant.causeArm?
  if arms.length < d.variants.length then arms ++ [⟨.wildcard, .noCause⟩] else arms

/-- The arms of the formatting routine. -/
def displayArms (d : Definition) : List Arm := d.variants.map Variant.displayArm

end Definition

end ErrorDerive
