import ErrorDerive.Failure.Refusal
import ErrorDerive.Generated.Arm
import ErrorDerive.Tree.Folding

/-!
# Generated impls

The text of the impls for a definition.  It is folded into token trees once more before it is given
out; text that does not fold is a failure at the definition.
-/

namespace ErrorDerive

/-- Lines one level deeper. -/
def indent (lines : List String) : List String := lines.map ("    " ++ ·)

/-- A match with the given arms; without any, nothing can be matched. -/
def matchBlock (l : Library) (arms : List Arm) : List String :=
  match arms with
  | [] => ["match *self \x7b\x7d"]
  | _ :: _ => ["match self \x7b"] ++ indent (arms.map (Arm.render l)) ++ ["\x7d"]

/-- An impl with one function. -/
def implBlock (head signature : String) (body : List String) : String :=
  "\n".intercalate
    (["impl " ++ head ++ " \x7b"] ++ indent ([signature ++ " \x7b"] ++ indent body ++ ["\x7d"])
      ++ ["\x7d"])

namespace Definition

/-- The impl of the error trait, with the accessor of causes. -/
def errorImpl (d : Definition) (l : Library) : String :=
  implBlock (l.errorTrait ++ " for " ++ d.name)
    ("fn source(&self) -> " ++ l.option ++ "<&(dyn " ++ l.errorTrait ++ " + 'static)>")
    (matchBlock l d.causeArms)

/-- The impl of the formatting trait, unless the enum goes without messages. -/
def displayImpl? (d : Definition) (l : Library) : Option String :=
  if d.noDisplay then none
  else
    some (implBlock (l.fmt ++ "::Display for " ++ d.name)
      ("fn fmt(&self, __formatter: &mut " ++ l.fmt ++ "::Formatter<'_>) -> " ++ l.fmt ++ "::Result")
      (matchBlock l d.displayArms))

/-- The variant made from the value of one field. -/
def conversionBody (v : Variant) (key : String) : String :=
  match v.shape with
  | .tuple => "Self::" ++ v.name ++ "(value)"
  | _ => "Self::" ++ v.name ++ " \x7b " ++ key ++ ": value \x7d"

/-- The impl of the conversion to a variant. -/
def conversionImpl (d : Definition) (l : Library) (v : Variant) : Except AssemblyFault String :=
  match v.conversionType, v.cause.key with
  | .error m, _ => .error (.missingField m.key)
  | .ok (some type), some key =>
    .ok (implBlock (l.fromTrait ++ "<" ++ type ++ "> for " ++ d.name)
      ("fn from(value: " ++ type ++ ") -> Self") [conversionBody v key])
  | .ok _, _ => .error (.noConversion v.name)

/-- The impls of all conversions, in the order of the variants. -/
def conversionImpls (d : Definition) (l : Library) : Except AssemblyFault (List String) :=
  (d.variants.filter (·.cause.kind == .conversion)).mapM (d.conversionImpl l)

/-- The text of all impls, before it is checked. -/
def assemble (d : Definition) (l : Library) : Except AssemblyFault String :=
  (d.conversionImpls l).map fun conversions ↦
    "\n\n".intercalate (d.errorImpl l :: (d.displayImpl? l).toList ++ conversions) ++ "\n"

/-- Gives out a text only if it folds into token trees. -/
def recheck (code : String) : Except AssemblyFault String :=
  match Tree.read (some "<generated>") code with
  | .ok _ => .ok code
  | .error u => .error (.text u.fault)

/-- The text of all impls. -/
def generate (d : Definition) (l : Library) : Except Failure String :=
  (d.assemble l >>= recheck).mapError fun f ↦ ⟨.assembly f, d.span⟩

end Definition

/-- The text that stands in for the impls when there are none: it makes the compiler fail with a
message. -/
def compileError (message : String) : String :=
  "::core::compile_error!(" ++ Literal.quote message ++ ");"

end ErrorDerive
