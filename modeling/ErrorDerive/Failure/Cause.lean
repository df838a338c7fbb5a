import ErrorDerive.Literal.Kind
import ErrorDerive.Text.Quoted
import ErrorDerive.Token.Delimiter

/-!
# Causes of failure

Every way in which an enum item can be refused is a `Cause`; its category gives the code and phase
that diagnostics show, its message the text.
-/

namespace ErrorDerive

/-- A name between backquotes. -/
def ticked (s : String) : String := "`" ++ s ++ "`"

/-- The bare attribute of a name. -/
def attributeText (name : String) : String := "#[" ++ name ++ "]"

/-- Why a text does not fold into token trees. -/
inductive TreeFault
  | unlexable (c : Char)
  | strayCloser (found : Delimiter)
  | mismatchedCloser (found expected : Delimiter)
  | unclosed (d : Delimiter)
deriving DecidableEq, Repr

def TreeFault.message : TreeFault → String
  | .unlexable c => "unexpected character " ++ ticked c.toString
  | .strayCloser d => "unexpected closing delimiter " ++ ticked d.closer.toString
  | .mismatchedCloser d e =>
    "mismatched closing delimiter " ++ ticked d.closer.toString ++ "; expected "
      ++ ticked e.closer.toString
  | .unclosed d => "unclosed delimiter " ++ ticked d.opener.toString

/-- What the grammar asks for at a place. -/
inductive Expectation
  | text (s : String)
  | group (d : Delimiter)
  | identifier
  | stringLiteral
  | literal
  | type
deriving DecidableEq, Repr

def Expectation.describe : Expectation → String
  | .text s => ticked s
  | .group d => ticked d.elided
  | .identifier => "identifier"
  | .stringLiteral => "string literal"
  | .literal => "literal"
  | .type => "type"

/-- Why the impls of a definition cannot be put together. -/
inductive AssemblyFault
  | text (fault : TreeFault)
  | missingField (key : String)
  | noConversion (variant : String)
deriving DecidableEq, Repr

def AssemblyFault.message : AssemblyFault → String
  | .text f => f.message
  | .missingField key => Text.Quoted.render key
  | .noConversion v => "variant " ++ ticked v ++ " has no #[from] field"

/-- Why an enum item is refused. -/
inductive Cause
  | tree (fault : TreeFault)
  | expected (what : Expectation) (found : String)
  | unexpected (found : String)
  | literal (fault : Literal.Fault)
  | innerAttribute
  | unbalancedAngle
  | unclosedAngle
  | redeclaredField (name : String)
  | attributeArguments (name : String)
  | messageShape (name : String)
  | fieldDelimiter (d : Delimiter)
  | trailing (found : String)
  | secondMarker (fromName sourceName first : String)
  | conversionArity (fromName : String)
  | missingMessage (variant : String) (others : List String)
  | repeatedAttribute (name : String)
  | repeatedMessage (name : String)
  | misplacedOnField (name : String)
  | misplacedOnVariant (name variant : String)
  | implicitPlaceholder (variant : String)
  | unknownField (variant name : String)
  | unmatchedBrace (brace : Char) (offset : Nat) (template : String)
  | assembly (fault : AssemblyFault)
deriving DecidableEq, Repr

/-- The kinds of failure that callers tell apart. -/
inductive Category
  | unexpectedToken
  | trailingTokens
  | duplicateCauseMarker
  | conversionArity
  | missingDisplayMessage
  | duplicateAttribute
  | misplacedAttribute
  | unknownDisplayField
  | invalidDisplayTemplate
  | codeAssembly
deriving DecidableEq, Repr

namespace Category

def code : Category → String
  | .unexpectedToken => "unexpected-token"
  | .trailingTokens => "trailing-tokens"
  | .duplicateCauseMarker => "duplicate-cause-marker"
  | .conversionArity => "conversion-arity"
  | .missingDisplayMessage => "missing-display-message"
  | .duplicateAttribute => "duplicate-attribute"
  | .misplacedAttribute => "misplaced-attribute"
  | .unknownDisplayField => "unknown-display-field"
  | .invalidDisplayTemplate => "invalid-display-template"
  | .codeAssembly => "code-assembly"

/-- The stage that reports failures of a category. -/
def phase : Category → String
  | .codeAssembly => "codegen"
  | _ => "derive"

end Category

namespace Cause

def category : Cause → Category
  | .tree _ | .expected _ _ | .unexpected _ | .literal _ | .innerAttribute | .unbalancedAngle
  | .unclosedAngle | .redeclaredField _ | .attributeArguments _ | .messageShape _
  | .fieldDelimiter _ => .unexpectedToken
  | .trailing _ => .trailingTokens
  | .secondMarker _ _ _ => .duplicateCauseMarker
  | .conversionArity _ => .conversionArity
  | .missingMessage _ _ => .missingDisplayMessage
  | .repeatedAttribute _ | .repeatedMessage _ => .duplicateAttribute
  | .misplacedOnField _ | .misplacedOnVariant _ _ => .misplacedAttribute
  | .implicitPlaceholder _ | .unknownField _ _ => .unknownDisplayField
  | .unmatchedBrace _ _ _ => .invalidDisplayTemplate
  | .assembly _ => .codeAssembly

def message : Cause → String
  | .tree f => f.message
  | .expected what found => "expected " ++ what.describe ++ ", found " ++ found
  | .unexpected found => "unexpected " ++ found
  | .literal f => f.message
  | .innerAttribute => "inner attributes are not allowed here"
  | .unbalancedAngle => "unbalanced `>` in type"
  | .unclosedAngle => "unclosed `<` in type"
  | .redeclaredField n => "field " ++ ticked n ++ " is already declared"
  | .attributeArguments n => attributeText n ++ " does not take arguments"
  | .messageShape n => "expected #[" ++ n ++ "(\"...\")]"
  | .fieldDelimiter d => "unexpected delimiter " ++ ticked d.opener.toString
  | .trailing found => "unexpected " ++ found ++ " after enum body"
  | .secondMarker f s first =>
    attributeText f ++ " | " ++ attributeText s ++ " can only be used once. "
      ++ "Previously seen on field " ++ ticked first
  | .conversionArity f => attributeText f ++ " can only be used with a single field"
  | .missingMessage v _ =>
    "variant " ++ ticked v ++ " has no display message; add a doc comment or #[error(\"...\")]"
  | .repeatedAttribute n => attributeText n ++ " may only be given once"
  | .repeatedMessage n =>
    "a variant may carry only one display message (" ++ attributeText n ++ " repeated)"
  | .misplacedOnField n => attributeText n ++ " is only allowed on the enum itself, not on a field"
  | .misplacedOnVariant n v =>
    attributeText n ++ " is only allowed on the enum itself, not on variant " ++ ticked v
  | .implicitPlaceholder v =>
    "display message of variant " ++ ticked v
      ++ " uses an implicit positional placeholder `\x7b\x7d`; name the field instead"
  | .unknownField v n =>
    "display message of variant " ++ ticked v ++ " references unknown field " ++ ticked n
  | .unmatchedBrace b i t =>
    "invalid format string: unmatched " ++ ticked b.toString ++ " at offset " ++ toString i
      ++ " in " ++ Text.Quoted.render t
  | .assembly f => "failed to assemble generated code: " ++ f.message

/-- Further remarks, one for each other variant that has no message either. -/
def notes : Cause → List String
  | .missingMessage _ others =>
    others.map fun v ↦ "variant " ++ ticked v ++ " has no display message either"
  | _ => []

end Cause

end ErrorDerive
