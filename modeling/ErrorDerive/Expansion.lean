import ErrorDerive.Generated.Code
import ErrorDerive.Item.Definition

/-!
# Expansion

The whole way from the source text of an enum to generated code.  A failure is reported as one
diagnostic, and the code then is a compile error with its message.
-/

namespace ErrorDerive

structure Expansion where
  code : String
  diagnostics : List Diagnostic := []
  definition : Option Definition := none
deriving DecidableEq, Repr

namespace Expansion

def ok (e : Expansion) : Bool := !e.diagnostics.any Diagnostic.isError

/-- The expansion that reports a failure. -/
def ofFailure (f : Failure) : Expansion :=
  { code := compileError f.message, diagnostics := [f.diagnostic] }

/-- The expansion of a definition. -/
def ofDefinition (s : Settings) (d : Definition) : Expansion :=
  match d.generate s.library with
  | .ok code => { code, definition := some d }
  | .error f => ofFailure f

end Expansion

/-- Expands a source text.  Only a placeholder with too many digits has no expansion. -/
def expand (s : Settings) (label : Option String) (source : String) :
    Except Text.DigitLimit Expansion :=
  match Definition.parse s label source with
  | .ok d => .ok (.ofDefinition s d)
  | .error (.failure f) => .ok (.ofFailure f)
  | .error (.limit l) => .error l

end ErrorDerive
