import ErrorDerive.Failure.Cause
import ErrorDerive.Source.Span

/-!
# Failures and diagnostics

A failure is a cause at a span.  A diagnostic is what is reported of it, or of a problem with a
file or with the settings; its message is loose text, because keys of a settings file may be.
-/

namespace ErrorDerive

structure Diagnostic where
  message : Text.Loose
  code : Option String := none
  phase : Option String := none
  severity : String := "error"
  span : Span := {}
  notes : List String := []
deriving DecidableEq, Repr

namespace Diagnostic

def isError (d : Diagnostic) : Bool := d.severity == "error"

/-- One line with the place, the severity and the message, and one line for each note. -/
def render (d : Diagnostic) : Text.Loose :=
  .intercalate "\n"
    ((.ofString (d.span.short ++ ": " ++ d.severity ++ ": ") ++ d.message)
      :: d.notes.map fun n ↦ .ofString ("  note: " ++ n))

end Diagnostic

structure Failure where
  cause : Cause
  span : Span
deriving DecidableEq, Repr

namespace Failure

def message (f : Failure) : String := f.cause.message

def code (f : Failure) : String := f.cause.category.code

def phase (f : Failure) : String := f.cause.category.phase

def notes (f : Failure) : List String := f.cause.notes

def diagnostic (f : Failure) : Diagnostic :=
  { message := f.message, code := some f.code, phase := some f.phase, span := f.span,
    notes := f.notes }

end Failure

end ErrorDerive
