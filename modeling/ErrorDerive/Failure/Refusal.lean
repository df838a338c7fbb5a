import ErrorDerive.Failure.Diagnostic
import ErrorDerive.Text.Digit

/-!
# Refusals

Reading an item stops either with a failure, which is reported as a diagnostic, or because a
positional placeholder has more digits than numbers may have, which no diagnostic covers.
-/

namespace ErrorDerive

inductive Refusal
  | failure (f : Failure)
  | limit (l : Text.DigitLimit)
deriving DecidableEq, Repr

/-- A refusal with a cause at a span. -/
def Refusal.at (span : Span) (cause : Cause) : Refusal := .failure ⟨cause, span⟩

end ErrorDerive
