import ErrorDerive.Source.Place

/-!
# Spans and extents

A `Span` is what a diagnostic reports: a file and two line-column pairs, any part of which may be
unknown.  An `Extent` is what a token occupies: a file label and two places.  Every extent gives a
span.
-/

namespace ErrorDerive

structure Span where
  file : Option String := none
  line : Option Int := none
  column : Option Int := none
  endLine : Option Int := none
  endColumn : Option Int := none
deriving DecidableEq, Repr, Inhabited

/-- Drops an empty label. -/
def named (label : Option String) : Option String := label.filter (· ≠ "")

namespace Span

/-- The empty span at the end of a span. -/
def atEnd (s : Span) : Span :=
  let line := s.endLine <|> s.line
  let column := s.endColumn <|> s.column
  ⟨s.file, line, column, line, column⟩

/-- A known number, or a question mark. -/
def shortPart : Option Int → String
  | some n => toString n
  | none => "?"

/-- The text `file:line:column`, with `<input>` for a missing file. -/
def short (s : Span) : String :=
  (named s.file).getD "<input>" ++ ":" ++ shortPart s.line ++ ":" ++ shortPart s.column

end Span

/-- What is known of a location: up to two names for its file, and line-column pairs. -/
structure Location where
  file : Option String := none
  filename : Option String := none
  line : Option Int := none
  column : Option Int := none
  endLine : Option Int := none
  endColumn : Option Int := none
deriving DecidableEq, Repr

/-- The span of a location under a label.  The first nonempty of label, file and file name wins. -/
def Location.span (label : Option String) (l : Location) : Span :=
  ⟨named label <|> named l.file <|> named l.filename, l.line, l.column, l.endLine, l.endColumn⟩

/-- Where something was found: nowhere, at a span, or at a location. -/
inductive Origin
  | unknown
  | span (s : Span)
  | location (l : Location)
deriving DecidableEq, Repr

/-- The span of an origin; one that is a span already keeps its own file. -/
def Origin.toSpan (label : Option String) : Origin → Span
  | .unknown => ⟨label, none, none, none, none⟩
  | .span s => s
  | .location l => l.span label

/-- The stretch of a source between two places. -/
structure Extent where
  file : Option String
  first : Place
  past : Place
deriving DecidableEq, Repr, Inhabited

namespace Extent

def start (e : Extent) : Nat := e.first.offset

def stop (e : Extent) : Nat := e.past.offset

def span (e : Extent) : Span :=
  ⟨e.file, some e.first.line, some e.first.column, some e.past.line, some e.past.column⟩

/-- The extent from the start of one to the end of another, in the file of the first. -/
def join (a b : Extent) : Extent := ⟨a.file, a.first, b.past⟩

@[simp] theorem start_join (a b : Extent) : (a.join b).start = a.start := rfl

@[simp] theorem stop_join (a b : Extent) : (a.join b).stop = b.stop := rfl

/-- The empty extent just past a source text. -/
def endOf (label : Option String) (source : List Char) : Extent :=
  ⟨label, Place.endOf source, Place.endOf source⟩

end Extent

end ErrorDerive
