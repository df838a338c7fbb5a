import ErrorDerive.Command.Arguments
import ErrorDerive.Command.Run
import ErrorDerive.Cursor.Attribute
import ErrorDerive.Cursor.Basic
import ErrorDerive.Cursor.FieldType
import ErrorDerive.Expansion
import ErrorDerive.Failure.Cause
import ErrorDerive.Failure.Diagnostic
import ErrorDerive.Failure.Refusal
import ErrorDerive.Files.Path
import ErrorDerive.Files.Store
import ErrorDerive.Generated.Arm
import ErrorDerive.Generated.Code
import ErrorDerive.Generated.Pattern
import ErrorDerive.Item.Definition
import ErrorDerive.Item.Field
import ErrorDerive.Item.Variant
import ErrorDerive.Json.Basic
import ErrorDerive.Json.Reader
import ErrorDerive.Keyed
import ErrorDerive.Literal.Escape
import ErrorDerive.Literal.Kind
import ErrorDerive.Literal.Quote
import ErrorDerive.Main
import ErrorDerive.Model
import ErrorDerive.Settings.Basic
import ErrorDerive.Settings.Document
import ErrorDerive.Source.Place
import ErrorDerive.Source.Span
import ErrorDerive.Template
import ErrorDerive.Text.Blank
import ErrorDerive.Text.Digit
import ErrorDerive.Text.Hex
import ErrorDerive.Text.Identifier
import ErrorDerive.Text.Loose
import ErrorDerive.Text.Printable
import ErrorDerive.Text.Quoted
import ErrorDerive.Text.Ranges
import ErrorDerive.Text.Utf8
import ErrorDerive.Token.Basic
import ErrorDerive.Token.Delimiter
import ErrorDerive.Token.Lexeme
import ErrorDerive.Tree.Basic
import ErrorDerive.Tree.Folding
import ErrorDerive.Proofs.Lexing.Classes
import ErrorDerive.Proofs.Lexing.Context
import ErrorDerive.Proofs.Lexing.Run
import ErrorDerive.Proofs.Nesting
import ErrorDerive.Proofs.Quoting
import ErrorDerive.Proofs.Lexing.Identifier
import ErrorDerive.Proofs.Lexing.Passage
import ErrorDerive.Proofs.Generated.Impls
import ErrorDerive.Proofs.Generated
import ErrorDerive.Proofs.Integrity
import ErrorDerive.Proofs.Parsing.Items
import ErrorDerive.Proofs.Parsing.Fields
import ErrorDerive.Proofs.Templates
import ErrorDerive.Proofs.Invariants
import ErrorDerive.Proofs.DigitLimit
import ErrorDerive.Proofs.Parsing.Spelling
import ErrorDerive.Proofs.Splicing
import ErrorDerive.Proofs.Reading.Brackets
import ErrorDerive.Proofs.Reading.Flattening
import ErrorDerive.Proofs.Reading.Tokens
import ErrorDerive.Proofs.Reading
import ErrorDerive.Proofs.Outline
import ErrorDerive.Proofs.Outline.Marks
import ErrorDerive.Proofs.Lexing.Squeezing
import ErrorDerive.Proofs.Relexing
import ErrorDerive.Proofs.Layout.Alike
import ErrorDerive.Proofs.Layout.Steps
import ErrorDerive.Proofs.Layout.Items
import ErrorDerive.Proofs.Layout
import ErrorDerive.Proofs.Printing.Phrase
import ErrorDerive.Proofs.Printing.Types
import ErrorDerive.Proofs.Templates.Pieces
import ErrorDerive.Proofs.Templates.Scanning
import ErrorDerive.Proofs.Printing.Drafts
import ErrorDerive.Proofs.Printing.Variants
import ErrorDerive.Proofs.Printing
import ErrorDerive.Proofs.Literals
import ErrorDerive.Proofs.Substitution
import ErrorDerive.Proofs.Sites.Basic
import ErrorDerive.Proofs.Sites.Grammar
import ErrorDerive.Proofs.Sites
import ErrorDerive.Proofs.Printing.Preceding
import ErrorDerive.Proofs.Suppression
import ErrorDerive.Proofs.Parsing.Lookahead
import ErrorDerive.Proofs.Composition
import ErrorDerive.Proofs.Inertness
import ErrorDerive.Proofs.Binding
import ErrorDerive.Proofs.Delivery.Arguments
import ErrorDerive.Proofs.Delivery.Json
import ErrorDerive.Proofs.Delivery
import ErrorDerive.Proofs.Markers
import ErrorDerive.Proofs.Causes
import ErrorDerive.Proofs.Hygiene
import ErrorDerive.Proofs.Fields.Attributes
import ErrorDerive.Proofs.Fields.Types
import ErrorDerive.Proofs.Fields
import ErrorDerive.Proofs.Templates.Indices
import ErrorDerive.Proofs.Escapes
import ErrorDerive.Proofs.Positions
import ErrorDerive.Proofs.Settings
import ErrorDerive.Proofs.AttributeNames
import ErrorDerive.Proofs.Documentation.Lines
import ErrorDerive.Proofs.Documentation
import ErrorDerive.Proofs.Jointness.Passing
import ErrorDerive.Proofs.Jointness
import ErrorDerive.Proofs.Progress.Calls
import ErrorDerive.Proofs.Progress
