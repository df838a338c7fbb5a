import ErrorDerive.Model
import ErrorDerive.Proofs.Printing.Steps
import ErrorDerive.Proofs.Printing.Types

/-!
# Printing drafts

A draft says what a variant is to be: its name, its fields, which of them holds the cause, and its
message.  Drafts are printed as an enum item, with spaces of one's choice where spaces do not matter
(`Draft.printEnum`).  The text of proper drafts is a phrase whose outlines are known draft by draft
(`Draft.phrase_printEnum`).
-/

namespace ErrorDerive

/-! ## Drafts -/

/-- What a variant is to be. -/
structure Draft where
  name : String
  shape : Shape := .unit
  fields : Fields := []
  cause : CauseMarker := {}
  message : String
deriving DecidableEq, Repr

/-- The attribute that marks a cause of a kind. -/
def CauseKind.attribute? : CauseKind → Option String
  | .none => .none
  | .conversion => some "from"
  | .sourceOnly => some "source"

/-- The brackets around the fields of a shape. -/
def Shape.delimiter? : Shape → Option Delimiter
  | .unit => none
  | .tuple => some .paren
  | .struct => some .brace

namespace Draft

/-- The attribute that marks a field of a draft. -/
def marker? (d : Draft) (key : String) : Option String :=
  if d.cause.key = some key then d.cause.kind.attribute? else none

/-- The template of a draft: in a tuple, indices are bound to its fields. -/
def template (d : Draft) : Except Template.Fault String :=
  match d.shape with
  | .tuple => Template.bindIndices d.message d.fields.length
  | _ => .ok d.message

/-- The names that the template of a draft may refer to. -/
def displayNames (d : Draft) : List String :=
  match d.shape with
  | .tuple => d.fields.keys.map tupleAlias
  | _ => d.fields.keys

/-- Keys that fields of a shape may have: none, their indices, or distinct identifiers. -/
def KeysFit : Shape → List String → Prop
  | .unit, keys => keys = []
  | .tuple, keys => keys = (List.range keys.length).map toString
  | .struct, keys => keys.Nodup ∧ ∀ k ∈ keys, Lexeme.isIdent k.toList = true

instance : (s : Shape) → (keys : List String) → Decidable (KeysFit s keys)
  | .unit, keys => inferInstanceAs (Decidable (keys = []))
  | .tuple, keys => inferInstanceAs (Decidable (keys = (List.range keys.length).map toString))
  | .struct, keys =>
    inferInstanceAs (Decidable (keys.Nodup ∧ ∀ k ∈ keys, Lexeme.isIdent k.toList = true))

/-- Drafts that can be printed as a variant and read back. -/
structure Proper (d : Draft) : Prop where
  name : Lexeme.isIdent d.name.toList = true
  keys : KeysFit d.shape d.fields.keys
  types : ∀ f ∈ d.fields, IsType f.2
  cause : d.cause = {} ∨ (∃ k ∈ d.fields.keys, d.cause = .sourceOnly k) ∨
    ∃ k ∈ d.fields.keys, d.fields.length = 1 ∧ d.cause = .conversion k
  message : ∃ ps, Template.pieces d.message = .ok ps
  template : ∃ t, d.template = .ok t ∧ t ≠ "" ∧
    ∀ ns, Template.names t = .ok ns → ∀ n ∈ ns, n ∈ d.displayNames

end Draft

/-! ## Printing -/

/-- Where there are spaces in print that do not matter: before the brackets of fields, inside
brackets, before a comma and before a colon. -/
structure Spacing where
  before : Delimiter → Bool
  inside : Delimiter → Bool
  comma : Bool
  colon : Bool

/-- Texts in brackets, with commas between them. -/
def Spacing.enclose (sp : Spacing) (d : Delimiter) (ss : List String) : String :=
  d.opener.toString ++ spaceIf (sp.inside d) ++
    (if ss.isEmpty then "" else
      (spaceIf sp.comma ++ ", ").intercalate ss ++ spaceIf (sp.inside d)) ++
    d.closer.toString

namespace Draft

variable (sp : Spacing)

/-- A field without its marker: its type, behind its key in a struct. -/
def printPlain (d : Draft) (f : String × String) : String :=
  match d.shape with
  | .struct => f.1 ++ spaceIf sp.colon ++ ": " ++ f.2
  | _ => f.2

/-- A field behind its marker, if it has one. -/
def printField (d : Draft) (f : String × String) : String :=
  match d.marker? f.1 with
  | some name => attributeText name ++ " " ++ d.printPlain sp f
  | none => d.printPlain sp f

/-- The field list of a draft, if its shape has one. -/
def printFields (d : Draft) : String :=
  match d.shape.delimiter? with
  | some b => spaceIf (sp.before b) ++ sp.enclose b (d.fields.map (d.printField sp))
  | none => ""

/-- A draft as a variant. -/
def print (d : Draft) : String :=
  "#[error(" ++ Literal.quote d.message ++ ")] " ++ d.name ++ d.printFields sp

/-- Drafts as an enum of a name. -/
def printEnum (name : String) (ds : List Draft) : String :=
  "enum " ++ name ++ " " ++ sp.enclose .brace (ds.map (print sp))

end Draft

/-! ## Forms of drafts -/

namespace Form

/-- The key and the type of a field; in a tuple the type alone. -/
def plainField (s : Shape) (f : String × String) : Form :=
  match s with
  | .struct => append (leaf (.ident f.1)) (append (mark ":") (Spells 0 0 f.2))
  | _ => Spells 0 0 f.2

/-- A field of a draft. -/
def field (d : Draft) (f : String × String) : Form :=
  append (marker (d.marker? f.1)) (plainField d.shape f)

/-- The field list of a draft. -/
def fields (d : Draft) : Form :=
  match d.shape.delimiter? with
  | some b => group b (row (field d) d.fields)
  | none => nothing

/-- The message attribute of a draft. -/
def message (text : String) : Form :=
  Form.attribute "error" (group .paren (leaf (.literal .string (Literal.quote text))))

/-- A draft as a variant. -/
def draft (d : Draft) : Form :=
  append (message d.message) (append (leaf (.ident d.name)) (fields d))

/-- Drafts as an enum of a name. -/
def enum (name : String) (ds : List Draft) : Form :=
  append (leaf (.ident "enum")) (append (leaf (.ident name)) (group .brace (row draft ds)))

end Form

/-! ## Drafts as phrases -/

namespace Phrase

variable {a b : Edge} {s n : String}

/-- An attribute, if what stands in its brackets is a phrase. -/
theorem attributed {args : Form}
    (h : Phrase a b (Form.append (Form.leaf (.ident n)) args) s) :
    Phrase .word .solid (Form.attribute n args) ("#[" ++ s ++ "]") := by
  have hh : Phrase .word .solid (Form.mark "#") "#" :=
    mark (by decide) (by decide) (by decide) (by decide)
  have hg : Phrase .word .solid (Form.attribute n args) _ :=
    hh.gapped (h.group .bracket false) false
  have he : "#" ++ spaceIf false ++ (Delimiter.bracket.opener.toString ++ spaceIf false ++ s ++
      spaceIf false ++ Delimiter.bracket.closer.toString) = "#[" ++ s ++ "]" := by
    simp [← String.toList_inj, spaceIf, Delimiter.opener, Delimiter.closer]
  rwa [he] at hg

theorem message (text : String) :
    Phrase .word .solid (Form.message text) ("#[error(" ++ Literal.quote text ++ ")]") := by
  have hi : Phrase .word .word (Form.leaf (.ident "error")) "error" := ident (by decide)
  have hg : Phrase .word .solid (Form.message text) _ :=
    (hi.gapped ((quote text).group .paren false) false).attributed
  have he : "#[" ++ ("error" ++ spaceIf false ++ (Delimiter.paren.opener.toString ++
      spaceIf false ++ Literal.quote text ++ spaceIf false ++ Delimiter.paren.closer.toString)) ++
        "]" = "#[error(" ++ Literal.quote text ++ ")]" := by
    simp [← String.toList_inj, spaceIf, Delimiter.opener, Delimiter.closer]
  rwa [he] at hg

/-- Phrases in brackets, with commas between them. -/
theorem enclose {ι : Type} {F : ι → Form} {f : ι → String} {is : List ι} (sp : Spacing)
    (d : Delimiter) (h : ∀ i ∈ is, Phrase .word .word (F i) (f i)) :
    Phrase .solid .solid (Form.group d (Form.row F is)) (sp.enclose d (is.map f)) := by
  cases is with
  | nil =>
    have hg : Phrase .solid .solid (Form.group d (Form.row F [])) _ := emptyGroup d (sp.inside d)
    simpa [Spacing.enclose] using hg
  | cons i is =>
    simpa [Spacing.enclose, String.append_assoc] using (row sp.comma h).group d (sp.inside d)

end Phrase

namespace Draft

variable {d : Draft} {f : String × String}

theorem phrase_printPlain (sp : Spacing) (ht : IsType f.2)
    (hk : d.shape = .struct → Lexeme.isIdent f.1.toList = true) :
    Phrase .word .word (Form.plainField d.shape f) (d.printPlain sp f) := by
  unfold Form.plainField printPlain
  split
  · next hs =>
    have h := (Phrase.ident (hk hs)).gapped (Phrase.colon.spaced (Phrase.type ht)) sp.colon
    simpa [String.append_assoc] using h
  · exact Phrase.type ht

theorem mem_of_marker? {key n : String} (h : d.marker? key = some n) :
    n ∈ ["from", "source"] := by
  unfold marker? CauseKind.attribute? at h
  grind

/-- At most one field of a draft is marked. -/
theorem marker?_of_ne {k k' n : String} (h : d.marker? k = some n) (hk : k' ≠ k) :
    d.marker? k' = none := by
  unfold marker? at h ⊢
  grind

theorem isIdent_of_marker? {key n : String} (h : d.marker? key = some n) :
    Lexeme.isIdent n.toList = true := by
  have hi : ∀ n ∈ ["from", "source"], Lexeme.isIdent n.toList = true := by decide
  exact hi n (mem_of_marker? h)

theorem phrase_printField (sp : Spacing) (ht : IsType f.2)
    (hk : d.shape = .struct → Lexeme.isIdent f.1.toList = true) :
    Phrase .word .word (Form.field d f) (d.printField sp f) := by
  have hp := phrase_printPlain sp ht hk
  unfold Form.field printField
  cases hm : d.marker? f.1 with
  | none => exact hp.behind_nothing
  | some n => exact (Phrase.ident (isIdent_of_marker? hm)).before_nothing.attributed.spaced hp

namespace Proper

variable (h : d.Proper)
include h

theorem isIdent_key (hs : d.shape = .struct) (hf : f ∈ d.fields) :
    Lexeme.isIdent f.1.toList = true := by
  have hk := h.keys
  rw [hs] at hk
  exact hk.2 f.1 (List.mem_map_of_mem hf)

theorem phrase_print (sp : Spacing) : Phrase .word .word (Form.draft d) (d.print sp) := by
  have hn : Phrase .word .word (Form.append (Form.leaf (.ident d.name)) (Form.fields d))
      (d.name ++ d.printFields sp) := by
    unfold Form.fields printFields
    cases d.shape.delimiter? with
    | none => simpa using (Phrase.ident h.name).before_nothing
    | some b =>
      have hf := Phrase.enclose sp b fun f hf ↦
        phrase_printField sp (h.types f hf) fun hs ↦ h.isIdent_key hs hf
      have ha := (Phrase.ident h.name).gapped hf (sp.before b)
      simpa [String.append_assoc] using ha.ofSolid (b := .word) (by decide)
  have hp : Phrase .word .word (Form.draft d) _ := (Phrase.message d.message).spaced hn
  simpa [print, String.append_assoc] using hp

end Proper

theorem phrase_printEnum {name : String} {ds : List Draft} (sp : Spacing)
    (hn : Lexeme.isIdent name.toList = true) (hd : ∀ d ∈ ds, d.Proper) :
    Phrase .word .solid (Form.enum name ds) (printEnum sp name ds) := by
  have he : Phrase .word .word (Form.leaf (.ident "enum")) "enum" := .ident (by decide)
  have hb := Phrase.enclose sp .brace fun d h ↦ (hd d h).phrase_print sp
  have hp : Phrase .word .solid (Form.enum name ds) _ := he.spaced ((Phrase.ident hn).spaced hb)
  simpa [printEnum, String.append_assoc] using hp

end Draft

end ErrorDerive
