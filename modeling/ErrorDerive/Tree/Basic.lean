import ErrorDerive.Failure.Cause
import ErrorDerive.Token.Basic

/-!
# Token trees

A token tree is a leaf or a delimited group of trees.  `render` writes trees back as text: what
touched in the source touches again, and whatever lay between two trees becomes one space.
-/

namespace ErrorDerive

/-- A leaf without its place.  A mark is `joint` when the next token is a mark that touches it. -/
inductive Leaf
  | ident (text : String)
  | punct (mark : String) (joint : Bool)
  | literal (kind : LiteralKind) (text : String)
  | lifetime (text : String)
  | doc (text : String)
deriving DecidableEq, Repr, Inhabited

namespace Leaf

/-- A line of a block comment without the white space around it and one star in front. -/
def starless (line : List Char) : List Char :=
  match Text.trim line with
  | '*' :: cs => cs
  | cs => cs

/-- The text of a documentation comment: what follows `///`, or the lines inside `/** ... */`. -/
def docText (text : List Char) : List Char :=
  if ['/', '/', '/'].isPrefixOf text then text.drop 3
  else ['\n'].intercalate ((Text.lines (text.drop 3).dropLast.dropLast).map starless)

/-- The leaf of a lexeme. -/
def ofLexeme (text : String) (joint : Bool) : LeafKind → Leaf
  | .doc => .doc (String.ofList (docText text.toList))
  | .literal k => .literal k text
  | .lifetime => .lifetime text
  | .ident => .ident text
  | .punct => .punct text joint

def render : Leaf → String
  | .ident text => text
  | .punct mark _ => mark
  | .literal _ text => text
  | .lifetime text => text
  | .doc text => "///" ++ text

/-- A leaf as messages call it. -/
def describe : Leaf → String
  | .doc _ => "doc comment"
  | l => ticked l.render

end Leaf

inductive Tree
  | leaf (extent : Extent) (leaf : Leaf)
  | group (extent : Extent) (delimiter : Delimiter) (trees : List Tree) (close : Extent)
deriving Repr, Inhabited

/-- A space between two offsets, if both are known and something lies between them. -/
def gap : Option Int → Option Int → String
  | some a, some b => if a < b then " " else ""
  | _, _ => ""

namespace Tree

def extent : Tree → Extent
  | .leaf e _ => e
  | .group e _ _ _ => e

def span (t : Tree) : Span := t.extent.span

def start (t : Tree) : Nat := t.extent.start

def stop (t : Tree) : Nat := t.extent.stop

@[simp] theorem extent_leaf (e : Extent) (l : Leaf) : (Tree.leaf e l).extent = e := rfl

@[simp] theorem extent_group (e : Extent) (d : Delimiter) (ts : List Tree) (c : Extent) :
    (Tree.group e d ts c).extent = e := rfl

mutual

/-- A tree as text. -/
def render : Tree → String
  | .leaf _ l => l.render
  | .group e d ts _ =>
    d.opener.toString ++ renderAll (some (e.start + 1)) (some (e.stop - 1)) ts ++ d.closer.toString

/-- Trees as text, with what lies between them and the bounds of the region that holds them. -/
def renderAll (start stop : Option Int) : List Tree → String
  | [] => ""
  | [t] => gap start (some t.start) ++ render t ++ gap (some t.stop) stop
  | t :: u :: ts =>
    gap start (some t.start) ++ render t ++ renderAll (some t.stop) stop (u :: ts)

end

/-- A tree as messages call it. -/
def describe : Tree → String
  | .leaf _ l => l.describe
  | .group _ d _ _ => ticked d.elided

end Tree

/-- What messages say was found. -/
def describeNext : Option Tree → String
  | none => "end of input"
  | some t => t.describe

/-! ## Views of trees -/

/-- An identifier in its place. -/
structure Ident where
  extent : Extent
  text : String
deriving DecidableEq, Repr, Inhabited

/-- A punctuation mark in its place. -/
structure Punct where
  extent : Extent
  mark : String
  joint : Bool
deriving DecidableEq, Repr

/-- A literal in its place. -/
structure Lit where
  extent : Extent
  kind : LiteralKind
  text : String
deriving DecidableEq, Repr

/-- A group in its place. -/
structure Group where
  extent : Extent
  delimiter : Delimiter
  trees : List Tree
  close : Extent
deriving Repr

def Ident.toTree (i : Ident) : Tree := .leaf i.extent (.ident i.text)

def Punct.toTree (p : Punct) : Tree := .leaf p.extent (.punct p.mark p.joint)

def Lit.toTree (l : Lit) : Tree := .leaf l.extent (.literal l.kind l.text)

def Lit.value (l : Lit) : Except Literal.Fault String := Literal.value l.kind l.text

def Group.toTree (g : Group) : Tree := .group g.extent g.delimiter g.trees g.close

namespace Tree

def ident? : Tree → Option Ident
  | .leaf e (.ident text) => some ⟨e, text⟩
  | _ => none

def punct? : Tree → Option Punct
  | .leaf e (.punct mark joint) => some ⟨e, mark, joint⟩
  | _ => none

def lit? : Tree → Option Lit
  | .leaf e (.literal kind text) => some ⟨e, kind, text⟩
  | _ => none

def group? : Tree → Option Group
  | .group e d ts close => some ⟨e, d, ts, close⟩
  | _ => none

@[simp] theorem ident?_toTree (i : Ident) : i.toTree.ident? = some i := rfl

@[simp] theorem punct?_toTree (p : Punct) : p.toTree.punct? = some p := rfl

@[simp] theorem lit?_toTree (l : Lit) : l.toTree.lit? = some l := rfl

@[simp] theorem group?_toTree (g : Group) : g.toTree.group? = some g := rfl

/-- Whether a tree is a given mark. -/
def isMark (mark : String) : Tree → Bool
  | .leaf _ (.punct m _) => m == mark
  | _ => false

/-- Whether a tree is a given mark that touches the next. -/
def isJointMark (mark : String) : Tree → Bool
  | .leaf _ (.punct m joint) => m == mark && joint
  | _ => false

end Tree

end ErrorDerive
