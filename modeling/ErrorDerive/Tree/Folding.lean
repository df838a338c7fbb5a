import ErrorDerive.Failure.Refusal
import ErrorDerive.Tree.Basic

/-!
# From source text to token trees

The whole text is cut into tokens first; then a stack of open groups turns the flat tokens into
trees.  A text that holds no token at some place is refused there; otherwise the first closing
delimiter without its opening one is, and last an opening one without its closing one.
-/

namespace ErrorDerive

/-- Why and where a text does not fold into trees. -/
structure Unreadable where
  fault : TreeFault
  span : Span
deriving DecidableEq, Repr

def Unreadable.refusal (u : Unreadable) : Refusal := .at u.span (.tree u.fault)

/-- The tokens of a source text; none if some character starts no lexeme. -/
def Token.scan (label : Option String) (source : List Char) : Except Unreadable (List Token) :=
  let r := Lexeme.split source
  match r.2 with
  | [] => .ok (Token.place label .origin r.1)
  | c :: _ =>
    let p := Place.origin.after (r.1.flatMap Lexeme.text)
    .error ⟨.unlexable c, ⟨label, some p.line, some p.column, none, none⟩⟩

/-- A group whose end is still to come: its opening delimiter and the trees before it, the last
first. -/
structure Frame where
  delimiter : Delimiter
  opening : Extent
  before : List Tree

namespace Tree

/-- Folds tokens into trees, given the open groups, the innermost first, and the trees read since
the last of them was opened, the last first. -/
def fold (label : Option String) : List Frame → List Tree → List Token →
    Except Unreadable (List Tree)
  | [], done, [] => .ok done.reverse
  | f :: _, _, [] => .error ⟨.unclosed f.delimiter, f.opening.span⟩
  | fs, done, t :: ts =>
    match t.kind with
    | .leaf k =>
      let leaf := Leaf.ofLexeme t.text (Token.markAt t.extent.stop ts) k
      fold label fs (.leaf t.extent leaf :: done) ts
    | .opener d => fold label (⟨d, t.extent, done⟩ :: fs) [] ts
    | .closer d =>
      match fs with
      | [] => .error ⟨.strayCloser d, t.extent.span⟩
      | f :: fs =>
        if d = f.delimiter then
          let extent : Extent := ⟨label, f.opening.first, t.extent.past⟩
          fold label fs (.group extent d done.reverse t.extent :: f.before) ts
        else .error ⟨.mismatchedCloser d f.delimiter, t.extent.span⟩

/-- The token trees of a source text. -/
def read (label : Option String) (source : String) : Except Unreadable (List Tree) :=
  match Token.scan label source.toList with
  | .ok tokens => fold label [] [] tokens
  | .error u => .error u

end Tree

end ErrorDerive
