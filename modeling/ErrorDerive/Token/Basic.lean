import ErrorDerive.Source.Span
import ErrorDerive.Token.Lexeme

/-!
# Tokens

A token is a lexeme with meaning, together with the stretch of source that it occupies.
-/

namespace ErrorDerive

structure Token where
  kind : TokenKind
  text : String
  extent : Extent
deriving DecidableEq, Repr

namespace Token

/-- The tokens among lexemes that start at a place; an empty label is no label. -/
def place (label : Option String) (p : Place) : List Lexeme → List Token
  | [] => []
  | ⟨.trivia _, text⟩ :: ls => place label (p.after text) ls
  | ⟨.token k, text⟩ :: ls =>
    ⟨k, String.ofList text, ⟨named label, p, p.after text⟩⟩ :: place label (p.after text) ls

@[simp] theorem place_nil (label : Option String) (p : Place) : place label p [] = [] := rfl

/-- Whether a punctuation mark starts at an offset, as the next token. -/
def markAt (offset : Nat) : List Token → Bool
  | [] => false
  | t :: _ => t.kind == .leaf .punct && t.extent.start == offset

end Token

end ErrorDerive
