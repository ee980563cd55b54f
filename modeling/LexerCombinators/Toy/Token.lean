import LexerCombinators.Source.Span
import LexerCombinators.Toy.Kind

/-!
# Tokens

A token is a text of a known kind together with the span it came from. Tokens are compared without
their spans.
-/

namespace LexerCombinators

/-- A classified lexeme. -/
structure Token where
  text : Text
  kind : Kind
  span : Span
deriving DecidableEq

namespace Token

/-- The token of a lexeme, if it is one. -/
def ofLexeme? (lexeme : Text) (span : Span) : Option Token :=
  (Kind.classify lexeme).map fun kind => ⟨lexeme, kind, span⟩

/-- What is said about a lexeme that is no token. -/
def unknownMessage (lexeme : Text) : Text := "Unknown token ".toList ++ lexeme.quoted

/-- Whether two tokens agree in text and kind. -/
def same (a b : Token) : Bool := a.text = b.text && a.kind = b.kind

/-- The token as it is printed: its text as it stands, and the name of its kind. -/
def written (t : Token) : Text :=
  "Token(\"".toList ++ t.text ++ "\", ".toList ++ t.kind.name ++ [')']

end Token

end LexerCombinators
