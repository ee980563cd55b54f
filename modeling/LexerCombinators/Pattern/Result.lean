import LexerCombinators.Text.Quoted

/-!
# Results of lexing

A result holds the lexemes that were matched and what remains of the stream. The three ways in
which patterns make one are `success`, `untouched` (a success without lexemes) and `fail`; any
other combination of the fields is a result too, since foreign lexers may answer with it.
-/

namespace LexerCombinators

/-- What a lexer makes of a stream. -/
structure Result where
  /-- The matched pieces, in order. -/
  lexemes : List Text
  /-- What is left of the stream. -/
  remaining : Text
  /-- Whether the lexer matched. -/
  isSuccess : Bool
deriving DecidableEq

namespace Result

/-- A match. -/
def success (lexemes : List Text) (remaining : Text) : Result := ⟨lexemes, remaining, true⟩

/-- A match of nothing, which leaves the stream as it is. -/
def untouched (stream : Text) : Result := ⟨[], stream, true⟩

/-- No match; nothing is consumed. -/
def fail (stream : Text) : Result := ⟨[], stream, false⟩

/-- A success without lexemes. -/
def isEmpty (r : Result) : Bool := r.isSuccess && r.lexemes.isEmpty

/-- The matched pieces joined. -/
def text (r : Result) : Text := r.lexemes.flatten

/-- The result in one line, field by field. -/
def written (r : Result) : Text :=
  "LexerResult(lexemes=".toList ++ Text.quotedTuple r.lexemes ++ ", remaining=".toList ++
    r.remaining.quoted ++ ", is_success=".toList ++
    (if r.isSuccess then "True" else "False").toList ++ [')']

/-- Results do not change: an attempt to give a field another value is refused. -/
structure ReadOnly where
  /-- The field that was to change. -/
  field : Text

/-- What the refusal says. -/
def ReadOnly.message (e : ReadOnly) : Text := "cannot assign to field ".toList ++ e.field.quoted

/-- An attempt to give the field named `field` another value: the refusal, and the result
afterwards. -/
def assign (r : Result) (field : Text) : ReadOnly × Result := (⟨field⟩, r)

end Result

end LexerCombinators
