import LexerCombinators.Report.Notice
import LexerCombinators.Text.Quoted

/-!
# Diagnostics

A diagnostic is a complaint about a span of a program. The two kinds that lexing and scanning make
are shown as notices; the two general kinds are shown by their fields.
-/

namespace LexerCombinators

/-- What a diagnostic complains about. -/
inductive Cause where
  /-- Something in the program, in general. -/
  | lexer
  /-- Something that scanning met, in general. -/
  | scanner
  /-- No lexer got past this text. -/
  | unlexed (rest : Text)
  /-- The lexeme is no token. -/
  | unknownToken (lexeme : Text)
deriving DecidableEq

/-- The name of the kind of diagnostic. -/
def Cause.name : Cause → Text
  | lexer => "LexerError".toList
  | scanner => "ScannerError".toList
  | unlexed _ => "LexFailureError".toList
  | unknownToken _ => "UnknownTokenError".toList

/-- The title of the notice; only the general kind may have another than its own. -/
def Cause.title (title : Text) : Cause → Text
  | lexer => title
  | _ => "ScannerError".toList

/-- A complaint about a span of a program. -/
structure Diagnostic where
  program : Text
  span : Span
  cause : Cause
deriving DecidableEq

namespace Diagnostic

/-- The diagnostic field by field. -/
def written (d : Diagnostic) : Text :=
  d.cause.name ++ "(program=".toList ++ d.program.quoted ++ ", span=".toList ++ d.span.written ++
    (match d.cause with
      | .unlexed s => ", unlexed=".toList ++ s.quoted
      | .unknownToken s => ", lexeme=".toList ++ s.quoted
      | _ => []) ++ [')']

/-- The notice of a diagnostic, with given texts around the shown lines and a title for the general
kind. -/
def notice (d : Diagnostic) (before after title : Text) : Notice where
  program := d.program
  span := d.span
  title := d.cause.title title
  before := before
  after := after

/-- What is shown to the programmer. -/
def shown (d : Diagnostic) : Text :=
  match d.cause with
  | .unlexed s =>
    (d.notice ("Could not lex the input from ".toList ++ s.quoted ++ " onwards on ".toList ++
      d.span.lineNames ++ ['.']) [] []).text
  | .unknownToken s =>
    (d.notice ("Unknown token ".toList ++ s.quoted ++ " on ".toList ++ d.span.lineNames ++ ['.'])
      "This text was lexed, but it is not a keyword, operator, name or number.".toList []).text
  | _ => d.written

/-- Diagnostics are ordered by the line and the column at which their spans start. -/
def startsBefore (a b : Diagnostic) : Bool :=
  a.span.startLine < b.span.startLine ||
    (a.span.startLine = b.span.startLine && a.span.startColumn ≤ b.span.startColumn)

end Diagnostic

end LexerCombinators
