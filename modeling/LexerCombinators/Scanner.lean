import LexerCombinators.Pattern.Probe
import LexerCombinators.Report.Pending
import LexerCombinators.Toy.Lexicon
import LexerCombinators.Toy.Token

/-!
# Scanning

A scanner runs a lexer over a whole program and turns the lexemes into tokens. The lexer is run
first, on its own, and what comes of that is an `Attempt`; everything after it is bookkeeping on
the pending diagnostics. When the lexer fails, the pattern inside it is run once more to learn how
far it gets (`Pattern.attempt`), and that place is reported. White space is dropped, and all
lexemes that are no tokens are reported together.
-/

namespace LexerCombinators

/-! ### Attempts -/

/-- What comes of running a lexer over a whole program. -/
inductive Attempt where
  /-- The lexer matched. -/
  | lexed (lexemes : List Text)
  /-- The lexer failed, and its body leaves this. -/
  | stopped (remaining : Text)
  /-- The lexer failed, and is of a kind without a body. -/
  | bodiless (formName : Text)
deriving DecidableEq

/-- Runs a pattern over a program, and after a failure its body. -/
def Pattern.attempt {α ω ε : Type} {m : Type → Type} [Monad m] [MonadExceptOf ε m] [Written α]
    [Written ω] (client : Client α ω ε m) (p : Pattern α ω) (program : Text) : m Attempt := do
  let r ← p.matcher client program
  if r.isSuccess then pure (.lexed r.lexemes)
  else
    match p.body? with
    | some q => do
      let r' ← q.matcher client program
      pure (.stopped r'.remaining)
    | none => pure (.bodiless p.formName)

/-- Lexers of type `P` that can be run over programs, and end early with a fault of type `φ`. -/
class Runnable (P : Type) (φ : outParam Type) where
  /-- The attempt of a lexer on a program. -/
  attempt : P → Text → Except φ Attempt
  /-- What a lexer leaves of a program. -/
  leftover : P → Text → Except φ Text

instance : Runnable Lexer (Stall Empty Empty) where
  attempt p program := Pattern.attempt Lexer.client p program
  leftover p program := Result.remaining <$> p.run program

/-- The attempt of a probe on a program, and the probe with the answers that its scripts have
left. -/
def Probe.attempt (p : Probe) (program : Text) : Except Probe.Fault Attempt × Probe :=
  let ((a, _), scripts) := (p.pattern.attempt Probe.client program []).run p.scripts
  (a, { p with scripts })

instance : Runnable Probe Probe.Fault where
  attempt p program := (p.attempt program).1
  leftover p program :=
    Result.remaining <$> ((p.pattern.matcher Probe.client program []).run p.scripts).1.1

/-! ### Lexemes -/

/-- The text to show for what remains of a program: the rest of the line, or the line break if
there is no such rest. -/
def unlexedText (remaining : Text) : Text :=
  let rest := remaining.lines.headD []
  if rest.isEmpty then remaining.take 1 else rest

/-- The diagnostic for what remains of a program. -/
def Diagnostic.stuck (program remaining : Text) : Diagnostic where
  program := program
  span :=
    let start : Int := program.length - remaining.length
    Span.ofOffsets program start (start + (unlexedText remaining).length)
  cause := .unlexed (unlexedText remaining)

/-- The lexemes of an attempt on a program, unless there is something to report. -/
def Attempt.lexemes {φ : Type} (program : Text) : Attempt → Reporting φ (List Text)
  | lexed ls => do
    communicate .scanner
    pure ls
  | stopped remaining => do
    register (.stuck program remaining)
    communicate .scanner
    pure []
  | bodiless k => throw (.bodiless k)

/-! ### Tokens -/

/-- Whether all characters of a lexeme are among `whitespace`. -/
def isWhitespaceIn (whitespace lexeme : Text) : Bool := lexeme.all whitespace.contains

/-- Lexemes with their offsets, when the first stands at offset `o`. -/
def placed (o : Nat) : List Text → List (Nat × Text)
  | [] => []
  | l :: ls => (o, l) :: placed (o + l.length) ls

/-- The lexemes of a program that are not white space, each with its span. -/
def words (program whitespace : Text) (lexemes : List Text) : List (Text × Span) :=
  let table := lineStarts program
  ((placed 0 lexemes).filter fun (_, l) => !isWhitespaceIn whitespace l).map fun (o, l) =>
    (l, Span.ofTable table o (o + l.length))

/-- The diagnostics for the words that are no tokens. -/
def unknownTokens (program : Text) (ws : List (Text × Span)) : List Diagnostic :=
  (ws.filter fun (l, _) => (Kind.classify l).isNone).map fun (l, span) =>
    ⟨program, span, .unknownToken l⟩

/-- The words that are tokens. -/
def knownTokens (ws : List (Text × Span)) : List Token :=
  ws.filterMap fun (l, span) => Token.ofLexeme? l span

/-- The tokens of an attempt on a program, unless there is something to report. -/
def Attempt.tokens {φ : Type} (program whitespace : Text) (a : Attempt) :
    Reporting φ (List Token) := do
  let lexemes ← a.lexemes program
  let ws := words program whitespace lexemes
  (unknownTokens program ws).forM register
  communicate .scanner
  pure (knownTokens ws)

/-! ### Scanners -/

/-- A program with the lexer to take it apart and the characters that count as white space. -/
structure Scanner (P : Type) where
  program : Text
  lexer : P
  whitespace : Text := Lexicon.whitespace

namespace Scanner

variable {P φ : Type} [Runnable P φ]

/-- The attempt of the scanner's lexer on its program; a fault ends the scan. -/
def attempt (s : Scanner P) : Reporting φ Attempt :=
  match Runnable.attempt s.lexer s.program with
  | .ok a => pure a
  | .error e => throw (.fault e)

/-- The lexemes of the program. -/
def lex (s : Scanner P) : Reporting φ (List Text) := do
  (← s.attempt).lexemes s.program

/-- The tokens of the program. -/
def scan (s : Scanner P) : Reporting φ (List Token) := do
  (← s.attempt).tokens s.program s.whitespace

/-- A scanner of a probe, with the answers that one attempt leaves in its scripts. -/
def afterAttempt (s : Scanner Probe) : Scanner Probe :=
  { s with lexer := (s.lexer.attempt s.program).2 }

end Scanner

/-- Registers how far `body` gets in a program. -/
def reportFailure {P φ : Type} [Runnable P φ] (program : Text) (body : P) : Reporting φ Unit :=
  match Runnable.leftover body program with
  | .ok remaining => register (.stuck program remaining)
  | .error e => throw (.fault e)

/-- The tokens of a program of the toy language. -/
def tokenize (program : Text) : Reporting (Stall Empty Empty) (List Token) :=
  ({ program, lexer := Lexicon.program } : Scanner Lexer).scan

end LexerCombinators
