import LexerCombinators.Tool

/-!
# Sessions

A session is a sequence of steps on one list of pending diagnostics: registering, comparing,
describing and reporting them, and scanning programs, which registers and reports too. A step ends
with an `Answer` or with a `Failure`, and the list goes on to the next step in either case.
-/

namespace LexerCombinators

/-- A step of a session, with lexers of type `P`. -/
inductive Step (P : Type) where
  /-- Registers a diagnostic. -/
  | register (d : Diagnostic)
  /-- Describes the pending diagnostic at a signed position, with texts around the shown lines. -/
  | describe (position : Int) (before after title : Text)
  /-- Compares two pending diagnostics. -/
  | compare (a b : Int)
  /-- Reports the pending diagnostics. -/
  | communicate (stage : Stage)
  /-- Puts the pending diagnostics in the order of the program. -/
  | sort
  /-- Forgets the pending diagnostics. -/
  | clear
  /-- Lexes a program. -/
  | lex (s : Scanner P)
  /-- Scans a program. -/
  | scan (s : Scanner P)
  /-- Registers how far a lexer gets in a program. -/
  | reportFailure (program : Text) (body : P)
  /-- Runs the tool on a program. -/
  | tool (program : Text)
  /-- Runs the tool on bytes. -/
  | toolOnBytes (bytes : List UInt8)

/-- The answer of a step. -/
inductive Answer where
  /-- Nothing to tell. -/
  | done
  /-- The diagnostic that was registered. -/
  | registered (d : Diagnostic)
  | described (text : Text)
  | compared (areEqual : Bool)
  /-- A position named no pending diagnostic. -/
  | noEntry
  | lexemes (ls : List Text)
  | tokens (ts : List Token)
  | output (o : Output)
deriving DecidableEq

/-- Why a step of a session ends early: the fault of one of its own lexers, or of the lexer that the
tool runs. -/
abbrev SessionFault (φ : Type) := φ ⊕ Stall Empty Empty

/-- The failure with its fault changed by `f`. -/
def Failure.mapFault {φ ψ : Type} (f : φ → ψ) : Failure φ → Failure ψ
  | fault e => .fault (f e)
  | bodiless k => .bodiless k
  | reported stage ds => .reported stage ds

variable {P φ : Type} [Runnable P φ]

/-- Performs a step. -/
def Step.perform : Step P → Reporting (SessionFault φ) Answer
  | register d => do
    LexerCombinators.register d
    pure (.registered d)
  | describe i before after title => do
    match entry? (← get) i with
    | some d => pure (.described (d.notice before after title).text)
    | none => pure .noEntry
  | compare i j => do
    let ds ← get
    match entry? ds i, entry? ds j with
    | some a, some b => pure (.compared (a = b))
    | _, _ => pure .noEntry
  | communicate stage => do
    LexerCombinators.communicate stage
    pure .done
  | sort => do
    sortPending
    pure .done
  | clear => do
    clearPending
    pure .done
  | lex s => Answer.lexemes <$> s.lex.adapt (Failure.mapFault .inl)
  | scan s => Answer.tokens <$> s.scan.adapt (Failure.mapFault .inl)
  | reportFailure program body => do
    (LexerCombinators.reportFailure program body).adapt (Failure.mapFault .inl)
    pure .done
  | tool program => Answer.output <$> (runTool program).adapt (Failure.mapFault .inr)
  | toolOnBytes bytes => Answer.output <$> (runToolOnBytes bytes).adapt (Failure.mapFault .inr)

/-- Performs steps in order on a list of pending diagnostics: for each step its answer or failure
and the list after it. -/
def session : List (Step P) → Pending → List (Except (Failure (SessionFault φ)) Answer × Pending)
  | [], _ => []
  | step :: steps, pending =>
    let (answer, pending') := step.perform.run.run pending
    (answer, pending') :: session steps pending'

end LexerCombinators
