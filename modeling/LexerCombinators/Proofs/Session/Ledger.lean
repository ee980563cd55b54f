import Mathlib.Tactic.Common
import LexerCombinators.Proofs.Report.Pending
import LexerCombinators.Session

/-!
# Keeping a ledger

The list of pending diagnostics does not tell what was registered before a report emptied it. Here
the steps of a session are performed on a `Ledger`, which also keeps every diagnostic that was
registered and the diagnostics of every report. A computation that registers is written again with
its entries (`Booking`); any other works on the pending diagnostics as it is, and if it ends with a
report, the report is entered (`passing`).

The ledger is for proofs only. `Erases y x` says that `y`, without its ledger, is the computation
`x`; it holds of all parts and so of every step (`erases_perform`), and a session is what its steps
do to a ledger, as far as answers and pending diagnostics go (`session_append_singleton`).
-/

namespace LexerCombinators

/-- What became of diagnostics: all that were registered, in order; those of each report; and those
that are pending. -/
structure Ledger where
  registered : List Diagnostic
  reports : List (List Diagnostic)
  pending : Pending

namespace Ledger

def empty : Ledger := ⟨[], [], []⟩

/-- Reporting computations that keep a ledger. -/
abbrev Booking (φ : Type) := ExceptT (Failure φ) (StateM Ledger)

section Steps

variable {P φ α : Type}

/-- Adds a diagnostic behind the others, and enters it. -/
def register (d : Diagnostic) : Booking φ Unit :=
  modify fun l => { l with registered := l.registered ++ [d], pending := l.pending ++ [d] }

/-- A computation that registers nothing. -/
def passing (x : Reporting φ α) : Booking φ α := ExceptT.mk fun l =>
  match x.run.run l.pending with
  | (.error (.reported stage ds), pending) =>
    (.error (.reported stage ds), { l with reports := l.reports ++ [ds], pending })
  | (r, pending) => (r, { l with pending })

def lexemes (program : Text) : Attempt → Booking φ (List Text)
  | .lexed ls => do
    passing (communicate .scanner)
    pure ls
  | .stopped remaining => do
    register (.stuck program remaining)
    passing (communicate .scanner)
    pure []
  | .bodiless k => throw (.bodiless k)

def tokens (program whitespace : Text) (a : Attempt) : Booking φ (List Token) := do
  let ls ← lexemes program a
  let ws := words program whitespace ls
  (unknownTokens program ws).forM register
  passing (communicate .scanner)
  pure (knownTokens ws)

variable [Runnable P φ]

def lex (s : Scanner P) : Booking φ (List Text) := do
  lexemes s.program (← passing s.attempt)

def scan (s : Scanner P) : Booking φ (List Token) := do
  tokens s.program s.whitespace (← passing s.attempt)

def reportFailure (program : Text) (body : P) : Booking φ Unit :=
  match Runnable.leftover body program with
  | .ok remaining => register (.stuck program remaining)
  | .error e => throw (.fault e)

def runTool (program : Text) : Booking (Stall Empty Empty) Output :=
  tryCatch (Output.ofTokens <$> scan ({ program, lexer := Lexicon.program } : Scanner Lexer)) fun
    | .reported .scanner ds => pure (.ofReport ds)
    | e => throw e

/-- Performs a step. -/
def perform : Step P → Booking (SessionFault φ) Answer
  | .register d => do
    register d
    pure (.registered d)
  | .lex s => Answer.lexemes <$> (lex s).adapt (Failure.mapFault .inl)
  | .scan s => Answer.tokens <$> (scan s).adapt (Failure.mapFault .inl)
  | .reportFailure program body => do
    (reportFailure program body).adapt (Failure.mapFault .inl)
    pure .done
  | .communicate stage => do
    passing (communicate stage)
    pure .done
  | .tool program => Answer.output <$> (runTool program).adapt (Failure.mapFault .inr)
  | .toolOnBytes bytes =>
    Answer.output <$> (runTool (Text.ofLatin1 bytes)).adapt (Failure.mapFault .inr)
  | step => passing step.perform

/-- The ledger after some steps. -/
def after (l : Ledger) (steps : List (Step P)) : Ledger :=
  steps.foldl (fun l step => ((perform step).run.run l).2) l

end Steps

/-! ### Without the ledger -/

/-- The computation `y` is `x` with a ledger: it ends in the same way and leaves the same pending
diagnostics. -/
def Erases {φ α : Type} (y : Booking φ α) (x : Reporting φ α) : Prop :=
  ∀ l : Ledger, x.run.run l.pending = ((y.run.run l).1, (y.run.run l).2.pending)

section Erasure

variable {P φ ψ α β : Type} {y : Booking φ α} {x : Reporting φ α}

theorem erases_register (d : Diagnostic) :
    Erases (register d : Booking φ Unit) (LexerCombinators.register d) := fun _ => rfl

theorem erases_pure (a : α) : Erases (pure a : Booking φ α) (pure a) := fun _ => rfl

theorem erases_throw (e : Failure φ) : Erases (throw e : Booking φ α) (throw e) := fun _ => rfl

theorem run_passing (x : Reporting φ α) (l : Ledger) :
    (passing x).run.run l = match x.run.run l.pending with
      | (.error (.reported stage ds), pending) =>
        (.error (.reported stage ds), { l with reports := l.reports ++ [ds], pending })
      | (r, pending) => (r, { l with pending }) := rfl

theorem erases_passing (x : Reporting φ α) : Erases (passing x) x := by
  intro l
  rw [run_passing]
  rcases x.run.run l.pending with ⟨(_ | _ | _) | _, pending⟩ <;> rfl

theorem Erases.bind {g : α → Booking φ β} {f : α → Reporting φ β} (h : Erases y x)
    (hf : ∀ a, Erases (g a) (f a)) : Erases (y >>= g) (x >>= f) := by
  intro l
  have hx := h l
  rcases hy : y.run.run l with ⟨r, l'⟩
  rw [hy] at hx
  cases r with
  | error e => rw [run_bind_of_error hx, run_bind_of_error hy]
  | ok a => rw [run_bind_of_ok hx, run_bind_of_ok hy, hf a l']

theorem Erases.map (h : Erases y x) (f : α → β) : Erases (f <$> y) (f <$> x) := by
  rw [map_eq_pure_bind, map_eq_pure_bind]
  exact h.bind fun a => erases_pure (f a)

theorem Erases.adapt (h : Erases y x) (f : Failure φ → Failure ψ) :
    Erases (y.adapt f) (x.adapt f) := by
  intro l
  rw [run_adapt, run_adapt, h l]

theorem Erases.tryCatch {handle : Failure φ → Booking φ α} {handle' : Failure φ → Reporting φ α}
    (h : Erases y x) (hhandle : ∀ e, Erases (handle e) (handle' e)) :
    Erases (tryCatch y handle) (tryCatch x handle') := by
  intro l
  have hx := h l
  rcases hy : y.run.run l with ⟨r, l'⟩
  rw [hy] at hx
  cases r with
  | error e => rw [run_tryCatch_of_error _ hx, run_tryCatch_of_error _ hy, hhandle e l']
  | ok a => rw [run_tryCatch_of_ok _ hx, run_tryCatch_of_ok _ hy]

theorem erases_forM_register (ds : List Diagnostic) :
    Erases (ds.forM register : Booking φ Unit) (ds.forM LexerCombinators.register) := by
  induction ds with
  | nil => exact erases_pure ()
  | cons d ds ih => exact (erases_register d).bind fun _ => ih

theorem erases_lexemes (program : Text) (a : Attempt) :
    Erases (lexemes program a : Booking φ (List Text)) (a.lexemes program) := by
  cases a with
  | lexed ls => exact (erases_passing _).bind fun _ => erases_pure ls
  | stopped r =>
    exact (erases_register _).bind fun _ => (erases_passing _).bind fun _ => erases_pure []
  | bodiless k => exact erases_throw _

theorem erases_tokens (program whitespace : Text) (a : Attempt) :
    Erases (tokens program whitespace a : Booking φ (List Token)) (a.tokens program whitespace) :=
  (erases_lexemes program a).bind fun _ => (erases_forM_register _).bind fun _ =>
    (erases_passing _).bind fun _ => erases_pure _

variable [Runnable P φ]

theorem erases_lex (s : Scanner P) : Erases (lex s) s.lex :=
  (erases_passing _).bind fun a => erases_lexemes s.program a

theorem erases_scan (s : Scanner P) : Erases (scan s) s.scan :=
  (erases_passing _).bind fun a => erases_tokens s.program s.whitespace a

theorem erases_reportFailure (program : Text) (body : P) :
    Erases (reportFailure program body) (LexerCombinators.reportFailure program body) := by
  unfold reportFailure LexerCombinators.reportFailure
  cases Runnable.leftover body program with
  | ok remaining => exact erases_register _
  | error e => exact erases_throw _

theorem erases_runTool (program : Text) :
    Erases (runTool program) (LexerCombinators.runTool program) := by
  refine ((erases_scan _).map _).tryCatch fun e => ?_
  cases e with
  | fault e => exact erases_throw _
  | bodiless k => exact erases_throw _
  | reported stage ds =>
    cases stage with
    | scanner => exact erases_pure _
    | lexer | combinator => exact erases_throw _

/-- **A step on a ledger** is the step, with a ledger. -/
theorem erases_perform (step : Step P) : Erases (perform step) step.perform := by
  cases step with
  | register d => exact (erases_register d).bind fun _ => erases_pure _
  | lex s => exact ((erases_lex s).adapt _).map _
  | scan s => exact ((erases_scan s).adapt _).map _
  | reportFailure program body =>
    exact ((erases_reportFailure program body).adapt _).bind fun _ => erases_pure _
  | tool program => exact ((erases_runTool program).adapt _).map _
  | toolOnBytes bytes => exact ((erases_runTool _).adapt _).map _
  | communicate stage => exact (erases_passing _).bind fun _ => erases_pure _
  | describe | compare | sort | clear => exact erases_passing _

/-- **One more step of a session** answers and leaves what it does on the ledger of the steps before
it. -/
theorem session_append_singleton (l : Ledger) (steps : List (Step P)) (step : Step P) :
    session (steps ++ [step]) l.pending = session steps l.pending ++
      [(((perform step).run.run (l.after steps)).1,
        ((perform step).run.run (l.after steps)).2.pending)] := by
  induction steps generalizing l with
  | nil => simp [session, after, erases_perform step l]
  | cons first steps ih =>
    have hstep := erases_perform first l
    simp only [List.cons_append, session, hstep, ih]
    rfl

end Erasure

end Ledger

end LexerCombinators
