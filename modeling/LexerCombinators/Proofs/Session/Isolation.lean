import LexerCombinators.Proofs.Scanner.Runs
import LexerCombinators.Session

/-!
# Requests do not interfere

All scanners share one list of pending diagnostics, so what one of them forgets there would be
reported by the next. Clients do not work on the list themselves: they lex, scan and tokenize
programs and run the tool, and each of these is a `Request`. Whatever comes of a request, an empty
list is empty again afterwards (`settles_request`), since all that it registers is reported before
it ends, and what ends early for another reason has registered nothing. By induction on the session
every request finds the list empty, and has the outcome that it has alone
(`requests_do_not_interfere`).
-/

namespace LexerCombinators

/-- What a client may ask for. -/
inductive Request where
  /-- Lexes a program. -/
  | lex (s : Scanner Lexer)
  /-- Scans a program. -/
  | scan (s : Scanner Lexer)
  /-- Tokenizes a program of the toy language. -/
  | tokenize (program : Text)
  /-- Runs the tool on a program. -/
  | tool (program : Text)
  /-- Runs the tool on bytes. -/
  | toolOnBytes (bytes : List UInt8)

/-- The step that a request is; to tokenize is to scan with the lexer of the toy language. -/
def Request.step : Request → Step Lexer
  | lex s => .lex s
  | scan s => .scan s
  | tokenize program => .scan { program, lexer := Lexicon.program }
  | tool program => .tool program
  | toolOnBytes bytes => .toolOnBytes bytes

/-- What comes of a request that is made alone, with nothing pending. -/
def Request.outcome (q : Request) : Except (Failure (SessionFault (Stall Empty Empty))) Answer :=
  (q.step.perform.run.run []).1

theorem Request.perform_tokenize (program : Text) : (Request.tokenize program).step.perform =
    Answer.tokens <$> (LexerCombinators.tokenize program).adapt (Failure.mapFault .inl) := rfl

/-- The computation leaves nothing pending if nothing was pending before it, whatever it comes
to. -/
def Settles {φ α : Type} (x : Reporting φ α) : Prop := (x.run.run []).2 = []

section Settling

variable {P φ ψ α β : Type} {x : Reporting φ α}

theorem Settles.map (hx : Settles x) (f : α → β) : Settles (f <$> x) := by
  unfold Settles
  rw [run_map]
  exact hx

theorem Settles.adapt (hx : Settles x) (f : Failure φ → Failure ψ) : Settles (x.adapt f) := by
  unfold Settles
  rw [run_adapt]
  exact hx

theorem Settles.tryCatch {handle : Failure φ → Reporting φ α} (hx : Settles x)
    (hhandle : ∀ e, Settles (handle e)) : Settles (tryCatch x handle) := by
  unfold Settles at hx ⊢
  rcases hrun : x.run.run [] with ⟨e | a, ds⟩
  · rw [hrun] at hx
    subst hx
    rw [run_tryCatch_of_error _ hrun]
    exact hhandle e
  · rw [hrun] at hx
    rw [run_tryCatch_of_ok _ hrun]
    exact hx

/-! ### Scanning -/

theorem settles_lexemes (program : Text) (a : Attempt) :
    Settles (a.lexemes program : Reporting φ _) := by
  unfold Settles
  cases a with
  | lexed ls => rw [run_lexemes_lexed, if_pos rfl]
  | stopped remaining => rw [run_lexemes_stopped]
  | bodiless k => rfl

theorem settles_tokens (program whitespace : Text) (a : Attempt) :
    Settles (a.tokens program whitespace : Reporting φ _) := by
  unfold Settles
  cases a with
  | lexed ls =>
    rw [run_tokens_lexed]
    split_ifs <;> rfl
  | stopped remaining => rw [run_tokens_stopped]
  | bodiless k => rfl

variable [Runnable P φ]

theorem settles_lex (s : Scanner P) : Settles s.lex := by
  unfold Settles
  cases ha : Runnable.attempt s.lexer s.program with
  | error e => rw [run_lex_of_fault ha]
  | ok a =>
    rw [run_lex_of_attempt ha]
    exact settles_lexemes s.program a

theorem settles_scan (s : Scanner P) : Settles s.scan := by
  unfold Settles
  cases ha : Runnable.attempt s.lexer s.program with
  | error e => rw [run_scan_of_fault ha]
  | ok a =>
    rw [run_scan_of_attempt ha]
    exact settles_tokens s.program s.whitespace a

theorem settles_tokenize (program : Text) : Settles (tokenize program) := settles_scan _

/-- The tool turns a report into output, and passes every other failure on. -/
theorem settles_runTool (program : Text) : Settles (runTool program) := by
  refine ((settles_tokenize program).map _).tryCatch fun e => ?_
  rcases e with e | k | ⟨_ | _ | _, ds⟩ <;> rfl

end Settling

/-! ### Sessions -/

/-- Steps that leave nothing pending are all performed with nothing pending, and so is what comes
after them. -/
theorem session_append_of_settles {P φ : Type} [Runnable P φ] {steps : List (Step P)}
    (h : ∀ step ∈ steps, Settles step.perform) (later : List (Step P)) :
    session (steps ++ later) [] =
      steps.map (fun step => ((step.perform.run.run []).1, [])) ++ session later [] := by
  induction steps with
  | nil => rfl
  | cons step steps ih =>
    have hstep : step.perform.run.run [] = ((step.perform.run.run []).1, []) :=
      Prod.ext rfl (h step List.mem_cons_self)
    rw [List.cons_append, session, hstep, List.map_cons, List.cons_append]
    exact congrArg (List.cons _) (ih fun s hs => h s (List.mem_cons_of_mem _ hs))

/-- **Every request settles.** -/
theorem settles_request (q : Request) : Settles q.step.perform := by
  cases q with
  | lex s => exact ((settles_lex s).adapt _).map _
  | scan s => exact ((settles_scan s).adapt _).map _
  | tokenize program =>
    rw [Request.perform_tokenize]
    exact ((settles_tokenize program).adapt _).map _
  | tool program => exact ((settles_runTool program).adapt _).map _
  | toolOnBytes bytes => exact ((settles_runTool _).adapt _).map _

/-- **Requests do not interfere.** In a session of requests that begins with nothing pending,
nothing is pending after any of them, whether it returns, reports or ends early for another reason;
the outcome of each is the one that it has alone; and whatever steps come after them go on as if the
requests had not been made. -/
theorem requests_do_not_interfere (qs : List Request) :
    (∀ entry ∈ session (qs.map Request.step) [], entry.2 = []) ∧
    (session (qs.map Request.step) []).map Prod.fst = qs.map Request.outcome ∧
    ∀ later, session (qs.map Request.step ++ later) [] =
      session (qs.map Request.step) [] ++ session later [] := by
  have hlater : ∀ later, session (qs.map Request.step ++ later) [] =
      qs.map (fun q => (q.outcome, [])) ++ session later [] := by
    intro later
    rw [session_append_of_settles (List.forall_mem_map.mpr fun q _ => settles_request q),
      List.map_map]
    rfl
  have hall : session (qs.map Request.step) [] = qs.map fun q => (q.outcome, []) := by
    have h := hlater []
    rwa [List.append_nil, session, List.append_nil] at h
  rw [hall]
  refine ⟨List.forall_mem_map.mpr fun _ _ => rfl, ?_, hlater⟩
  rw [List.map_map]
  rfl

end LexerCombinators
