import Mathlib.Tactic.Common
import LexerCombinators.Proofs.Pattern.Evaluation
import LexerCombinators.Proofs.Report.Pending
import LexerCombinators.Scanner

/-!
# Runs of the scanner

What a scan returns is settled by the attempt of its lexer and by what is pending. The lexemes of an
attempt are returned if the lexer matched and nothing is pending (`run_lexemes_lexed`); a lexer that
stopped adds one diagnostic, and everything is reported (`run_lexemes_stopped`). Then the words are
classified, and either all of them are tokens or the others are reported (`run_tokens_lexed`).
-/

namespace LexerCombinators

variable {φ : Type}

/-! ### Lexemes -/

theorem run_lexemes_lexed (program : Text) (ls : List Text) (ds : Pending) :
    ((Attempt.lexed ls).lexemes program : Reporting φ (List Text)).run.run ds =
      if ds = [] then (.ok ls, []) else (.error (.reported .scanner (sorted ds)), []) := by
  have hreport := run_communicate (φ := φ) .scanner ds
  split_ifs at hreport ⊢ with h
  · rw [Attempt.lexemes, run_bind_of_ok hreport]
    rfl
  · rw [Attempt.lexemes, run_bind_of_error hreport]

theorem run_lexemes_stopped (program remaining : Text) (ds : Pending) :
    ((Attempt.stopped remaining).lexemes program : Reporting φ (List Text)).run.run ds =
      (.error (.reported .scanner (sorted (ds ++ [.stuck program remaining]))), []) := by
  have hreport := run_communicate (φ := φ) .scanner (ds ++ [.stuck program remaining])
  rw [if_neg (List.append_ne_nil_of_right_ne_nil _ (List.cons_ne_nil _ _))] at hreport
  rw [Attempt.lexemes, run_bind_of_ok (run_register _ ds), run_bind_of_error hreport]

/-! ### Words and tokens -/

theorem map_snd_placed (o : Nat) (ls : List Text) : (placed o ls).map Prod.snd = ls := by
  induction ls generalizing o with
  | nil => rfl
  | cons l ls ih => rw [placed, List.map_cons, ih]

/-- The words are the lexemes that are not white space, in order. -/
theorem map_fst_words (program whitespace : Text) (ls : List Text) :
    (words program whitespace ls).map Prod.fst =
      ls.filter fun l => !isWhitespaceIn whitespace l := by
  have hfst : (words program whitespace ls).map Prod.fst =
      ((placed 0 ls).filter fun w => !isWhitespaceIn whitespace w.2).map Prod.snd := by
    rw [words, List.map_map]
    rfl
  rw [hfst]
  conv_rhs => rw [← map_snd_placed 0 ls]
  rw [List.filter_map]
  rfl

/-- Nothing is reported exactly when all words are of some kind. -/
theorem unknownTokens_eq_nil_iff {program : Text} {ws : List (Text × Span)} :
    unknownTokens program ws = [] ↔ ∀ l ∈ ws.map Prod.fst, (Kind.classify l).isSome = true := by
  rw [unknownTokens, List.map_eq_nil_iff, List.filter_eq_nil_iff, List.forall_mem_map]
  simp [Option.isSome_iff_ne_none]

/-- The kind of a token is that of its text. -/
theorem classify_of_mem_knownTokens {ws : List (Text × Span)} {t : Token}
    (h : t ∈ knownTokens ws) : Kind.classify t.text = some t.kind := by
  obtain ⟨⟨l, span⟩, -, ht⟩ := List.mem_filterMap.mp h
  obtain ⟨k, hk, rfl⟩ := Option.map_eq_some_iff.mp ht
  exact hk

/-- The texts of the tokens are the words of some kind, in order. -/
theorem map_text_knownTokens (ws : List (Text × Span)) :
    (knownTokens ws).map Token.text =
      (ws.map Prod.fst).filter fun l => (Kind.classify l).isSome := by
  induction ws with
  | nil => rfl
  | cons w ws ih =>
    obtain ⟨l, span⟩ := w
    rw [knownTokens, List.filterMap_cons, List.map_cons, List.filter_cons, ← ih]
    cases hk : Kind.classify l with
    | none => simp [Token.ofLexeme?, hk, knownTokens]
    | some k => simp [Token.ofLexeme?, hk, knownTokens]

/-- **Scanning after a match.** With nothing pending, the words are returned as tokens if all of
them are, and otherwise those that are not are reported together. -/
theorem run_tokens_lexed (program whitespace : Text) (ls : List Text) :
    ((Attempt.lexed ls).tokens program whitespace : Reporting φ (List Token)).run.run [] =
      if unknownTokens program (words program whitespace ls) = [] then
        (.ok (knownTokens (words program whitespace ls)), [])
      else
        (.error (.reported .scanner
          (sorted (unknownTokens program (words program whitespace ls)))), []) := by
  have hlex := run_lexemes_lexed (φ := φ) program ls []
  have hnew := run_forM_register (φ := φ) (unknownTokens program (words program whitespace ls)) []
  have hreport := run_communicate (φ := φ) .scanner
    (unknownTokens program (words program whitespace ls))
  rw [if_pos rfl] at hlex
  rw [List.nil_append] at hnew
  rw [Attempt.tokens, run_bind_of_ok hlex, run_bind_of_ok hnew]
  split_ifs at hreport ⊢ with h
  · rw [run_bind_of_ok hreport]
    rfl
  · rw [run_bind_of_error hreport]

/-- **Scanning after a stop** reports where the lexer stopped, with all that is pending. -/
theorem run_tokens_stopped (program whitespace remaining : Text) (ds : Pending) :
    ((Attempt.stopped remaining).tokens program whitespace : Reporting φ (List Token)).run.run ds =
      (.error (.reported .scanner (sorted (ds ++ [.stuck program remaining]))), []) := by
  rw [Attempt.tokens, run_bind_of_error (run_lexemes_stopped program remaining ds)]

/-! ### Attempts -/

section Attempts

variable {P : Type} [Runnable P φ] {s : Scanner P}

theorem run_attempt_of_ok {a : Attempt} (h : Runnable.attempt s.lexer s.program = .ok a)
    (ds : Pending) : (s.attempt : Reporting φ Attempt).run.run ds = (.ok a, ds) := by
  rw [Scanner.attempt, h]
  rfl

theorem run_attempt_of_fault {e : φ} (h : Runnable.attempt s.lexer s.program = .error e)
    (ds : Pending) : (s.attempt : Reporting φ Attempt).run.run ds = (.error (.fault e), ds) := by
  rw [Scanner.attempt, h]
  rfl

/-- Lexing goes on from the attempt of the lexer. -/
theorem run_lex_of_attempt {a : Attempt} (h : Runnable.attempt s.lexer s.program = .ok a)
    (ds : Pending) : s.lex.run.run ds = (a.lexemes s.program : Reporting φ _).run.run ds := by
  rw [Scanner.lex, run_bind_of_ok (run_attempt_of_ok h ds)]

theorem run_lex_of_fault {e : φ} (h : Runnable.attempt s.lexer s.program = .error e)
    (ds : Pending) : s.lex.run.run ds = (.error (.fault e), ds) := by
  rw [Scanner.lex, run_bind_of_error (run_attempt_of_fault h ds)]

/-- A scan goes on from the attempt of its lexer. -/
theorem run_scan_of_attempt {a : Attempt} (h : Runnable.attempt s.lexer s.program = .ok a)
    (ds : Pending) :
    s.scan.run.run ds = (a.tokens s.program s.whitespace : Reporting φ _).run.run ds := by
  rw [Scanner.scan, run_bind_of_ok (run_attempt_of_ok h ds)]

theorem run_scan_of_fault {e : φ} (h : Runnable.attempt s.lexer s.program = .error e)
    (ds : Pending) : s.scan.run.run ds = (.error (.fault e), ds) := by
  rw [Scanner.scan, run_bind_of_error (run_attempt_of_fault h ds)]

end Attempts

/-! ### Scans -/

/-- A scan with nothing pending returns tokens exactly when its lexer matched and all words are
tokens. -/
theorem run_scan_eq_ok_iff {P : Type} [Runnable P φ] {s : Scanner P} {ts : List Token}
    {ds : Pending} : s.scan.run.run [] = (.ok ts, ds) ↔
      ∃ ls, Runnable.attempt s.lexer s.program = .ok (.lexed ls) ∧
        unknownTokens s.program (words s.program s.whitespace ls) = [] ∧
        ts = knownTokens (words s.program s.whitespace ls) ∧ ds = [] := by
  constructor
  · intro h
    cases ha : Runnable.attempt s.lexer s.program with
    | error e =>
      rw [run_scan_of_fault ha] at h
      cases h
    | ok a =>
      rw [run_scan_of_attempt ha] at h
      cases a with
      | lexed ls =>
        rw [run_tokens_lexed] at h
        split_ifs at h with hu
        · cases h
          exact ⟨ls, rfl, hu, rfl, rfl⟩
        · cases h
      | stopped r =>
        rw [run_tokens_stopped] at h
        cases h
      | bodiless k => cases h
  · rintro ⟨ls, ha, hu, rfl, rfl⟩
    rw [run_scan_of_attempt ha, run_tokens_lexed, if_pos hu]

/-- The attempt of an anchored lexer, by what its body makes of the program. -/
theorem attempt_fullMatch {p : Lexer} {program : Text} {r : Result} (h : p.run program = .ok r) :
    Runnable.attempt (Pattern.fullMatch p : Lexer) program =
      .ok (if r.isSuccess = true ∧ r.remaining = [] then .lexed r.lexemes
        else .stopped r.remaining) := by
  have hrun : Runnable.attempt (Pattern.fullMatch p : Lexer) program = (do
      let r ← anchored p.run program
      if r.isSuccess then pure (.lexed r.lexemes)
      else do
        let r' ← p.run program
        pure (.stopped r'.remaining)) := rfl
  rw [hrun, anchored, h]
  obtain ⟨ls, _ | _, _ | _⟩ := r <;> rfl

/-- What an anchored lexer matches is what its body matches of the whole program. -/
theorem run_of_attempt_fullMatch {p : Lexer} {program : Text} {ls : List Text}
    (h : Runnable.attempt (Pattern.fullMatch p : Lexer) program = .ok (.lexed ls)) :
    p.run program = .ok (.success ls []) := by
  obtain ⟨r, hr, h⟩ := except_bind_eq_ok.mp h
  obtain ⟨r', hr', heq⟩ := except_bind_eq_ok.mp hr
  split_ifs at h with hs
  · cases h
    cases heq
    split_ifs at hs ⊢ with hmatch
    · obtain ⟨hsuccess, hrem⟩ := Bool.and_eq_true_iff.mp hmatch
      have hres : r' = .success r'.lexemes [] := by
        rw [← List.isEmpty_iff.mp hrem, Result.success, ← hsuccess]
      rw [← hres]
      exact hr'
    · cases hs
  · obtain ⟨r₂, -, h⟩ := except_bind_eq_ok.mp h
    cases h

end LexerCombinators
