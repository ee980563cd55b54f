import LexerCombinators.Proofs.Pattern.Consumption
import LexerCombinators.Proofs.Pattern.Rearrangement

/-!
# Repetitions of repetitions

A repetition stops where its body fails, so right behind a match of a repetition the same repetition
fails. Around a repetition another one goes round once, then (`repeated_oneOrMore`): it does what a
sequence does whose only part is the inner repetition, and its guard never fires, since the inner
one matches nothing that is empty.

A body that fails nowhere leaves a repetition no exit. Every round shortens the stream, so it does
come to an end, but only to a stall (`exists_stall_iff`); options to repeat are such bodies.
-/

namespace LexerCombinators.Lexer

variable {p : Lexer} {s s' : Text} {ls : List Text}

/-! ### One round -/

theorem repeated_oneOrMore (h : run (.oneOrMore p) s = .ok (.success ls s')) :
    Repeated (run (.oneOrMore p)) s [ls.flatten] s' := by
  obtain ⟨-, -, hfails⟩ := run_oneOrMore_eq_success_iff.mp h
  have hlt : s'.length < s.length := consuming_run (.oneOrMore p) rfl s _ h rfl
  have hstop : run (.oneOrMore p) s' = .ok (.fail s') := run_oneOrMore_eq_fail_iff.mpr hfails
  exact .more h rfl hlt (.stop hstop rfl)

theorem run_oneOrMore_oneOrMore (p : Lexer) (s : Text) :
    run (.oneOrMore (.oneOrMore p)) s = run (.sequence [.oneOrMore p]) s := by
  rw [run_sequence_singleton]
  cases h : run (.oneOrMore p) s with
  | error e => exact run_oneOrMore_eq_error_iff.mpr ⟨[], s, .start, Or.inr h⟩
  | ok r =>
    cases lossless_run _ s r h with
    | success _ =>
      rw [run_oneOrMore_eq (repeated_oneOrMore h), if_neg (List.cons_ne_nil _ _)]
      rfl
    | fail => exact run_oneOrMore_eq_fail_iff.mpr h

/-- The guard of a repetition does not fire when every match of its body consumes. -/
theorem run_oneOrMore_ne_stall (hp : Consuming p.run) (s : Text) :
    run (.oneOrMore p) s ≠ .error ⟨p⟩ := by
  intro h
  obtain ⟨_, t, -, r, hr, hmatch, hle⟩ := run_oneOrMore_stalls_iff.mp h
  exact absurd (hp t r hr hmatch) (Nat.not_lt.mpr hle)

/-! ### No exit -/

theorem exists_stall_iff :
    (∀ s, ¬ Fails p s) ↔ ∀ s, ∃ e, run (.oneOrMore p) s = .error e := by
  refine ⟨fun hp s => ?_, fun hp s hfails => ?_⟩
  · cases h : run (.oneOrMore p) s with
    | error e => exact ⟨e, rfl⟩
    | ok r =>
      obtain ⟨_, t, hrep, -⟩ := exists_repeated_of_run_oneOrMore h
      exact absurd (fails_iff_refuses.mpr hrep.fails) (hp t)
  · obtain ⟨e, he⟩ := hp s
    rw [run_oneOrMore_eq_fail_iff.mpr hfails] at he
    cases he

theorem not_fails_zeroOrMore (p : Lexer) (s : Text) : ¬ Fails (.zeroOrMore p) s := by
  intro h
  obtain ⟨_, _, -, hr⟩ := exists_repeated_of_run_zeroOrMore h
  cases hr

/-- **Nested repetitions.** A repetition of a repetition has the outcome of the sequence with the
inner one as its only part: one lexeme with all that the inner one matched, or its failure, or its
stall, and never a stall of the outer one. A lexer that fails nowhere stalls everywhere when it is
repeated, and no other lexer does; so does an option to repeat. -/
theorem nested_repetition (p : Lexer) (s : Text) :
    run (.oneOrMore (.oneOrMore p)) s = run (.sequence [.oneOrMore p]) s ∧
    (∃ n, Regrouped [n] s (run (.oneOrMore p) s) (run (.oneOrMore (.oneOrMore p)) s)) ∧
    run (.oneOrMore (.oneOrMore p)) s ≠ .error ⟨.oneOrMore p⟩ ∧
    ((∀ t, ¬ Fails p t) ↔ ∀ t, ∃ e, run (.oneOrMore p) t = .error e) ∧
    ∃ e, run (.oneOrMore (.zeroOrMore p)) s = .error e := by
  refine ⟨run_oneOrMore_oneOrMore p s, ?_, ?_, exists_stall_iff, ?_⟩
  · rw [run_oneOrMore_oneOrMore]
    exact regrouped_singleton _ s
  · exact run_oneOrMore_ne_stall (consuming_run (.oneOrMore p) rfl) s
  · exact exists_stall_iff.mp (not_fails_zeroOrMore p) s

end LexerCombinators.Lexer
