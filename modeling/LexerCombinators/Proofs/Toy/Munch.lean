import LexerCombinators.Proofs.Toy.Token

/-!
# Munching a program

`Munch s ls t` says that the lexemes `ls` stand one after another at the front of `s`, each a lexeme
in front of the text behind it, and that no lexeme begins at what remains, `t`. Every stream is
munched in some way (`exists_munch`). What the lexers of programs return is a munch
(`run_programBody`, `run_program`), so everything about their runs is an induction on this relation.
-/

namespace LexerCombinators.Lexicon

open Lexer

/-- From `s` on, lexeme by lexeme, down to `t`, where no lexeme begins. -/
inductive Munch : Text → List Text → Text → Prop
  | done : Munch [] [] []
  | stuck {c : Char} {s : Text} : Stuck c s.head? → Munch (c :: s) [] (c :: s)
  | lexeme {l s t : Text} {ls : List Text} : Lexeme l s.head? → Munch s ls t →
      Munch (l ++ s) (l :: ls) t

theorem exists_munch : ∀ s : Text, ∃ ls t, Munch s ls t
  | [] => ⟨[], [], .done⟩
  | c :: s => by
    rcases exists_lexeme_or_stuck c s with ⟨l, t, hst, hl⟩ | h
    · have hlt : t.length < (c :: s).length := by
        have hpos := List.length_pos_iff.mpr hl.ne_nil
        rw [hst, List.length_append]
        omega
      obtain ⟨ls, u, hu⟩ := exists_munch t
      exact ⟨l :: ls, u, hst ▸ .lexeme hl hu⟩
    · exact ⟨[], c :: s, .stuck h⟩
termination_by s => s.length
decreasing_by exact hlt

theorem Munch.append {s t : Text} {ls : List Text} (h : Munch s ls t) : ls.flatten ++ t = s := by
  induction h with
  | done | stuck => rfl
  | lexeme _ _ ih => rw [List.flatten_cons, List.append_assoc, ih]

theorem Munch.isLexeme {s t : Text} {ls : List Text} (h : Munch s ls t) :
    ∀ l ∈ ls, ∃ next, Lexeme l next := by
  induction h with
  | done | stuck => exact fun _ hl => by cases hl
  | lexeme hl _ ih =>
    intro k hk
    rcases List.mem_cons.mp hk with rfl | hk
    · exact ⟨_, hl⟩
    · exact ih k hk

/-! ### Runs -/

section Runs

variable {s t : Text} {ls : List Text}

theorem Munch.repeated (h : Munch s ls t) : Repeated token.run s ls t := by
  induction h with
  | done => exact .stop fails_token_nil rfl
  | stuck h => exact .stop (fails_token h) rfl
  | @lexeme l s t ls hl _ ih =>
    obtain ⟨cut, hcut, hrun⟩ := takes_token hl
    have hlt : s.length < (l ++ s).length := by
      have hpos := List.length_pos_iff.mpr hl.ne_nil
      rw [List.length_append]
      omega
    have hmore := Repeated.more hrun rfl hlt ih
    rwa [show (Result.success cut s).text = l from hcut] at hmore

/-- **The body of the program lexer munches**, and never fails. -/
theorem run_programBody (h : Munch s ls t) : programBody.run s = .ok (.success ls t) :=
  run_zeroOrMore_eq h.repeated

/-- **The program lexer** succeeds exactly when munching leaves nothing. -/
theorem run_program (h : Munch s ls t) :
    program.run s = .ok (if t = [] then .success ls [] else .fail s) := by
  have hrun : program.run s = anchored programBody.run s := rfl
  rw [hrun, anchored, run_programBody h]
  cases t with
  | nil => rfl
  | cons c t => rfl

theorem run_program_eq_success_iff :
    program.run s = .ok (.success ls []) ↔ Munch s ls [] := by
  refine ⟨fun h => ?_, fun h => run_program h⟩
  obtain ⟨ls', t, hm⟩ := exists_munch s
  rw [run_program hm] at h
  split_ifs at h with ht
  · cases h
    exact ht ▸ hm
  · cases h

theorem Munch.unique {t' : Text} {ls' : List Text} (h : Munch s ls t) (h' : Munch s ls' t') :
    ls = ls' ∧ t = t' := by
  have hrun := (run_programBody h).symm.trans (run_programBody h')
  cases hrun
  exact ⟨rfl, rfl⟩

end Runs

end LexerCombinators.Lexicon
