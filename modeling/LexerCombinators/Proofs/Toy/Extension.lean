import LexerCombinators.Proofs.Toy.Munch

/-!
# Extending a program

A lexeme depends on one character behind it, so text added at the end of a program reaches no
lexeme that has a character behind it, and no place where lexing stopped. Where lexing stopped
before the end, nothing changes (`Munch.extend`); where it came to the end, only the last lexeme may
change or go (`Munch.extend_dropLast`). Both are inductions on the munch, and
`programBody_append` says it of the lexer.
-/

namespace LexerCombinators.Lexicon

variable {s r : Text} {ls : List Text}

theorem Stuck.extend {c : Char} (h : Stuck c s.head?) (t : Text) : Stuck c (s ++ t).head? := by
  rcases h with h | ⟨h0, d, hd, ha⟩
  · exact Or.inl h
  · refine Or.inr ⟨h0, d, ?_, ha⟩
    rw [List.head?_append, Option.mem_def.mp hd]
    rfl

theorem Lexeme.extend {l : Text} (h : Lexeme l s.head?) (hs : s ≠ []) (t : Text) :
    Lexeme l (s ++ t).head? := by
  cases s with
  | nil => exact absurd rfl hs
  | cons c s => exact h

/-- Only the end of a program is munched without lexemes and without a remainder. -/
theorem Munch.ne_nil (h : Munch s ls r) (hne : ls ≠ [] ∨ r ≠ []) : s ≠ [] := by
  cases h with
  | done => simp at hne
  | stuck => exact List.cons_ne_nil _ _
  | lexeme hl _ => exact List.append_ne_nil_of_left_ne_nil hl.ne_nil _

/-- **A stop stands.** Text added behind a program that was not munched to its end changes nothing
but the remainder. -/
theorem Munch.extend (h : Munch s ls r) (hr : r ≠ []) (t : Text) : Munch (s ++ t) ls (r ++ t) := by
  induction h with
  | done => exact absurd rfl hr
  | stuck hst => exact .stuck (hst.extend t)
  | @lexeme l s r ls hl hm ih =>
    rw [List.append_assoc]
    exact .lexeme (hl.extend (hm.ne_nil (Or.inr hr)) t) (ih hr)

/-- **All lexemes but the last stand** when text is added behind a program. -/
theorem Munch.extend_dropLast (h : Munch s ls r) (hr : r = []) (t : Text) :
    ∃ ls' r', Munch (s ++ t) ls' r' ∧ ls.dropLast <+: ls' := by
  induction h with
  | done =>
    obtain ⟨ls', r', hm⟩ := exists_munch t
    exact ⟨ls', r', hm, List.nil_prefix⟩
  | stuck => cases hr
  | @lexeme l s r ls hl hm ih =>
    cases ls with
    | nil =>
      obtain ⟨ls', r', hm'⟩ := exists_munch (l ++ s ++ t)
      exact ⟨ls', r', hm', List.nil_prefix⟩
    | cons k ls =>
      obtain ⟨ls', r', hm', hpre⟩ := ih hr
      have hs : s ≠ [] := hm.ne_nil (Or.inl (List.cons_ne_nil _ _))
      refine ⟨l :: ls', r', ?_, List.prefix_cons_inj l |>.mpr hpre⟩
      rw [List.append_assoc]
      exact .lexeme (hl.extend hs t) hm'

/-- **Bounded look-ahead.** If the body of the program lexer stops before the end of `s`, it makes
the same of `s` with any `t` behind it, and leaves `t` as well; if it takes all of `s`, the lexemes
of the longer text begin with those of `s` up to the last one. -/
theorem programBody_append (s t : Text) : ∃ ls r, programBody.run s = .ok (.success ls r) ∧
    (r ≠ [] → programBody.run (s ++ t) = .ok (.success ls (r ++ t))) ∧
    (r = [] → ∃ ls' r', programBody.run (s ++ t) = .ok (.success ls' r') ∧
      ls.dropLast <+: ls') := by
  obtain ⟨ls, r, hm⟩ := exists_munch s
  refine ⟨ls, r, run_programBody hm, fun hr => run_programBody (hm.extend hr t), fun hr => ?_⟩
  obtain ⟨ls', r', hm', hpre⟩ := hm.extend_dropLast hr t
  exact ⟨ls', r', run_programBody hm', hpre⟩

end LexerCombinators.Lexicon
