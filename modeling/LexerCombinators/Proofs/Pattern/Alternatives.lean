import Mathlib.Data.List.Permutation
import LexerCombinators.Proofs.Pattern.Evaluation

/-!
# Alternatives of a choice

A choice is decided by the first of its alternatives that matches, so as long as none of them stalls
the alternatives that do not match may be left out of it (`run_choice_eq_head`). Two choices with
the same matching alternatives in the same order have the same result (`run_choice_congr`), and
where at most one alternative matches there is only one order of those (`run_choice_of_perm`).
-/

namespace LexerCombinators.Lexer

variable {p q : Lexer} {ps qs : List Lexer} {l s : Text}

/-- The lexer matches at the front of the stream. -/
def Matches (p : Lexer) (s : Text) : Prop := ∃ r, p.run s = .ok r ∧ r.isSuccess = true

theorem matches_iff_any : Matches p s ↔ (p.run s).toOption.any Result.isSuccess = true := by
  unfold Matches
  cases p.run s with
  | error e => simp [Except.toOption]
  | ok r => simp [Except.toOption]

instance (p : Lexer) (s : Text) : Decidable (Matches p s) := decidable_of_iff _ matches_iff_any.symm

theorem Takes.matches (h : Takes p l s) : Matches p (l ++ s) := by
  obtain ⟨ls, -, hrun⟩ := h
  exact ⟨_, hrun, rfl⟩

theorem Fails.not_matches (h : Fails p s) : ¬ Matches p s := by
  rintro ⟨r, hrun, hr⟩
  rw [h] at hrun
  cases hrun
  cases hr

/-- What the stream begins with, when a lexer matches that fails on all other beginnings. -/
theorem exists_head_of_matches {f : Char → Prop} (hp : (∀ c ∈ s.head?, ¬ f c) → Fails p s)
    (h : Matches p s) : ∃ c, s.head? = some c ∧ f c := by
  by_contra hc
  exact (hp fun c hs hf => hc ⟨c, hs, hf⟩).not_matches h

/-- The alternatives that match, in order. -/
def matching (ps : List Lexer) (s : Text) : List Lexer := ps.filter (Matches · s)

theorem mem_matching : p ∈ matching ps s ↔ p ∈ ps ∧ Matches p s := by
  rw [matching, List.mem_filter, decide_eq_true_eq]

theorem matching_cons_of_matches (h : Matches p s) : matching (p :: ps) s = p :: matching ps s :=
  List.filter_cons_of_pos (decide_eq_true h)

theorem matching_cons_of_not_matches (h : ¬ Matches p s) : matching (p :: ps) s = matching ps s :=
  List.filter_cons_of_neg (by simpa using h)

theorem matching_append (ps qs : List Lexer) (s : Text) :
    matching (ps ++ qs) s = matching ps s ++ matching qs s := List.filter_append _ _

/-- **The first alternative that matches decides**, and without one the choice fails. -/
theorem run_choice_eq_head (hok : ∀ p ∈ ps, ∃ r, p.run s = .ok r) :
    run (.choice ps) s = (matching ps s).head?.elim (.ok (.fail s)) (run · s) := by
  induction ps with
  | nil => rfl
  | cons p ps ih =>
    obtain ⟨r, hr⟩ := hok p List.mem_cons_self
    have hrest := ih fun q hq => hok q (List.mem_cons_of_mem _ hq)
    have hstep : run (.choice (p :: ps)) s =
        if r.isSuccess then .ok r else run (.choice ps) s := by
      rw [run_choice_cons, hr]
      rfl
    rw [hstep]
    by_cases hp : r.isSuccess = true
    · have hmatches : Matches p s := ⟨r, hr, hp⟩
      rw [if_pos hp, matching_cons_of_matches hmatches]
      exact hr.symm
    · have hmatches : ¬ Matches p s := by
        rintro ⟨r', hr', hp'⟩
        rw [hr] at hr'
        cases hr'
        exact hp hp'
      rw [if_neg hp, hrest, matching_cons_of_not_matches hmatches]

theorem matches_choice_iff (hok : ∀ p ∈ ps, ∃ r, p.run s = .ok r) :
    Matches (.choice ps) s ↔ ∃ p ∈ ps, Matches p s := by
  rw [Matches, run_choice_eq_head hok]
  simp only [← mem_matching]
  cases hps : matching ps s with
  | nil =>
    refine iff_of_false ?_ (by simp)
    rintro ⟨r, hr, hp⟩
    cases hr
    cases hp
  | cons p rest =>
    have hp : p ∈ matching ps s := hps ▸ List.mem_cons_self
    exact iff_of_true (mem_matching.mp hp).2 ⟨p, List.mem_cons_self⟩

/-! ### Orders -/

/-- Alternatives that do not match have no part in a choice. -/
theorem run_choice_congr (hps : ∀ p ∈ ps, ∃ r, p.run s = .ok r)
    (hqs : ∀ q ∈ qs, ∃ r, q.run s = .ok r) (h : matching ps s = matching qs s) :
    run (.choice ps) s = run (.choice qs) s := by
  rw [run_choice_eq_head hps, run_choice_eq_head hqs, h]

theorem perm_matching (h : ps.Perm qs) (s : Text) : (matching ps s).Perm (matching qs s) :=
  h.filter _

/-- **Exclusive alternatives may stand in any order.** -/
theorem run_choice_of_perm (hok : ∀ p ∈ ps, ∃ r, p.run s = .ok r)
    (hone : ∀ p ∈ ps, ∀ q ∈ ps, Matches p s → Matches q s → p = q) (hperm : qs.Perm ps) :
    run (.choice qs) s = run (.choice ps) s := by
  refine run_choice_congr (fun q hq => hok q (hperm.mem_iff.mp hq)) hok ?_
  -- both lists hold one alternative, if any, so their order is no order
  have hall : ∀ rs : List Lexer, rs.Pairwise fun _ _ => True := fun rs =>
    List.pairwise_of_forall fun _ _ => trivial
  refine List.Perm.eq_of_pairwise (fun p q hp hq _ _ => ?_) (hall _) (hall _)
    (perm_matching hperm s)
  obtain ⟨hp, hmp⟩ := mem_matching.mp hp
  obtain ⟨hq, hmq⟩ := mem_matching.mp hq
  exact hone p (hperm.mem_iff.mp hp) q hq hmp hmq

/-- An alternative that matches alone gives the result. -/
theorem run_choice_of_only (hok : ∀ p ∈ ps, ∃ r, p.run s = .ok r) (hp : p ∈ ps)
    (hm : Matches p s) (hone : ∀ q ∈ ps, Matches q s → q = p) : run (.choice ps) s = p.run s := by
  rw [run_choice_eq_head hok]
  cases hps : matching ps s with
  | nil =>
    have hmem := mem_matching.mpr ⟨hp, hm⟩
    rw [hps] at hmem
    cases hmem
  | cons q rest =>
    obtain ⟨hq, hmq⟩ := mem_matching.mp (hps ▸ List.mem_cons_self : q ∈ matching ps s)
    rw [hone q hq hmq]
    rfl

end LexerCombinators.Lexer
