import LexerCombinators.Proofs.Pattern.Alternatives
import LexerCombinators.Proofs.Pattern.Consumption
import LexerCombinators.Proofs.Toy.Token

/-!
# The alternatives of a lexeme

The lexer of lexemes is an ordered choice, but its first match is also its longest, and most of its
order is idle. Where an operator of two characters stands, the two operator lexers are all that may
match (`matching_of_double`); elsewhere one alternative matches at most (`exists_only_alternative`),
since the alternatives differ in the first character. So the alternatives may stand in those orders
that keep the longer operators in front, and in no others (`token_matches_longest`).
-/

namespace LexerCombinators.Lexicon

open Lexer

/-- The alternatives of the lexer of lexemes. -/
def alternatives : List Lexer := [name, number, doubleOperator, singleOperator, spaces]

theorem token_eq_choice : token = .choice alternatives := rfl

variable {p q : Lexer} {ps : List Lexer} {s : Text}

theorem exists_run_of_mem_alternatives (s : Text) : ∀ p ∈ alternatives, ∃ r, p.run s = .ok r := by
  have hproductive : ∀ p ∈ alternatives, p.isProductive = true := by
    simp only [alternatives, List.forall_mem_cons]
    exact ⟨rfl, rfl, rfl, rfl, rfl, by simp⟩
  exact fun p hp => total_run p (hproductive p hp) s

/-! ### Which alternatives match together -/

theorem exists_pair_of_matches (h : Matches doubleOperator s) :
    ∃ c d t, s = c :: d :: t ∧ [c, d] ∈ operatorPairs := by
  obtain _ | ⟨c, t⟩ := s
  · exact absurd h fails_doubleOperator_nil.not_matches
  by_contra hpair
  refine (fails_doubleOperator fun d hd hcd => hpair ?_).not_matches h
  obtain ⟨u, rfl⟩ := List.head?_eq_some_iff.mp hd
  exact ⟨c, d, u, rfl, hcd⟩

/-- Where an operator of two characters stands, only operators match. -/
theorem matching_of_double (h : Matches doubleOperator s) :
    matching alternatives s = matching [doubleOperator, singleOperator] s := by
  obtain ⟨c, d, t, rfl, hcd⟩ := exists_pair_of_matches h
  have hc : c ∈ operatorCharacters := mem_operatorCharacters_of_mem_pair _ hcd c (by simp)
  have ha := not_isAlphanum_of_mem_operatorCharacters c hc
  have hw := not_mem_whitespace_of_mem_operatorCharacters c hc
  have hname := (fails_name (s := c :: d :: t) (forall_head_cons (isAlpha_eq_false ha))).not_matches
  have hnumber :=
    (fails_number (s := c :: d :: t) (forall_head_cons (isDigit_eq_false ha))).not_matches
  have hspaces := (fails_spaces (s := c :: d :: t) (forall_head_cons hw)).not_matches
  have hcut : alternatives = [name, number] ++ ([doubleOperator, singleOperator] ++ [spaces]) := rfl
  rw [hcut, matching_append, matching_append, matching_cons_of_not_matches hname,
    matching_cons_of_not_matches hnumber, matching_cons_of_not_matches hspaces]
  simp [matching]

/-- Where none stands, one alternative matches at most. -/
theorem exists_only_alternative (h : ¬ Matches doubleOperator s) :
    ∃ p, ∀ q ∈ alternatives, Matches q s → q = p := by
  -- an alternative asks for a first character of its own class, and the classes are disjoint
  have hname : Matches name s → ∃ c, s.head? = some c ∧ c.isAlpha = true :=
    exists_head_of_matches fun hs => fails_name (by simpa using hs)
  have hnumber : Matches number s → ∃ c, s.head? = some c ∧ c.isDigit = true :=
    exists_head_of_matches fun hs => fails_number (by simpa using hs)
  have hsingle : Matches singleOperator s → ∃ c, s.head? = some c ∧ c ∈ operatorCharacters :=
    exists_head_of_matches fails_singleOperator
  have hspaces : Matches spaces s → ∃ c, s.head? = some c ∧ c ∈ whitespace :=
    exists_head_of_matches fails_spaces
  have hdigit : ∀ c : Char, c.isDigit = true → c.isAlpha = false := fun _ => isAlpha_of_isDigit
  have hoperator : ∀ c ∈ operatorCharacters, c.isAlpha = false ∧ c.isDigit = false :=
    fun c hc => Bool.or_eq_false_iff.mp (not_isAlphanum_of_mem_operatorCharacters c hc)
  have hblank : ∀ c ∈ whitespace, c.isAlpha = false ∧ c.isDigit = false :=
    fun c hc => Bool.or_eq_false_iff.mp (not_isAlphanum_of_mem_whitespace c hc)
  have hother := not_mem_whitespace_of_mem_operatorCharacters
  simp only [alternatives, List.forall_mem_cons, List.not_mem_nil]
  by_cases hn : Matches name s
  · exact ⟨name, by grind⟩
  by_cases hd : Matches number s
  · exact ⟨number, by grind⟩
  by_cases ho : Matches singleOperator s
  · exact ⟨singleOperator, by grind⟩
  · exact ⟨spaces, by grind⟩

/-! ### Orders -/

/-- The alternatives in any order that tries the longer operators first. -/
theorem run_choice_of_double_first (hperm : ps.Perm alternatives)
    (hfirst : [doubleOperator, singleOperator].Sublist ps) (s : Text) :
    run (.choice ps) s = token.run s := by
  have hok := exists_run_of_mem_alternatives s
  by_cases h : Matches doubleOperator s
  · have hoperators := perm_matching hperm s
    rw [matching_of_double h] at hoperators
    have hsub : (matching [doubleOperator, singleOperator] s).Sublist (matching ps s) :=
      hfirst.filter _
    have heq : matching ps s = matching alternatives s := by
      rw [matching_of_double h]
      exact (hsub.eq_of_length hoperators.length_eq.symm).symm
    exact run_choice_congr (fun p hp => hok p (hperm.mem_iff.mp hp)) hok heq
  · obtain ⟨p, hp⟩ := exists_only_alternative h
    refine run_choice_of_perm hok (fun q hq r hr hmq hmr => ?_) hperm
    rw [hp q hq hmq, hp r hr hmr]

theorem matching_lessOrEqual :
    matching alternatives "<=".toList = [doubleOperator, singleOperator] := by
  have hdouble : Matches doubleOperator "<=".toList :=
    (takes_doubleOperator (l := "<=".toList) (by decide) []).matches
  have hsingle : Matches singleOperator "<=".toList :=
    (takes_singleOperator (c := '<') (by decide) "=".toList).matches
  have hnil : matching [] "<=".toList = [] := rfl
  rw [matching_of_double hdouble, matching_cons_of_matches hdouble,
    matching_cons_of_matches hsingle, hnil]

/-- Another order of the two operator lexers cuts an operator in two. -/
theorem double_first_of_run_choice (hperm : ps.Perm alternatives)
    (h : run (.choice ps) "<=".toList = token.run "<=".toList) :
    [doubleOperator, singleOperator].Sublist ps := by
  have hok : ∀ p ∈ ps, ∃ r, p.run "<=".toList = .ok r := fun p hp =>
    exists_run_of_mem_alternatives _ p (hperm.mem_iff.mp hp)
  have hoperators := perm_matching hperm "<=".toList
  rw [matching_lessOrEqual] at hoperators
  rcases List.perm_pair.mp hoperators with hps | hps
  · rw [← hps]
    exact List.filter_sublist
  · rw [run_choice_eq_head hok, hps] at h
    have hsingle : singleOperator.run "<=".toList = .ok (.success ["<".toList] "=".toList) := rfl
    have htoken : token.run "<=".toList = .ok (.success ["<=".toList] []) := rfl
    rw [List.head?_cons, Option.elim_some, hsingle, htoken] at h
    cases h

/-! ### The longest match -/

/-- No alternative takes more than the first that matches. -/
theorem remaining_le_of_mem_alternatives {r r' : Result} (hr : token.run s = .ok r)
    (hp : p ∈ alternatives) (hr' : p.run s = .ok r') (hs : r'.isSuccess = true) :
    r.remaining.length ≤ r'.remaining.length := by
  have hm : Matches p s := ⟨r', hr', hs⟩
  by_cases h : Matches doubleOperator s
  · have hmem : p ∈ matching [doubleOperator, singleOperator] s :=
      matching_of_double h ▸ mem_matching.mpr ⟨hp, hm⟩
    obtain ⟨c, d, t, rfl, hcd⟩ := exists_pair_of_matches h
    have hc : c ∈ operatorCharacters := mem_operatorCharacters_of_mem_pair _ hcd c (by simp)
    obtain ⟨ls, -, hrun⟩ := takes_token (s := t) (.double hcd)
    obtain ⟨ls₂, -, hdouble⟩ := takes_doubleOperator hcd t
    obtain ⟨ls₁, -, hsingle⟩ := takes_singleOperator hc (d :: t)
    rw [List.cons_append, List.cons_append, List.nil_append] at hrun hdouble
    rw [List.cons_append, List.nil_append] at hsingle
    rw [hrun] at hr
    cases hr
    obtain ⟨hp, -⟩ := mem_matching.mp hmem
    rcases List.mem_pair.mp hp with rfl | rfl
    · rw [hdouble] at hr'
      cases hr'
      exact le_rfl
    · rw [hsingle] at hr'
      cases hr'
      exact Nat.le_succ _
  · obtain ⟨q, hq⟩ := exists_only_alternative h
    have honly : ∀ p' ∈ alternatives, Matches p' s → p' = p := fun p' hp' hm' =>
      (hq p' hp' hm').trans (hq p hp hm).symm
    have hok := exists_run_of_mem_alternatives s
    rw [token_eq_choice, run_choice_of_only hok hp hm honly, hr'] at hr
    cases hr
    exact le_rfl

/-- **The first match is the longest.** The lexer of lexemes matches where one of its alternatives
does, and then takes at least as much as each of them. Of the orders of the alternatives those give
the same results that try the longer operators first, and no others. This rests on a law of all
lexers: alternatives that do not stall, of which at most one matches on each stream, may stand in
any order. -/
theorem token_matches_longest :
    (∀ s, ∃ r, token.run s = .ok r ∧
      (r.isSuccess = true ↔ ∃ p ∈ alternatives, Matches p s) ∧
      ∀ p ∈ alternatives, ∀ r', p.run s = .ok r' → r'.isSuccess = true →
        r.remaining.length ≤ r'.remaining.length) ∧
    (∀ ps : List Lexer, ps.Perm alternatives →
      ((∀ s, run (.choice ps) s = token.run s) ↔
        [doubleOperator, singleOperator].Sublist ps)) ∧
    ∀ ps qs : List Lexer, (∀ p ∈ ps, ∀ s, ∃ r, p.run s = .ok r) →
      (∀ s, ∀ p ∈ ps, ∀ q ∈ ps, Matches p s → Matches q s → p = q) → qs.Perm ps →
      ∀ s, run (.choice qs) s = run (.choice ps) s := by
  refine ⟨fun s => ?_, fun ps hperm => ⟨fun h => ?_, run_choice_of_double_first hperm⟩, ?_⟩
  · have hok := exists_run_of_mem_alternatives s
    obtain ⟨r, hr⟩ := total_run token rfl s
    refine ⟨r, hr, ?_, fun p hp r' => remaining_le_of_mem_alternatives hr hp⟩
    rw [← matches_choice_iff hok, ← token_eq_choice]
    exact ⟨fun h => ⟨r, hr, h⟩, fun ⟨r', hr', h⟩ => by rw [hr] at hr'; cases hr'; exact h⟩
  · exact double_first_of_run_choice hperm (h _)
  · intro ps qs hok hone hperm s
    exact run_choice_of_perm (fun p hp => hok p hp s) (hone s) hperm

end LexerCombinators.Lexicon
