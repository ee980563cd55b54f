import LexerCombinators.Proofs.Toy.Lexeme

/-!
# The lexer of single lexemes

The lexer `token` takes every lexeme (`takes_token`), and fails where none begins (`fails_token`,
`fails_token_nil`). So the relation `Lexeme` says all that the lexer does: of its five alternatives
the right one takes the lexeme, and those in front of it fail there.
-/

namespace LexerCombinators.Lexicon

open Lexer

/-! ### The lexers of the classes -/

theorem isClass_letter : IsClass letter Char.isAlpha := by
  refine ((isClass_range 'a' 'z').cons ((isClass_range 'A' 'Z').cons isClass_nil)).congr fun c => ?_
  rw [Bool.or_false, Bool.or_comm, Bool.decide_and ('a' ≤ c)]
  rfl

theorem isClass_digit : IsClass digit Char.isDigit :=
  (isClass_range '0' '9').congr fun c => by rw [Bool.decide_and]; rfl

theorem isClass_nonZeroDigit : IsClass nonZeroDigit fun c => c.isDigit && c != '0' := by
  refine (isClass_range '1' '9').congr fun c => ?_
  by_cases h : c = '0'
  · rw [h]
    rfl
  · have hv : c.val ≠ '0'.val := fun hv => h (Char.ext hv)
    simp only [Char.isDigit, Char.le_def]
    grind

theorem isClass_alphanum : IsClass (.choice [letter, digit]) Char.isAlphanum :=
  (isClass_letter.cons (isClass_digit.cons isClass_nil)).congr fun c => by
    rw [Bool.or_false, Char.isAlphanum]

-- the spellings that the two operator lexers list are the operators of `Lexeme`, as they stand
theorem isClass_singleOperator : IsClass singleOperator operatorCharacters.contains :=
  isClass_chars operatorCharacters

theorem isClass_space : IsClass (.choice (whitespace.map .char)) whitespace.contains :=
  isClass_chars whitespace

/-! ### The alternatives -/

section Alternatives

variable {c : Char} {l s : Text}

theorem takes_name (hc : c.isAlpha = true) (hl : ∀ d ∈ l, d.isAlphanum = true)
    (hs : ∀ d ∈ s.head?, d.isAlphanum = false) : Takes name (c :: l) s :=
  (isClass_letter.takes hc (l ++ s)).sequence_pair (isClass_alphanum.takes_zeroOrMore hl hs)

theorem fails_name (hs : ∀ d ∈ s.head?, d.isAlpha = false) : Fails name s :=
  (isClass_letter.fails hs).sequence_pair

theorem takes_number (hc : c.isDigit = true) (h0 : c ≠ '0') (hl : ∀ d ∈ l, d.isDigit = true)
    (hs : ∀ d ∈ s.head?, d.isDigit = false) : Takes number (c :: l) s := by
  have hzero : Fails (.char '0') (c :: l ++ s) := (isClass_char '0').fails fun d hd => by
    cases hd
    simpa using h0
  have hc' : (c.isDigit && c != '0') = true := by simp [hc, h0]
  have hrest := isClass_digit.takes_zeroOrMore hl hs
  refine Takes.choice_of_fails hzero.sequence_pair (Takes.choice ?_)
  exact (isClass_nonZeroDigit.takes hc' (l ++ s)).sequence_pair hrest

theorem takes_zero (hs : ∀ d ∈ s.head?, d.isAlphanum = false) : Takes number ['0'] s :=
  Takes.choice (((isClass_char '0').takes rfl ([] ++ s)).sequence_pair
    (isClass_alphanum.fails hs).notFollowedBy)

theorem fails_number (hs : ∀ d ∈ s.head?, d.isDigit = false) : Fails number s := by
  have hzero : Fails (.char '0') s := (isClass_char '0').fails fun d hd => by
    have h := hs d hd
    rw [beq_eq_false_iff_ne]
    rintro rfl
    cases h
  have hrest : Fails nonZeroDigit s := isClass_nonZeroDigit.fails fun d hd => by
    rw [hs d hd, Bool.false_and]
  exact hzero.sequence_pair.choice (hrest.sequence_pair.choice (fails_choice_nil s))

/-- Zero in front of a letter or digit is no number. -/
theorem fails_number_zero (hs : ∃ d ∈ s.head?, d.isAlphanum = true) : Fails number ('0' :: s) := by
  obtain ⟨d, hd, ha⟩ := hs
  obtain ⟨t, rfl⟩ := List.head?_eq_some_iff.mp hd
  have hlook : Fails (.notFollowedBy (.choice [letter, digit])) (d :: t) :=
    (isClass_alphanum.takes ha t).fails_notFollowedBy
  have hrest : Fails nonZeroDigit ('0' :: d :: t) := isClass_nonZeroDigit.fails fun d hd => by
    cases hd
    rfl
  exact (((isClass_char '0').takes rfl (d :: t)).fails_sequence_pair hlook).choice
    (hrest.sequence_pair.choice (fails_choice_nil _))

theorem takes_doubleOperator (hl : l ∈ operatorPairs) (s : Text) : Takes doubleOperator l s :=
  takes_literals length_of_mem_operatorPairs hl s

theorem fails_doubleOperator (hs : ∀ d ∈ s.head?, [c, d] ∉ operatorPairs) :
    Fails doubleOperator (c :: s) := by
  refine fails_literals fun l hl hp => ?_
  obtain ⟨a, b, rfl, -⟩ := eq_pair_of_mem_operatorPairs hl
  obtain ⟨t, ht⟩ := hp
  simp only [List.cons_append, List.nil_append, List.cons.injEq] at ht
  obtain ⟨rfl, rfl⟩ := ht
  exact hs b rfl hl

theorem fails_doubleOperator_nil : Fails doubleOperator [] := by
  refine fails_literals fun l hl hp => ?_
  obtain ⟨a, b, rfl, -⟩ := eq_pair_of_mem_operatorPairs hl
  cases List.prefix_nil.mp hp

theorem fails_doubleOperator_of_not_mem (hc : c ∉ operatorCharacters) :
    Fails doubleOperator (c :: s) :=
  fails_doubleOperator fun _ _ hcd => hc (mem_operatorCharacters_of_mem_pair _ hcd c (by simp))

theorem takes_singleOperator (hc : c ∈ operatorCharacters) (s : Text) :
    Takes singleOperator [c] s :=
  isClass_singleOperator.takes (by simpa using hc) s

theorem fails_singleOperator (hs : ∀ d ∈ s.head?, d ∉ operatorCharacters) :
    Fails singleOperator s :=
  isClass_singleOperator.fails fun d hd => by simpa using hs d hd

theorem takes_spaces (hne : l ≠ []) (hl : ∀ d ∈ l, d ∈ whitespace)
    (hs : ∀ d ∈ s.head?, d ∉ whitespace) : Takes spaces l s :=
  isClass_space.takes_oneOrMore hne (fun d hd => by simpa using hl d hd)
    fun d hd => by simpa using hs d hd

theorem fails_spaces (hs : ∀ d ∈ s.head?, d ∉ whitespace) : Fails spaces s :=
  isClass_space.fails_oneOrMore fun d hd => by simpa using hs d hd

end Alternatives

/-! ### All alternatives in order -/

theorem forall_head_nil {P : Char → Prop} : ∀ d ∈ ([] : Text).head?, P d :=
  fun _ hd => by cases hd

theorem forall_head_cons {P : Char → Prop} {c : Char} {s : Text} (hc : P c) :
    ∀ d ∈ (c :: s).head?, P d :=
  fun _ hd => by cases hd; exact hc

/-- **The lexer takes every lexeme.** -/
theorem takes_token {l s : Text} (h : Lexeme l s.head?) : Takes token l s := by
  cases h with
  | name hc hl hs => exact (takes_name hc hl hs).choice
  | number hc h0 hl hs =>
    refine Takes.choice_of_fails (fails_name (forall_head_cons (isAlpha_of_isDigit hc))) ?_
    exact (takes_number hc h0 hl hs).choice
  | zero hs =>
    refine Takes.choice_of_fails (fails_name (forall_head_cons rfl)) ?_
    exact (takes_zero hs).choice
  | double hl =>
    obtain ⟨c, d, rfl, hc, -⟩ := eq_pair_of_mem_operatorPairs hl
    have ha := not_isAlphanum_of_mem_operatorCharacters c hc
    refine Takes.choice_of_fails (fails_name (forall_head_cons (isAlpha_eq_false ha))) ?_
    refine Takes.choice_of_fails (fails_number (forall_head_cons (isDigit_eq_false ha))) ?_
    exact (takes_doubleOperator hl s).choice
  | single hc hs =>
    have ha := not_isAlphanum_of_mem_operatorCharacters _ hc
    refine Takes.choice_of_fails (fails_name (forall_head_cons (isAlpha_eq_false ha))) ?_
    refine Takes.choice_of_fails (fails_number (forall_head_cons (isDigit_eq_false ha))) ?_
    refine Takes.choice_of_fails (fails_doubleOperator hs) ?_
    exact (takes_singleOperator hc s).choice
  | spaces hne hl hs =>
    obtain ⟨c, l, rfl⟩ := List.exists_cons_of_ne_nil hne
    have hc := hl c (by simp)
    have ha := not_isAlphanum_of_mem_whitespace c hc
    have hn : c ∉ operatorCharacters := fun h => not_mem_whitespace_of_mem_operatorCharacters c h hc
    refine Takes.choice_of_fails (fails_name (forall_head_cons (isAlpha_eq_false ha))) ?_
    refine Takes.choice_of_fails (fails_number (forall_head_cons (isDigit_eq_false ha))) ?_
    refine Takes.choice_of_fails (fails_doubleOperator_of_not_mem hn) ?_
    refine Takes.choice_of_fails (fails_singleOperator (forall_head_cons hn)) ?_
    exact (takes_spaces hne hl hs).choice

/-- **The lexer fails where no lexeme begins.** -/
theorem fails_token {c : Char} {s : Text} (h : Stuck c s.head?) : Fails token (c :: s) := by
  rcases h with h | ⟨rfl, h⟩
  · have ha : c.isAlphanum = false := by
      by_contra hc
      exact h (Or.inl (by simpa using hc))
    have hs : c ∉ operatorCharacters := fun hc => h (Or.inr (Or.inr hc))
    have hw : c ∉ whitespace := fun hc => h (Or.inr (Or.inl hc))
    refine (fails_name (forall_head_cons (isAlpha_eq_false ha))).choice ?_
    refine (fails_number (forall_head_cons (isDigit_eq_false ha))).choice ?_
    refine (fails_doubleOperator_of_not_mem hs).choice ?_
    refine (fails_singleOperator (forall_head_cons hs)).choice ?_
    exact (fails_spaces (forall_head_cons hw)).choice (fails_choice_nil _)
  · refine (fails_name (forall_head_cons rfl)).choice ?_
    refine (fails_number_zero h).choice ?_
    refine (fails_doubleOperator_of_not_mem (by decide)).choice ?_
    refine (fails_singleOperator (forall_head_cons (by decide))).choice ?_
    exact (fails_spaces (forall_head_cons (by decide))).choice (fails_choice_nil _)

theorem fails_token_nil : Fails token [] := by
  refine (fails_name forall_head_nil).choice ?_
  refine (fails_number forall_head_nil).choice ?_
  refine fails_doubleOperator_nil.choice ?_
  refine (fails_singleOperator forall_head_nil).choice ?_
  exact (fails_spaces forall_head_nil).choice (fails_choice_nil _)

end LexerCombinators.Lexicon
