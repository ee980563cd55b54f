import LexerCombinators.Proofs.Toy.Kinds
import LexerCombinators.Proofs.Toy.Language

/-!
# Texts of the toy language

Five lexemes are of no kind: two operators of two characters, and three of one (`oddSpellings`).
Which of them a program contains can be read off its characters and their right neighbours: an
operator of one character is a lexeme only where no operator of two begins, and no operator of two
ends with the first character of an odd one, itself apart (`Munch.isOdd_iff`). With the rule for
where lexing stops this makes a purely textual condition, `Clean`, which is `clean_iff`.
-/

namespace LexerCombinators.Lexicon

/-! ### Lexemes of no kind -/

/-- The lexemes that are no tokens. -/
def oddSpellings : List Text := ["&&", "||", "!", "^", "~"].map String.toList

theorem classify_of_mem_oddSpellings : ∀ l ∈ oddSpellings, Kind.classify l = none := by decide

theorem isSome_classify_of_mem_pair :
    ∀ l ∈ operatorPairs, l ∉ oddSpellings → (Kind.classify l).isSome = true := by decide

theorem isSome_classify_of_mem_single :
    ∀ c ∈ operatorCharacters, [c] ∉ oddSpellings → (Kind.classify [c]).isSome = true :=
  forall_mem_of_all (by decide)

theorem mem_operatorCharacters_of_mem_odd :
    ∀ l ∈ oddSpellings, ∀ c ∈ l, c ∈ operatorCharacters := by
  have h : ∀ c ∈ oddSpellings.flatten, c ∈ operatorCharacters := forall_mem_of_all (by decide)
  exact fun l hl c hc => h c (List.mem_flatten.mpr ⟨l, hl, hc⟩)

/-- Lexemes are of some kind, the odd ones and white space apart. -/
theorem Lexeme.isSome_classify {l : Text} {next : Option Char} (h : Lexeme l next)
    (hl : l ∉ oddSpellings) : (∀ c ∈ l, c ∈ whitespace) ∨ (Kind.classify l).isSome = true := by
  cases h with
  | name hc hd =>
    refine Or.inr (Kind.isSome_classify (Or.inl ?_))
    rw [Kind.isName, hc, Bool.true_and, List.all_eq_true]
    exact hd
  | number hc _ hd =>
    refine Or.inr (Kind.isSome_classify (Or.inr ?_))
    rw [Kind.isNumber, List.isEmpty_cons, Bool.not_false, Bool.true_and, List.all_cons, hc,
      Bool.true_and, List.all_eq_true]
    exact hd
  | zero => exact Or.inr (Kind.isSome_classify (Or.inr rfl))
  | double h => exact Or.inr (isSome_classify_of_mem_pair l h hl)
  | single h => exact Or.inr (isSome_classify_of_mem_single _ h hl)
  | spaces _ h => exact Or.inl h

/-! ### Odd places -/

/-- At the character `c` in front of `next` an odd lexeme begins. -/
def OddAt (c : Char) (next : Option Char) : Prop :=
  c = '^' ∨ c = '~' ∨ (c = '!' ∧ next ≠ some '=') ∨ ((c = '&' ∨ c = '|') ∧ next = some c)

/-- Somewhere in the text is an odd place. -/
def IsOdd (s : Text) : Prop := ∃ c t, c :: t <:+ s ∧ OddAt c t.head?

theorem not_isOdd_nil : ¬ IsOdd [] := by
  rintro ⟨c, t, h, -⟩
  cases List.suffix_nil.mp h

theorem isOdd_cons_iff {c : Char} {s : Text} : IsOdd (c :: s) ↔ OddAt c s.head? ∨ IsOdd s := by
  constructor
  · rintro ⟨d, t, h, hd⟩
    rcases List.suffix_cons_iff.mp h with h | h
    · cases h
      exact Or.inl hd
    · exact Or.inr ⟨d, t, h, hd⟩
  · rintro (h | ⟨d, t, h, hd⟩)
    · exact ⟨c, s, List.suffix_refl _, h⟩
    · exact ⟨d, t, h.trans (List.suffix_cons c s), hd⟩

theorem OddAt.mem_operatorCharacters {c : Char} {next : Option Char} (h : OddAt c next) :
    c ∈ operatorCharacters := by
  rcases h with rfl | rfl | ⟨rfl, -⟩ | ⟨rfl | rfl, -⟩ <;> decide

/-- A text without operators in front makes no odd place. -/
theorem isOdd_append_iff_of_forall {l s : Text} (hl : ∀ c ∈ l, c ∉ operatorCharacters) :
    IsOdd (l ++ s) ↔ IsOdd s := by
  induction l with
  | nil => rfl
  | cons c l ih =>
    have hc : ¬ OddAt c (l ++ s).head? := fun h => hl c (by simp) h.mem_operatorCharacters
    rw [List.cons_append, isOdd_cons_iff, or_iff_right hc]
    exact ih fun d hd => hl d (by simp [hd])

theorem mem_operatorPairs_iff {c d : Char} : [c, d] ∈ operatorPairs ↔
    ((c = '!' ∨ c = '=' ∨ c = '<' ∨ c = '>') ∧ d = '=') ∨ ((c = '&' ∨ c = '|') ∧ d = c) := by
  simp only [operatorPairs, List.map_cons, List.map_nil, String.reduceToList, List.mem_cons,
    List.cons.injEq, List.not_mem_nil, and_true, or_false]
  grind

theorem pair_mem_oddSpellings_iff {c d : Char} :
    [c, d] ∈ oddSpellings ↔ (c = '&' ∨ c = '|') ∧ d = c := by
  simp only [oddSpellings, List.map_cons, List.map_nil, String.reduceToList, List.mem_cons,
    List.cons.injEq, List.not_mem_nil, and_true, or_false]
  grind

theorem singleton_mem_oddSpellings_iff {c : Char} :
    [c] ∈ oddSpellings ↔ c = '!' ∨ c = '^' ∨ c = '~' := by
  simp [oddSpellings]

/-- An odd place in an operator of two characters makes it odd. -/
theorem oddAt_pair_iff {c d : Char} (h : [c, d] ∈ operatorPairs) (next : Option Char) :
    OddAt c (some d) ∨ OddAt d next ↔ [c, d] ∈ oddSpellings := by
  rw [pair_mem_oddSpellings_iff]
  rcases mem_operatorPairs_iff.mp h with ⟨hc, rfl⟩ | ⟨hc, rfl⟩
  · refine iff_of_false ?_ ?_
    · rcases hc with rfl | rfl | rfl | rfl <;> simp [OddAt]
    · rcases hc with rfl | rfl | rfl | rfl <;> simp
  · exact iff_of_true (Or.inl (Or.inr (Or.inr (Or.inr ⟨hc, rfl⟩)))) ⟨hc, rfl⟩

/-- An operator of one character is an odd place where it is odd. -/
theorem oddAt_single_iff {c : Char} {next : Option Char}
    (h : ∀ d ∈ next, [c, d] ∉ operatorPairs) : OddAt c next ↔ [c] ∈ oddSpellings := by
  rw [singleton_mem_oddSpellings_iff]
  constructor
  · rintro (hc | hc | ⟨hc, -⟩ | ⟨hc, hn⟩)
    · exact Or.inr (Or.inl hc)
    · exact Or.inr (Or.inr hc)
    · exact Or.inl hc
    · exact absurd (mem_operatorPairs_iff.mpr (Or.inr ⟨hc, rfl⟩)) (h c hn)
  · rintro (rfl | hc | hc)
    · exact Or.inr (Or.inr (Or.inl ⟨rfl, fun hn => h '=' hn (by decide)⟩))
    · exact Or.inl hc
    · exact Or.inr (Or.inl hc)

/-- A lexeme makes an odd place exactly when it is odd. -/
theorem Lexeme.isOdd_append_iff {l s : Text} (h : Lexeme l s.head?) :
    IsOdd (l ++ s) ↔ l ∈ oddSpellings ∨ IsOdd s := by
  -- a lexeme without operators is not odd
  have hplain : (∀ c ∈ l, c ∉ operatorCharacters) →
      (IsOdd (l ++ s) ↔ l ∈ oddSpellings ∨ IsOdd s) := fun hl => by
    have hodd : l ∉ oddSpellings := fun ho => by
      obtain ⟨c, t, rfl⟩ := List.exists_cons_of_ne_nil h.ne_nil
      exact hl c (by simp) (mem_operatorCharacters_of_mem_odd _ ho c (by simp))
    rw [isOdd_append_iff_of_forall hl, or_iff_right hodd]
  cases h with
  | name hc hl =>
    refine hplain fun d hd => not_mem_operatorCharacters_of_isAlphanum ?_
    exact forall_isAlphanum_name hc hl d hd
  | number hc _ hl =>
    refine hplain fun d hd => not_mem_operatorCharacters_of_isAlphanum ?_
    exact forall_isAlphanum_number hc hl d hd
  | zero => exact hplain (forall_mem_of_all (by decide))
  | spaces _ hl =>
    exact hplain fun d hd hs => not_mem_whitespace_of_mem_operatorCharacters d hs (hl d hd)
  | double hl =>
    obtain ⟨c, d, rfl, -⟩ := eq_pair_of_mem_operatorPairs hl
    rw [← oddAt_pair_iff hl s.head?, or_assoc, ← isOdd_cons_iff, List.cons_append, isOdd_cons_iff]
    rfl
  | single _ hn => rw [← oddAt_single_iff hn, List.singleton_append, isOdd_cons_iff]

/-- **Odd places and odd lexemes.** A program that is munched to its end has an odd place exactly
when one of its lexemes is odd. -/
theorem Munch.isOdd_iff {s t : Text} {ls : List Text} (h : Munch s ls t) (ht : t = []) :
    IsOdd s ↔ ∃ l ∈ ls, l ∈ oddSpellings := by
  induction h with
  | done => exact iff_of_false not_isOdd_nil (by simp)
  | stuck => cases ht
  | lexeme hl _ ih =>
    rw [hl.isOdd_append_iff, ih ht]
    simp only [List.mem_cons, exists_eq_or_imp]

/-- All lexemes but white space are of some kind exactly when there is no odd place. -/
theorem Munch.forall_isSome_classify_iff {s t : Text} {ls : List Text} (h : Munch s ls t)
    (ht : t = []) : (∀ l ∈ ls, (∀ c ∈ l, c ∈ whitespace) ∨ (Kind.classify l).isSome = true) ↔
      ¬ IsOdd s := by
  rw [h.isOdd_iff ht]
  constructor
  · rintro hls ⟨l, hl, ho⟩
    rcases hls l hl with hw | hk
    · obtain ⟨next, hlex⟩ := h.isLexeme l hl
      obtain ⟨c, k, rfl⟩ := List.exists_cons_of_ne_nil hlex.ne_nil
      have hs := mem_operatorCharacters_of_mem_odd _ ho c (by simp)
      exact not_mem_whitespace_of_mem_operatorCharacters c hs (hw c (by simp))
    · rw [classify_of_mem_oddSpellings l ho] at hk
      cases hk
  · intro ho l hl
    obtain ⟨next, hlex⟩ := h.isLexeme l hl
    exact hlex.isSome_classify fun hodd => ho ⟨l, hl, hodd⟩

/-! ### Clean texts -/

/-- The operators and the punctuation of the tokens. -/
def tokenCharacters : Text := "&|!=<>()\x7b\x7d;+-*/%\"".toList

/-- The texts of which tokens can be made, as far as neighbouring characters tell. -/
structure Clean (s : Text) : Prop where
  /-- All characters are letters, digits, white space or in tokens. -/
  chars : ∀ c ∈ s, c.isAlphanum = true ∨ c ∈ whitespace ∨ c ∈ tokenCharacters
  /-- A zero that begins a piece of letters and digits also ends it. -/
  zeros : ∀ before after, s = before ++ '0' :: after →
    (∀ b ∈ before.getLast?, b.isAlphanum = false) → ∀ d ∈ after.head?, d.isAlphanum = false
  /-- An exclamation mark begins an inequality. -/
  marks : ∀ before after, s = before ++ '!' :: after → after.head? = some '='
  /-- There is no double ampersand. -/
  ands : ¬ "&&".toList <:+: s
  /-- There is no double bar. -/
  ors : ¬ "||".toList <:+: s

theorem mem_tokenCharacters_or :
    ∀ c ∈ operatorCharacters, c = '^' ∨ c = '~' ∨ c ∈ tokenCharacters :=
  forall_mem_of_all (by decide)

theorem mem_operatorCharacters_of_mem_token :
    ∀ c ∈ tokenCharacters, c ∈ operatorCharacters := forall_mem_of_all (by decide)

theorem Clean.not_bad {s : Text} (h : Clean s) (i : Nat) : ¬ Bad s i := by
  intro hb
  obtain ⟨x, c, y, rfl, rfl⟩ := hb.split
  rcases bad_append_iff.mp hb with hc | ⟨rfl, ⟨d, hd, hda⟩, hx⟩
  · refine hc ((h.chars c (by simp)).imp_right (Or.imp_right ?_))
    exact mem_operatorCharacters_of_mem_token c
  · rw [h.zeros x y rfl hx d hd] at hda
    cases hda

theorem Clean.not_isOdd {s : Text} (h : Clean s) : ¬ IsOdd s := by
  rintro ⟨c, t, ⟨x, rfl⟩, rfl | rfl | ⟨rfl, hn⟩ | ⟨rfl | rfl, hn⟩⟩
  · exact absurd (h.chars '^' (by simp)) (by decide)
  · exact absurd (h.chars '~' (by simp)) (by decide)
  · exact hn (h.marks x t rfl)
  · obtain ⟨y, rfl⟩ := List.head?_eq_some_iff.mp hn
    exact h.ands ⟨x, y, by simp⟩
  · obtain ⟨y, rfl⟩ := List.head?_eq_some_iff.mp hn
    exact h.ors ⟨x, y, by simp⟩

theorem clean_of_not_bad {s : Text} (hbad : ∀ i, ¬ Bad s i) (hodd : ¬ IsOdd s) : Clean s := by
  have hplace : ∀ x c y, s = x ++ c :: y → ¬ OddAt c y.head? := fun x c y hs hc =>
    hodd ⟨c, y, ⟨x, hs.symm⟩, hc⟩
  refine ⟨fun c hc => ?_, fun x y hs hx d hd => ?_, fun x y hs => ?_, ?_, ?_⟩
  · obtain ⟨x, y, hs⟩ := List.append_of_mem hc
    have hknown : Known c := by
      by_contra hk
      exact hbad x.length (hs ▸ bad_append_iff.mpr (Or.inl hk))
    refine hknown.imp_right (Or.imp_right fun hsingle => ?_)
    have hodd := hplace x c y hs
    rcases mem_tokenCharacters_or c hsingle with rfl | rfl | hc
    · simp [OddAt] at hodd
    · simp [OddAt] at hodd
    · exact hc
  · by_contra hda
    refine hbad x.length (hs ▸ bad_append_iff.mpr (Or.inr ⟨rfl, ⟨d, hd, ?_⟩, hx⟩))
    simpa using hda
  · simpa [OddAt] using hplace x '!' y hs
  · rintro ⟨x, y, hs⟩
    exact hplace x '&' ('&' :: y) (by rw [← hs]; simp) (by simp [OddAt])
  · rintro ⟨x, y, hs⟩
    exact hplace x '|' ('|' :: y) (by rw [← hs]; simp) (by simp [OddAt])

/-- **Clean texts** are those that are munched to the end and have no odd place. -/
theorem clean_iff {s : Text} : Clean s ↔ (∀ i, ¬ Bad s i) ∧ ¬ IsOdd s :=
  ⟨fun h => ⟨h.not_bad, h.not_isOdd⟩, fun ⟨hbad, hodd⟩ => clean_of_not_bad hbad hodd⟩

end LexerCombinators.Lexicon
