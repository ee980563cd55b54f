import LexerCombinators.Proofs.Pattern.CharClass
import LexerCombinators.Toy.Lexicon

/-!
# Lexemes of the toy language

Whether a text is a lexeme of a program depends on the text and on the one character that follows it
(`Lexeme`). The rule does not speak of lexers, nor of an order of alternatives. At every character
of a stream a lexeme begins, or the stream is `Stuck` there (`exists_lexeme_or_stuck`).
-/

namespace LexerCombinators.Lexicon

/-- The characters of operators and punctuation. -/
def operatorCharacters : Text := "&|^~!=<>()\x7b\x7d;+-*/%\"".toList

/-- The operators of two characters. -/
def operatorPairs : List Text := ["!=", "==", "<=", ">=", "&&", "||"].map String.toList

/-- The text `l` is a lexeme in front of the character `next`, or at the end of the program. -/
inductive Lexeme : Text → Option Char → Prop
  /-- A letter, then letters and digits, as many as there are. -/
  | name {c : Char} {l : Text} {next : Option Char} : c.isAlpha = true →
      (∀ d ∈ l, d.isAlphanum = true) → (∀ d ∈ next, d.isAlphanum = false) → Lexeme (c :: l) next
  /-- Digits that do not begin with zero, as many as there are. -/
  | number {c : Char} {l : Text} {next : Option Char} : c.isDigit = true → c ≠ '0' →
      (∀ d ∈ l, d.isDigit = true) → (∀ d ∈ next, d.isDigit = false) → Lexeme (c :: l) next
  /-- Zero, with no letter or digit behind it. -/
  | zero {next : Option Char} : (∀ d ∈ next, d.isAlphanum = false) → Lexeme ['0'] next
  /-- An operator of two characters. -/
  | double {l : Text} {next : Option Char} : l ∈ operatorPairs → Lexeme l next
  /-- An operator of one character that is not the first half of one of two. -/
  | single {c : Char} {next : Option Char} : c ∈ operatorCharacters →
      (∀ d ∈ next, [c, d] ∉ operatorPairs) → Lexeme [c] next
  /-- White space, as much as there is. -/
  | spaces {l : Text} {next : Option Char} : l ≠ [] → (∀ d ∈ l, d ∈ whitespace) →
      (∀ d ∈ next, d ∉ whitespace) → Lexeme l next

/-- The characters of which lexemes are made. -/
def Known (c : Char) : Prop := c.isAlphanum = true ∨ c ∈ whitespace ∨ c ∈ operatorCharacters

/-- No lexeme begins at the character `c` in front of `next`. -/
def Stuck (c : Char) (next : Option Char) : Prop :=
  ¬ Known c ∨ c = '0' ∧ ∃ d ∈ next, d.isAlphanum = true

/-! ### Characters -/

theorem forall_mem_of_all {p : Char → Prop} [DecidablePred p] {l : Text}
    (h : (l.all fun c => decide (p c)) = true) : ∀ c ∈ l, p c :=
  fun c hc => of_decide_eq_true (List.all_eq_true.mp h c hc)

theorem isAlphanum_of_isAlpha {c : Char} (h : c.isAlpha = true) : c.isAlphanum = true := by
  rw [Char.isAlphanum, h, Bool.true_or]

theorem isAlphanum_of_isDigit {c : Char} (h : c.isDigit = true) : c.isAlphanum = true := by
  rw [Char.isAlphanum, h, Bool.or_true]

theorem isDigit_of_isAlphanum {c : Char} (h : c.isAlphanum = true) (ha : c.isAlpha = false) :
    c.isDigit = true := by
  rwa [Char.isAlphanum, ha, Bool.false_or] at h

theorem isAlpha_eq_false {c : Char} (h : c.isAlphanum = false) : c.isAlpha = false :=
  (Bool.or_eq_false_iff.mp h).1

theorem isDigit_eq_false {c : Char} (h : c.isAlphanum = false) : c.isDigit = false :=
  (Bool.or_eq_false_iff.mp h).2

theorem isAlpha_of_isDigit {c : Char} (h : c.isDigit = true) : c.isAlpha = false := by
  have hupper : c.isUpper = decide ('A'.val ≤ c.val ∧ c.val ≤ 'Z'.val) := rfl
  have hlower : c.isLower = (decide ('a'.val ≤ c.val) && decide (c.val ≤ 'z'.val)) := rfl
  have halpha : c.isAlpha = (c.isUpper || c.isLower) := rfl
  have hdigit : c.val ≤ '9'.val := by simpa using (Bool.and_eq_true_iff.mp h).2
  rw [halpha, hupper, hlower]
  grind

theorem not_isAlphanum_of_mem_operatorCharacters :
    ∀ c ∈ operatorCharacters, c.isAlphanum = false := forall_mem_of_all (by decide)

theorem not_mem_operatorCharacters_of_isAlphanum {c : Char} (h : c.isAlphanum = true) :
    c ∉ operatorCharacters := by
  intro hc
  rw [not_isAlphanum_of_mem_operatorCharacters c hc] at h
  cases h

theorem not_isAlphanum_of_mem_whitespace :
    ∀ c ∈ whitespace, c.isAlphanum = false := forall_mem_of_all (by decide)

theorem not_mem_whitespace_of_mem_operatorCharacters :
    ∀ c ∈ operatorCharacters, c ∉ whitespace := forall_mem_of_all (by decide)

theorem length_of_mem_operatorPairs : ∀ l ∈ operatorPairs, l.length = 2 := by decide

theorem mem_operatorCharacters_of_mem_pair :
    ∀ l ∈ operatorPairs, ∀ c ∈ l, c ∈ operatorCharacters := by
  have h : ∀ c ∈ operatorPairs.flatten, c ∈ operatorCharacters := forall_mem_of_all (by decide)
  exact fun l hl c hc => h c (List.mem_flatten.mpr ⟨l, hl, hc⟩)

/-- An operator of two characters, by its characters. -/
theorem eq_pair_of_mem_operatorPairs {l : Text} (h : l ∈ operatorPairs) :
    ∃ c d, l = [c, d] ∧ c ∈ operatorCharacters ∧ d ∈ operatorCharacters := by
  obtain ⟨c, d, rfl⟩ : ∃ c d, l = [c, d] := by
    match l, length_of_mem_operatorPairs l h with
    | [c, d], _ => exact ⟨c, d, rfl⟩
  exact ⟨c, d, rfl, mem_operatorCharacters_of_mem_pair _ h c (by simp),
    mem_operatorCharacters_of_mem_pair _ h d (by simp)⟩

/-! ### What lexemes are made of -/

theorem forall_isAlphanum_name {c : Char} {l : Text} (hc : c.isAlpha = true)
    (hl : ∀ d ∈ l, d.isAlphanum = true) : ∀ d ∈ c :: l, d.isAlphanum = true :=
  List.forall_mem_cons.mpr ⟨isAlphanum_of_isAlpha hc, hl⟩

theorem forall_isAlphanum_number {c : Char} {l : Text} (hc : c.isDigit = true)
    (hl : ∀ d ∈ l, d.isDigit = true) : ∀ d ∈ c :: l, d.isAlphanum = true :=
  List.forall_mem_cons.mpr
    ⟨isAlphanum_of_isDigit hc, fun d hd => isAlphanum_of_isDigit (hl d hd)⟩

theorem Lexeme.ne_nil {l : Text} {next : Option Char} (h : Lexeme l next) : l ≠ [] := by
  cases h with
  | name | number | zero | single => exact List.cons_ne_nil _ _
  | double h =>
    obtain ⟨c, d, rfl, -⟩ := eq_pair_of_mem_operatorPairs h
    exact List.cons_ne_nil _ _
  | spaces h => exact h

/-- The characters of a lexeme are of one sort. -/
theorem Lexeme.sort {l : Text} {next : Option Char} (h : Lexeme l next) :
    (∀ c ∈ l, c.isAlphanum = true) ∨ (∀ c ∈ l, c ∈ whitespace) ∨
      ∀ c ∈ l, c ∈ operatorCharacters := by
  cases h with
  | name hc hl => exact Or.inl (forall_isAlphanum_name hc hl)
  | number hc _ hl => exact Or.inl (forall_isAlphanum_number hc hl)
  | zero => exact Or.inl (List.forall_mem_singleton.mpr rfl)
  | double hl => exact Or.inr (Or.inr (mem_operatorCharacters_of_mem_pair _ hl))
  | single hc => exact Or.inr (Or.inr (List.forall_mem_singleton.mpr hc))
  | spaces _ hl => exact Or.inr (Or.inl hl)

theorem Lexeme.known {l : Text} {next : Option Char} (h : Lexeme l next) : ∀ c ∈ l, Known c := by
  intro c hc
  rcases h.sort with hl | hl | hl
  · exact Or.inl (hl c hc)
  · exact Or.inr (Or.inl (hl c hc))
  · exact Or.inr (Or.inr (hl c hc))

/-- **At every character a lexeme begins, or no lexeme can.** -/
theorem exists_lexeme_or_stuck (c : Char) (s : Text) :
    (∃ l t, c :: s = l ++ t ∧ Lexeme l t.head?) ∨ Stuck c s.head? := by
  by_cases ha : c.isAlpha = true
  · obtain ⟨l, t, rfl, hl, ht⟩ := exists_run Char.isAlphanum s
    exact Or.inl ⟨c :: l, t, rfl, .name ha hl ht⟩
  by_cases hd : c.isDigit = true
  · by_cases h0 : c = '0'
    · by_cases hn : ∃ d ∈ s.head?, d.isAlphanum = true
      · exact Or.inr (Or.inr ⟨h0, hn⟩)
      · refine Or.inl ⟨[c], s, rfl, h0 ▸ .zero fun d hd => ?_⟩
        by_contra hc
        exact hn ⟨d, hd, by simpa using hc⟩
    · obtain ⟨l, t, rfl, hl, ht⟩ := exists_run Char.isDigit s
      exact Or.inl ⟨c :: l, t, rfl, .number hd h0 hl ht⟩
  by_cases hs : c ∈ operatorCharacters
  · by_cases hn : ∃ d ∈ s.head?, [c, d] ∈ operatorPairs
    · obtain ⟨d, hd, hcd⟩ := hn
      obtain ⟨t, rfl⟩ := List.head?_eq_some_iff.mp hd
      exact Or.inl ⟨[c, d], t, rfl, .double hcd⟩
    · exact Or.inl ⟨[c], s, rfl, .single hs fun d hd hcd => hn ⟨d, hd, hcd⟩⟩
  by_cases hw : c ∈ whitespace
  · obtain ⟨l, t, rfl, hl, ht⟩ := exists_run (fun d => decide (d ∈ whitespace)) s
    refine Or.inl ⟨c :: l, t, rfl, .spaces (List.cons_ne_nil _ _) ?_ ?_⟩
    · intro d hd
      rcases List.mem_cons.mp hd with rfl | hd
      · exact hw
      · simpa using hl d hd
    · exact fun d hd => by simpa using ht d hd
  -- no class is left
  refine Or.inr (Or.inl ?_)
  rintro (h | h | h)
  · exact hd (isDigit_of_isAlphanum h (by simpa using ha))
  · exact hw h
  · exact hs h

end LexerCombinators.Lexicon
