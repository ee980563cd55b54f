import LexerCombinators.Proofs.Toy.Clean

/-!
# Lexing and classifying single words

The shape of a word is given twice, by the lexers and by the rules that classify a text. What a
lexer takes from the front of a stream depends on what stands there (`Lexer.TakesAll` asks that it
is everything), and classification looks at the whole text. The two are compared without a run: the
lexers of names and numbers by the shape of the text (`takesAll_name_iff`, `takesAll_number_iff`),
and the lexer of lexemes by the lexemes that end a program (`takesAll_token_iff_lexeme`,
`lexeme_none_iff`). They disagree on commas, on numbers that begin with a zero, on white space, and
on five operators, and on nothing else (`lexers_agree_with_classify`).
-/

namespace LexerCombinators

/-- The lexer takes the whole stream. -/
def Lexer.TakesAll (p : Lexer) (s : Text) : Prop := ∃ ls, p.run s = .ok (.success ls [])

section TakesAll

open Lexer

variable {p : Lexer} {l s : Text}

/-- A lexer that takes a text from the front takes everything if that is everything. -/
theorem Lexer.Takes.takesAll_iff (h : Takes p l s) : TakesAll p (l ++ s) ↔ s = [] := by
  obtain ⟨ls, -, hrun⟩ := h
  constructor
  · rintro ⟨ls', hrun'⟩
    rw [hrun] at hrun'
    cases hrun'
    rfl
  · rintro rfl
    exact ⟨ls, hrun⟩

theorem Lexer.Fails.not_takesAll (h : Fails p s) : ¬ TakesAll p s := by
  rintro ⟨ls, hrun⟩
  rw [h] at hrun
  cases hrun

/-- A text of a class with a stop behind it is of the class if nothing is behind it. -/
theorem all_append_iff_of_stop {f : Char → Bool} (hl : ∀ c ∈ l, f c = true)
    (hs : ∀ c ∈ s.head?, f c = false) : (l ++ s).all f = true ↔ s = [] := by
  rw [List.all_append, List.all_eq_true.mpr hl, Bool.true_and]
  cases s with
  | nil => simp
  | cons c s => simp [hs c rfl]

end TakesAll

namespace Lexicon

open Lexer

/-! ### What the lexers take -/

theorem takesAll_name_iff (s : Text) : TakesAll name s ↔ Kind.isName s = true := by
  obtain _ | ⟨c, s⟩ := s
  · exact iff_of_false (fails_name forall_head_nil).not_takesAll Bool.false_ne_true
  by_cases hc : c.isAlpha = true
  · obtain ⟨l, t, rfl, hl, ht⟩ := exists_run Char.isAlphanum s
    rw [Kind.isName, hc, Bool.true_and, all_append_iff_of_stop hl ht]
    exact (takes_name hc hl ht).takesAll_iff
  · have hc' : c.isAlpha = false := by simpa using hc
    rw [Kind.isName, hc', Bool.false_and]
    exact iff_of_false (fails_name (forall_head_cons hc')).not_takesAll Bool.false_ne_true

theorem takesAll_number_iff (s : Text) : TakesAll number s ↔
    Kind.isNumber s = true ∧ (s = ['0'] ∨ s.head? ≠ some '0') := by
  obtain _ | ⟨c, s⟩ := s
  · exact iff_of_false (fails_number forall_head_nil).not_takesAll fun h => Bool.false_ne_true h.1
  by_cases hc : c.isDigit = true
  · by_cases h0 : c = '0'
    · subst h0
      -- behind a zero there is nothing
      have hright : (Kind.isNumber ('0' :: s) = true ∧
          ('0' :: s = ['0'] ∨ ('0' :: s).head? ≠ some '0')) ↔ s = [] := by
        refine ⟨fun h => by simpa using h.2, ?_⟩
        rintro rfl
        exact ⟨rfl, Or.inl rfl⟩
      rw [hright]
      by_cases hs : ∃ d ∈ s.head?, d.isAlphanum = true
      · refine iff_of_false (fails_number_zero hs).not_takesAll ?_
        rintro rfl
        obtain ⟨d, hd, -⟩ := hs
        cases hd
      · refine (takes_zero (s := s) fun d hd => ?_).takesAll_iff
        by_contra ha
        exact hs ⟨d, hd, by simpa using ha⟩
    · obtain ⟨l, t, rfl, hl, ht⟩ := exists_run Char.isDigit s
      have hne : (c :: (l ++ t)).head? ≠ some '0' := by simpa using h0
      rw [and_iff_left (Or.inr hne), Kind.isNumber, List.isEmpty_cons, Bool.not_false,
        Bool.true_and, List.all_cons, hc, Bool.true_and, all_append_iff_of_stop hl ht]
      exact (takes_number hc h0 hl ht).takesAll_iff
  · have hc' : c.isDigit = false := by simpa using hc
    refine iff_of_false (fails_number (forall_head_cons hc')).not_takesAll fun h => ?_
    have hall := h.1
    rw [Kind.isNumber, List.all_cons, hc', Bool.false_and, Bool.and_false] at hall
    cases hall

/-- The lexer of lexemes takes a whole text exactly when the text is a lexeme at the end of a
program. -/
theorem takesAll_token_iff_lexeme (s : Text) : TakesAll token s ↔ Lexeme s none := by
  have hlexeme : ∀ {l : Text}, Lexeme l none → TakesAll token l := fun {l} h => by
    have htakes : Takes token l [] := takes_token h
    simpa using htakes.takesAll_iff
  refine ⟨fun h => ?_, hlexeme⟩
  obtain _ | ⟨c, s⟩ := s
  · exact absurd h fails_token_nil.not_takesAll
  rcases exists_lexeme_or_stuck c s with ⟨l, t, hs, hl⟩ | hstuck
  · rw [hs, (takes_token hl).takesAll_iff] at h
    subst h
    rw [hs, List.append_nil]
    exact hl
  · exact absurd h (fails_token hstuck).not_takesAll

/-! ### Lexemes and kinds -/

/-- The operators and the punctuation that are lexed, by their spellings. -/
def operators : List Text := operatorPairs ++ operatorCharacters.map fun c => [c]

theorem lexeme_of_mem_operators {l : Text} (h : l ∈ operators) : Lexeme l none := by
  rcases List.mem_append.mp h with h | h
  · exact .double h
  · obtain ⟨c, hc, rfl⟩ := List.mem_map.mp h
    exact .single hc fun _ hd => by cases hd

theorem mem_operators_of_mem_odd : ∀ l ∈ oddSpellings, l ∈ operators := by decide

/-- All that has a spelling is lexed, commas apart. -/
theorem mem_operators_of_spelling : ∀ k : Kind, ∀ s ∈ k.spelling?, k ≠ .controlComma →
    k ∈ Kind.keywords ∨ s ∈ operators := by
  intro k
  cases k <;> decide

theorem lexeme_of_isName {s : Text} (h : Kind.isName s = true) : Lexeme s none := by
  obtain _ | ⟨c, s⟩ := s
  · cases h
  rw [Kind.isName, Bool.and_eq_true, List.all_eq_true] at h
  exact .name h.1 h.2 fun _ hd => by cases hd

theorem lexeme_of_isNumber {s : Text} (h : Kind.isNumber s = true)
    (h0 : ¬ (2 ≤ s.length ∧ s.head? = some '0')) : Lexeme s none := by
  obtain _ | ⟨c, s⟩ := s
  · cases h
  rw [Kind.isNumber, List.isEmpty_cons, Bool.not_false, Bool.true_and, List.all_cons,
    Bool.and_eq_true, List.all_eq_true] at h
  by_cases hc : c = '0'
  · subst hc
    have hs : s = [] := by
      by_contra hne
      have := List.length_pos_iff.mpr hne
      exact h0 ⟨by rw [List.length_cons]; omega, rfl⟩
    subst hs
    exact .zero fun _ hd => by cases hd
  · exact .number h.1 hc h.2 fun _ hd => by cases hd

/-- **The lexemes that end a program, by kinds.** -/
theorem lexeme_none_iff (s : Text) : Lexeme s none ↔
    (∃ k, Kind.classify s = some k ∧ k ≠ .controlComma ∧
      ¬ (k = .genericNumber ∧ 2 ≤ s.length ∧ s.head? = some '0')) ∨
    (s ≠ [] ∧ ∀ c ∈ s, c ∈ whitespace) ∨ s ∈ oddSpellings := by
  constructor
  · intro h
    by_cases hodd : s ∈ oddSpellings
    · exact Or.inr (Or.inr hodd)
    rcases h.isSome_classify hodd with hw | hk
    · exact Or.inr (Or.inl ⟨h.ne_nil, hw⟩)
    obtain ⟨k, hk⟩ := Option.isSome_iff_exists.mp hk
    refine Or.inl ⟨k, hk, ?_, ?_⟩
    · rintro rfl
      -- a comma is no character of a lexeme
      have hs : s = [','] := by
        rcases Kind.classify_eq_some hk with hs | ⟨hne, -⟩ | ⟨hne, -⟩
        · exact (Option.some.inj hs).symm
        · cases hne
        · cases hne
      have hknown : Known ',' := h.known ',' (by rw [hs]; exact List.mem_cons_self)
      exact absurd hknown (by unfold Known; decide)
    · rintro ⟨rfl, hlen, h0⟩
      -- a zero in front of a digit begins no lexeme
      obtain ⟨t, rfl⟩ := List.head?_eq_some_iff.mp h0
      obtain _ | ⟨d, t⟩ := t
      · simp at hlen
      have hd : d.isDigit = true := by
        have hall := Kind.isNumber_iff.mpr hk
        simp only [Kind.isNumber, List.all_cons, Bool.and_eq_true] at hall
        exact hall.2.2.1
      have hfails : Fails token ('0' :: d :: t) :=
        fails_token (Or.inr ⟨rfl, d, rfl, isAlphanum_of_isDigit hd⟩)
      exact hfails.not_takesAll ((takesAll_token_iff_lexeme _).mpr h)
  · rintro (⟨k, hk, hcomma, hzero⟩ | ⟨hne, hw⟩ | hodd)
    · rcases Kind.classify_eq_some hk with hs | ⟨rfl, hn⟩ | ⟨-, hn⟩
      · rcases mem_operators_of_spelling k s hs hcomma with hword | hop
        · exact lexeme_of_isName ((Kind.isName_spelling k s hs).1.mpr hword)
        · exact lexeme_of_mem_operators hop
      · exact lexeme_of_isNumber hn fun h => hzero ⟨rfl, h⟩
      · exact lexeme_of_isName hn
    · exact .spaces hne hw fun _ hd => by cases hd
    · exact lexeme_of_mem_operators (mem_operators_of_mem_odd s hodd)

/-- **Lexers and kinds agree** on all texts but these. The lexer of lexemes takes no comma and no
number of two digits or more that begins with a zero, which are of a kind; and it takes white space,
a double ampersand or bar, a circumflex, a tilde and an exclamation mark, which are of none. The
lexer of names takes the names and the keywords, and that of numbers the numbers, but of those that
begin with a zero only zero itself. -/
theorem lexers_agree_with_classify (s : Text) :
    (TakesAll token s ↔
      (∃ k, Kind.classify s = some k ∧ k ≠ .controlComma ∧
        ¬ (k = .genericNumber ∧ 2 ≤ s.length ∧ s.head? = some '0')) ∨
      (s ≠ [] ∧ ∀ c ∈ s, c ∈ whitespace) ∨
      s ∈ ["&&", "||", "^", "~", "!"].map String.toList) ∧
    (TakesAll name s ↔
      ∃ k, Kind.classify s = some k ∧ (k = .genericName ∨ k ∈ Kind.keywords)) ∧
    (TakesAll number s ↔ Kind.classify s = some .genericNumber ∧
      (s = "0".toList ∨ s.head? ≠ some '0')) := by
  have hodd : s ∈ ["&&", "||", "^", "~", "!"].map String.toList ↔ s ∈ oddSpellings :=
    List.Perm.mem_iff (by decide)
  refine ⟨?_, ?_, ?_⟩
  · rw [takesAll_token_iff_lexeme, lexeme_none_iff, hodd]
  · rw [takesAll_name_iff, Kind.isName_iff]
  · rw [takesAll_number_iff, Kind.isNumber_iff]
    rfl

end Lexicon

end LexerCombinators
