import LexerCombinators.Proofs.Toy.Lexeme
import LexerCombinators.Toy.Kind

/-!
# The kinds of texts

A text comes to its kind by its spelling, or by the shape of a number or of a name
(`classify_eq_some`). Spellings and shapes overlap in the keywords alone (`isName_spelling`), so the
texts of the shape of a name are those of names and keywords (`isName_iff`), and the texts of digits
are the numbers (`isNumber_iff`).
-/

namespace LexerCombinators.Kind

/-- The kinds of keywords. -/
def keywords : List Kind :=
  [keywordFunction, keywordCall, keywordWhile, keywordIf, keywordLet, keywordSkip]

variable {s : Text} {k : Kind}

theorem spelling?_of_ofSpelling? (h : ofSpelling? s = some k) : k.spelling? = some s := by
  simpa using List.find?_some h

/-- Keywords are spelled like names, nothing else is, and nothing is spelled like a number. -/
theorem isName_spelling : ∀ k : Kind, ∀ s ∈ k.spelling?,
    (isName s = true ↔ k ∈ keywords) ∧ isNumber s = false := by
  intro k
  cases k <;> decide

theorem isNumber_eq_false (h : isName s = true) : isNumber s = false := by
  obtain _ | ⟨c, s⟩ := s
  · rfl
  · have hc : c.isDigit = false := by
      by_contra hd
      rw [isName, Lexicon.isAlpha_of_isDigit (by simpa using hd)] at h
      cases h
    rw [isNumber, List.all_cons, hc, Bool.false_and, Bool.and_false]

/-- How a text comes to its kind. -/
theorem classify_eq_some (h : classify s = some k) : k.spelling? = some s ∨
    k = genericNumber ∧ isNumber s = true ∨ k = genericName ∧ isName s = true := by
  unfold classify at h
  cases hs : ofSpelling? s with
  | some k' =>
    rw [hs] at h
    cases h
    exact Or.inl (spelling?_of_ofSpelling? hs)
  | none =>
    rw [hs] at h
    dsimp only at h
    split_ifs at h with hnumber hname
    · exact Or.inr (Or.inl ⟨(Option.some.inj h).symm, hnumber⟩)
    · exact Or.inr (Or.inr ⟨(Option.some.inj h).symm, hname⟩)

/-- Names and numbers are of some kind, if only because of keywords. -/
theorem isSome_classify (h : isName s = true ∨ isNumber s = true) :
    (classify s).isSome = true := by
  unfold classify
  cases ofSpelling? s with
  | some k => rfl
  | none =>
    by_cases hn : isNumber s = true
    · rw [if_pos hn]
      rfl
    · rw [if_neg hn, if_pos (h.resolve_right hn)]
      rfl

/-- The texts of names and keywords are those of the shape of a name. -/
theorem isName_iff : isName s = true ↔
    ∃ k, classify s = some k ∧ (k = genericName ∨ k ∈ keywords) := by
  constructor
  · intro h
    obtain ⟨k, hk⟩ := Option.isSome_iff_exists.mp (isSome_classify (Or.inl h))
    refine ⟨k, hk, ?_⟩
    rcases classify_eq_some hk with hs | ⟨-, hn⟩ | ⟨rfl, -⟩
    · exact Or.inr ((isName_spelling k s hs).1.mp h)
    · rw [isNumber_eq_false h] at hn
      cases hn
    · exact Or.inl rfl
  · rintro ⟨k, hk, hword⟩
    rcases classify_eq_some hk with hs | ⟨rfl, -⟩ | ⟨-, hn⟩
    · rcases hword with rfl | hword
      · cases hs
      · exact (isName_spelling k s hs).1.mpr hword
    · exact absurd hword (by decide)
    · exact hn

theorem isNumber_iff : isNumber s = true ↔ classify s = some genericNumber := by
  constructor
  · intro h
    obtain ⟨k, hk⟩ := Option.isSome_iff_exists.mp (isSome_classify (Or.inr h))
    rcases classify_eq_some hk with hs | ⟨rfl, -⟩ | ⟨-, hn⟩
    · rw [(isName_spelling k s hs).2] at h
      cases h
    · exact hk
    · rw [isNumber_eq_false hn] at h
      cases h
  · intro hk
    rcases classify_eq_some hk with hs | ⟨-, hn⟩ | ⟨h, -⟩
    · cases hs
    · exact hn
    · cases h

end LexerCombinators.Kind
