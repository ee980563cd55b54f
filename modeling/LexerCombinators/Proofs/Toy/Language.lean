import LexerCombinators.Proofs.Toy.Munch

/-!
# The language of the toy lexer

Where lexing stops can be read off the characters and their neighbours. An index is `Bad` if its
character is in no lexeme, or if it is a zero in front of a letter or digit with no letter or digit
in front of it. A zero behind a letter or digit is never bad: it is inside a name or a number, for
munching crosses from one lexeme to the next only at a `Seam`, where no zero follows a letter or
digit. So the body of the program lexer takes everything up to the first bad index, and the program
lexer accepts the programs that have none (`programBody_stops_at_first_bad`).
-/

namespace LexerCombinators.Lexicon

/-- The index `i` of `s` holds a character of no lexeme, or a zero that begins a piece of letters
and digits. -/
def Bad (s : Text) (i : Nat) : Prop :=
  ∃ c ∈ s[i]?, ¬ Known c ∨ c = '0' ∧ (∃ d ∈ s[i + 1]?, d.isAlphanum = true) ∧
    (i = 0 ∨ ∃ b ∈ s[i - 1]?, b.isAlphanum = false)

/-- Between `before` and `s` no zero follows a letter or digit. -/
def Seam (before s : Text) : Prop :=
  ∀ b ∈ before.getLast?, b.isAlphanum = true → s.head? ≠ some '0'

theorem Bad.lt_length {s : Text} {i : Nat} (h : Bad s i) : i < s.length := by
  obtain ⟨c, hc, -⟩ := h
  exact (List.getElem?_eq_some_iff.mp hc).1

/-- What makes the character between `x` and `y` bad. -/
theorem bad_append_iff {x y : Text} {c : Char} : Bad (x ++ c :: y) x.length ↔
    ¬ Known c ∨ c = '0' ∧ (∃ d ∈ y.head?, d.isAlphanum = true) ∧
      ∀ b ∈ x.getLast?, b.isAlphanum = false := by
  have hc : (x ++ c :: y)[x.length]? = some c := by
    rw [List.getElem?_append_right (Nat.le_refl _), Nat.sub_self, List.getElem?_cons_zero]
  have hd : (x ++ c :: y)[x.length + 1]? = y.head? := by
    rw [List.getElem?_append_right (Nat.le_add_right _ 1), Nat.add_sub_cancel_left,
      List.getElem?_cons_succ, List.head?_eq_getElem?]
  have hb : (x.length = 0 ∨ ∃ b ∈ (x ++ c :: y)[x.length - 1]?, b.isAlphanum = false) ↔
      ∀ b ∈ x.getLast?, b.isAlphanum = false := by
    rcases List.eq_nil_or_concat x with rfl | ⟨x, e, rfl⟩
    · simp
    · simp
  unfold Bad
  rw [hc, hd, hb]
  simp

theorem Bad.split {s : Text} {i : Nat} (h : Bad s i) :
    ∃ x c y, s = x ++ c :: y ∧ i = x.length := by
  have hi := h.lt_length
  refine ⟨s.take i, s[i], s.drop (i + 1), ?_, ?_⟩
  · rw [List.getElem_cons_drop, List.take_append_drop]
  · rw [List.length_take, Nat.min_eq_left (Nat.le_of_lt hi)]

/-! ### Lexemes and zeros -/

/-- A lexeme consists of letters and digits, begins with no zero and has none behind it; or it is a
zero with neither behind it; or it has no letter or digit. -/
theorem Lexeme.shape {l : Text} {next : Option Char} (h : Lexeme l next) :
    ((∀ c ∈ l, c.isAlphanum = true) ∧ l.head? ≠ some '0' ∧ next ≠ some '0') ∨
    (l = ['0'] ∧ ∀ d ∈ next, d.isAlphanum = false) ∨ ∀ c ∈ l, c.isAlphanum = false := by
  cases h with
  | @name c l next hc hl hn =>
    refine Or.inl ⟨forall_isAlphanum_name hc hl, ?_, ?_⟩
    · intro h
      cases h
      cases hc
    · rintro rfl
      cases hn '0' rfl
  | @number c l next hc h0 hl hn =>
    refine Or.inl ⟨forall_isAlphanum_number hc hl, ?_, ?_⟩
    · exact fun h => h0 (Option.some.inj h)
    · rintro rfl
      cases hn '0' rfl
  | zero hn => exact Or.inr (Or.inl ⟨rfl, hn⟩)
  | double hl =>
    exact Or.inr (Or.inr fun d hd =>
      not_isAlphanum_of_mem_operatorCharacters d (mem_operatorCharacters_of_mem_pair l hl d hd))
  | single hc =>
    refine Or.inr (Or.inr fun d hd => ?_)
    rw [List.mem_singleton.mp hd]
    exact not_isAlphanum_of_mem_operatorCharacters _ hc
  | spaces _ hl => exact Or.inr (Or.inr fun d hd => not_isAlphanum_of_mem_whitespace d (hl d hd))

/-- No character inside a lexeme is bad, whatever stands in front of the lexeme. -/
theorem Lexeme.not_bad {x y s : Text} {c : Char} (h : Lexeme (x ++ c :: y) s.head?)
    (before : Text) : ¬ Bad (before ++ x ++ c :: (y ++ s)) (before ++ x).length := by
  rw [bad_append_iff]
  rintro (hc | ⟨rfl, ⟨d, hd, hda⟩, hb⟩)
  · exact hc (h.known c (by simp))
  · rcases h.shape with ⟨hl, h0, -⟩ | ⟨hl, hn⟩ | hl
    · -- the zero is not the first character, so a letter or digit of the lexeme precedes it
      rcases List.eq_nil_or_concat x with rfl | ⟨x, e, rfl⟩
      · exact h0 rfl
      · have he := hl e (by simp)
        rw [hb e (by simp)] at he
        cases he
    · obtain ⟨rfl, rfl⟩ : x = [] ∧ y = [] := by
        cases x with
        | nil => exact ⟨rfl, (List.cons.inj hl).2⟩
        | cons a x => simp at hl
      rw [hn d hd] at hda
      cases hda
    · cases hl '0' (by simp)

/-- Every lexeme ends at a seam. -/
theorem Lexeme.seam {l s : Text} (h : Lexeme l s.head?) (before : Text) :
    Seam (before ++ l) s := by
  intro b hb hba h0
  have hbl : b ∈ l := by
    rw [List.getLast?_append, List.getLast?_eq_some_getLast h.ne_nil] at hb
    exact Option.some.inj hb ▸ List.getLast_mem h.ne_nil
  rcases h.shape with ⟨-, -, hn⟩ | ⟨-, hn⟩ | hl
  · exact hn h0
  · cases hn '0' h0
  · rw [hl b hbl] at hba
    cases hba

/-! ### Munching and bad indices -/

/-- Nothing that is munched is bad. -/
theorem Munch.not_bad {s t : Text} {ls : List Text} (h : Munch s ls t) :
    ∀ (before : Text) (i : Nat), i < ls.flatten.length →
      ¬ Bad (before ++ s) (before.length + i) := by
  induction h with
  | done | stuck => exact fun before i hi => by cases hi
  | @lexeme l s t ls hl _ ih =>
    intro before i hi
    rw [List.flatten_cons, List.length_append] at hi
    by_cases hil : i < l.length
    · have hsplit : l = l.take i ++ l[i] :: l.drop (i + 1) := by
        rw [List.getElem_cons_drop, List.take_append_drop]
      have hlen : (before ++ l.take i).length = before.length + i := by
        rw [List.length_append, List.length_take, Nat.min_eq_left (Nat.le_of_lt hil)]
      have h := Lexeme.not_bad (hsplit ▸ hl) before
      rw [hlen] at h
      rwa [hsplit, List.append_assoc, List.cons_append, ← List.append_assoc]
    · have h := ih (before ++ l) (i - l.length) (by omega)
      rwa [List.append_assoc, List.length_append, Nat.add_assoc,
        Nat.add_sub_cancel' (Nat.le_of_not_lt hil)] at h

/-- From a seam on, munching stops at the end or at a bad index. -/
theorem Munch.bad {s t : Text} {ls : List Text} (h : Munch s ls t) :
    ∀ before : Text, Seam before s →
      t = [] ∨ Bad (before ++ s) (before.length + ls.flatten.length) := by
  induction h with
  | done => exact fun _ _ => Or.inl rfl
  | @stuck c s hst =>
    intro before hseam
    refine Or.inr (bad_append_iff.mpr ?_)
    rcases hst with hst | ⟨rfl, hst⟩
    · exact Or.inl hst
    · refine Or.inr ⟨rfl, hst, fun b hb => ?_⟩
      by_contra hba
      exact hseam b hb (by simpa using hba) rfl
  | @lexeme l s t ls hl _ ih =>
    intro before _
    have h := ih (before ++ l) (hl.seam before)
    rwa [List.append_assoc, List.length_append, Nat.add_assoc, ← List.length_append,
      ← List.flatten_cons] at h

/-- Nothing that is munched from the beginning of a program is bad. -/
theorem Munch.not_bad_nil {s t : Text} {ls : List Text} (h : Munch s ls t) :
    ∀ i < ls.flatten.length, ¬ Bad s i := by
  intro i hi
  have h := h.not_bad [] i hi
  rwa [List.nil_append, List.length_nil, Nat.zero_add] at h

/-- From the beginning of a program on, munching stops at the end or at a bad index. -/
theorem Munch.bad_nil {s t : Text} {ls : List Text} (h : Munch s ls t) :
    t = [] ∨ Bad s ls.flatten.length := by
  have h := h.bad [] fun b hb => by cases hb
  rwa [List.nil_append, List.length_nil, Nat.zero_add] at h

/-- Munching reaches the end exactly when no index is bad. -/
theorem Munch.eq_nil_iff {s t : Text} {ls : List Text} (h : Munch s ls t) :
    t = [] ↔ ∀ i, ¬ Bad s i := by
  constructor
  · rintro rfl i hb
    have hi : i < ls.flatten.length := by
      have hlt := hb.lt_length
      rwa [← h.append, List.append_nil] at hlt
    exact h.not_bad_nil i hi hb
  · exact fun hs => h.bad_nil.resolve_right (hs _)

/-- **The language.** The body of the program lexer never fails, and it stops at the least bad
index, at the end if there is none; the program lexer accepts the programs without one, and fails on
the others without consuming anything. -/
theorem programBody_stops_at_first_bad (s : Text) :
    ∃ k ls, (∀ i < k, ¬ Bad s i) ∧ (k = s.length ∨ Bad s k) ∧
      programBody.run s = .ok (.success ls (s.drop k)) ∧
      ∃ r, program.run s = .ok r ∧ (r.isSuccess = true ↔ ∀ i, ¬ Bad s i) ∧
        (r.isSuccess = false → r.lexemes = [] ∧ r.remaining = s) := by
  obtain ⟨ls, t, hm⟩ := exists_munch s
  have hdrop : s.drop ls.flatten.length = t := by
    rw [← hm.append, List.drop_left]
  refine ⟨ls.flatten.length, ls, hm.not_bad_nil, ?_, ?_, _, run_program hm, ?_, ?_⟩
  · refine hm.bad_nil.imp_left fun ht => ?_
    rw [← hm.append, ht, List.append_nil]
  · rw [hdrop]
    exact run_programBody hm
  · rw [← hm.eq_nil_iff]
    split_ifs with ht
    · exact iff_of_true rfl ht
    · exact iff_of_false nofun ht
  · split_ifs with ht
    · exact nofun
    · exact fun _ => ⟨rfl, rfl⟩

end LexerCombinators.Lexicon
