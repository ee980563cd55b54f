import LexerCombinators.Proofs.Toy.Munch

/-!
# The tokenization of a program

A tokenization cuts a program into texts each of which is a lexeme in front of the character behind
it. Nothing in that rule says where to begin or which way to go, yet a program has at most one
tokenization, and the program lexer finds it (`tokenization_iff`, `lexemes_unique`).
-/

namespace LexerCombinators.Lexicon

/-- A cut of `s` into lexemes: each is one in front of the character of `s` that follows it. -/
structure Tokenization (s : Text) (ls : List Text) : Prop where
  flatten : ls.flatten = s
  lexeme : ∀ before l after, ls = before ++ l :: after →
    Lexeme l s[(before.flatten ++ l).length]?

theorem getElem?_append_length (l s x : Text) :
    (l ++ s)[(l ++ x).length]? = s[x.length]? := by
  rw [List.length_append, List.getElem?_append_right (Nat.le_add_right _ _),
    Nat.add_sub_cancel_left]

theorem getElem?_length_append (l s : Text) : (l ++ s)[l.length]? = s.head? := by
  rw [List.getElem?_append_right (Nat.le_refl _), Nat.sub_self, List.head?_eq_getElem?]

theorem Tokenization.munch : ∀ {s : Text} {ls : List Text}, Tokenization s ls → Munch s ls []
  | s, [], h => by
    rw [← h.flatten]
    exact .done
  | s, l :: ls, ⟨hs, hl⟩ => by
    subst hs
    have hfirst := hl [] l ls rfl
    have hrest : Tokenization ls.flatten ls := by
      refine ⟨rfl, fun before k after hk => ?_⟩
      have h := hl (l :: before) k after (by rw [hk]; rfl)
      rwa [List.flatten_cons, List.flatten_cons, List.append_assoc, getElem?_append_length] at h
    rw [List.flatten_nil, List.nil_append, List.flatten_cons, getElem?_length_append] at hfirst
    exact .lexeme hfirst hrest.munch

theorem Munch.tokenization {s t : Text} {ls : List Text} (h : Munch s ls t) (ht : t = []) :
    Tokenization s ls := by
  induction h with
  | done => exact ⟨rfl, fun before l after h => by simp at h⟩
  | stuck => cases ht
  | @lexeme l s t ls hl _ ih =>
    have hrest := ih ht
    refine ⟨by rw [List.flatten_cons, hrest.flatten], fun before k after hk => ?_⟩
    cases before with
    | nil =>
      obtain ⟨rfl, rfl⟩ := List.cons.inj hk
      rwa [List.flatten_nil, List.nil_append, getElem?_length_append]
    | cons b before =>
      obtain ⟨rfl, rfl⟩ := List.cons.inj hk
      rw [List.flatten_cons, List.append_assoc, getElem?_append_length]
      exact hrest.lexeme before k after rfl

/-- **The tokenizations are what the program lexer returns.** -/
theorem tokenization_iff {s : Text} {ls : List Text} :
    Tokenization s ls ↔ program.run s = .ok (.success ls []) :=
  ⟨fun h => run_program_eq_success_iff.mpr h.munch,
    fun h => (run_program_eq_success_iff.mp h).tokenization rfl⟩

/-- **Maximal munch.** The lexemes of an accepted program are a tokenization of it, and it has no
other. -/
theorem lexemes_unique (s : Text) (r : Result) (h : program.run s = .ok r)
    (hr : r.isSuccess = true) :
    Tokenization s r.lexemes ∧ ∀ ls, Tokenization s ls → ls = r.lexemes := by
  obtain ⟨ls, t, hm⟩ := exists_munch s
  rw [run_program hm] at h
  split_ifs at h with ht
  · cases h
    refine ⟨hm.tokenization ht, fun ls' h' => ?_⟩
    exact (h'.munch.unique hm).1
  · cases h
    cases hr

/-- The law for `"x0<=10;"`, where a zero stands in a name and in a number, and an operator of one
character is the first half of one of two. -/
theorem lexemes_unique_le :
    program.run "x0<=10;".toList =
      .ok (.success ["x0".toList, "<=".toList, "10".toList, ";".toList] []) ∧
    Tokenization "x0<=10;".toList ["x0".toList, "<=".toList, "10".toList, ";".toList] := by
  have hname : Lexeme ['x', '0'] (some '<') := .name rfl (by simp) (by simp)
  have hle : Lexeme ['<', '='] (some '1') := .double (by decide)
  have hnumber : Lexeme ['1', '0'] (some ';') := .number rfl (by decide) (by simp) (by simp)
  have hend : Lexeme [';'] none := .single (by decide) (by simp)
  have h := run_program_eq_success_iff.mpr (Munch.lexeme (s := "<=10;".toList) hname
    (Munch.lexeme (s := "10;".toList) hle (Munch.lexeme (s := ";".toList) hnumber
      (Munch.lexeme (s := []) hend .done))))
  exact ⟨h, (lexemes_unique _ _ h rfl).1⟩

end LexerCombinators.Lexicon
