import LexerCombinators.Proofs.Scanner.Runs
import LexerCombinators.Proofs.Toy.Clean
import LexerCombinators.Tool

/-!
# Runs of the tool

From an empty list of diagnostics the tool always comes to an output and leaves the list empty. A
clean text is munched to its end, all its words are tokens, and they are printed; any other text
stops the lexer or has an odd lexeme, and the report of that is printed
(`runTool_exits_zero_iff_clean`).
-/

namespace LexerCombinators

open Lexicon

/-- The tokens of a program: its lexemes in order, white space apart, each with its kind. -/
structure TokensOf (s : Text) (ts : List Token) : Prop where
  texts : ∃ ls, program.run s = .ok (.success ls []) ∧
    ts.map Token.text = ls.filter fun l => !isWhitespaceIn whitespace l
  kinds : ∀ t ∈ ts, Kind.classify t.text = some t.kind

/-! ### Tokenizing -/

section Tokenizing

variable {s t : Text} {ls : List Text}

theorem attempt_program (h : Munch s ls t) :
    Runnable.attempt Lexicon.program s = .ok (if t = [] then .lexed ls else .stopped t) := by
  refine (attempt_fullMatch (run_programBody h)).trans ?_
  simp only [Result.success, true_and]

theorem run_tokenize_of_munch (h : Munch s ls t) : (tokenize s).run.run [] =
    ((if t = [] then .lexed ls else .stopped t : Attempt).tokens s whitespace).run.run [] :=
  run_scan_of_attempt (attempt_program h) []

theorem all_whitespace_iff {l : Text} :
    isWhitespaceIn whitespace l = true ↔ ∀ c ∈ l, c ∈ whitespace := by
  simp [isWhitespaceIn]

/-- All words of a program that is munched to its end are tokens if there is no odd place. -/
theorem unknownTokens_words_eq_nil_iff (h : Munch s ls t) (ht : t = []) :
    unknownTokens s (words s whitespace ls) = [] ↔ ¬ IsOdd s := by
  rw [unknownTokens_eq_nil_iff, map_fst_words, ← h.forall_isSome_classify_iff ht]
  refine ⟨fun hk l hl => ?_, fun hk l hl => ?_⟩
  · by_cases hw : isWhitespaceIn whitespace l = true
    · exact Or.inl (all_whitespace_iff.mp hw)
    · exact Or.inr (hk l (List.mem_filter.mpr ⟨hl, by simpa using hw⟩))
  · obtain ⟨hl, hw⟩ := List.mem_filter.mp hl
    refine (hk l hl).resolve_left fun hspace => ?_
    rw [all_whitespace_iff.mpr hspace] at hw
    cases hw

/-- A clean program has tokens, and they are returned. -/
theorem run_tokenize_of_clean (h : Clean s) :
    ∃ ts, (tokenize s).run.run [] = (.ok ts, []) ∧ TokensOf s ts := by
  obtain ⟨hbad, hodd⟩ := clean_iff.mp h
  obtain ⟨ls, t, hm⟩ := exists_munch s
  have ht : t = [] := hm.eq_nil_iff.mpr hbad
  have hunknown := (unknownTokens_words_eq_nil_iff hm ht).mpr hodd
  refine ⟨knownTokens (words s whitespace ls), ?_, ⟨ls, ?_, ?_⟩, fun _ hk => ?_⟩
  · rw [run_tokenize_of_munch hm, if_pos ht, run_tokens_lexed, if_pos hunknown]
  · rw [run_program hm, if_pos ht]
  · rw [map_text_knownTokens, List.filter_eq_self.mpr (unknownTokens_eq_nil_iff.mp hunknown),
      map_fst_words]
  · exact classify_of_mem_knownTokens hk

/-- For any other program there is a report. -/
theorem run_tokenize_of_not_clean (h : ¬ Clean s) :
    ∃ ds, (tokenize s).run.run [] = (.error (.reported .scanner ds), []) := by
  obtain ⟨ls, t, hm⟩ := exists_munch s
  by_cases ht : t = []
  · have hunknown : unknownTokens s (words s whitespace ls) ≠ [] := fun hu =>
      h (clean_iff.mpr ⟨hm.eq_nil_iff.mp ht, (unknownTokens_words_eq_nil_iff hm ht).mp hu⟩)
    rw [run_tokenize_of_munch hm, if_pos ht, run_tokens_lexed, if_neg hunknown]
    exact ⟨_, rfl⟩
  · rw [run_tokenize_of_munch hm, if_neg ht, run_tokens_stopped]
    exact ⟨_, rfl⟩

end Tokenizing

/-! ### The output -/

theorem run_runTool_of_ok {s : Text} {ts : List Token}
    (h : (tokenize s).run.run [] = (.ok ts, [])) :
    (runTool s).run.run [] = (.ok (.ofTokens ts), []) :=
  run_tryCatch_of_ok _ (run_map_of_ok _ h)

theorem run_runTool_of_report {s : Text} {ds : List Diagnostic}
    (h : (tokenize s).run.run [] = (.error (.reported .scanner ds), [])) :
    (runTool s).run.run [] = (.ok (.ofReport ds), []) :=
  run_tryCatch_of_error _ (run_map_of_error _ h)

/-- **The tool.** It always comes to an output and leaves no diagnostics. It ends with 0 exactly on
clean texts, where it prints the tokens of the program, one on each line; on all others it ends with
1 and prints a report instead. -/
theorem runTool_exits_zero_iff_clean (s : Text) :
    ∃ o, (runTool s).run.run [] = (.ok o, []) ∧ (o.code = 0 ↔ Clean s) ∧
      (o.code = 0 → o.stderr = [] ∧
        ∃ ts, TokensOf s ts ∧ o.stdout = ts.flatMap fun t => t.written ++ ['\n']) ∧
      (o.code ≠ 0 → o.code = 1 ∧ o.stdout = [] ∧ o.stderr ≠ []) := by
  by_cases h : Clean s
  · obtain ⟨ts, hrun, hts⟩ := run_tokenize_of_clean h
    refine ⟨.ofTokens ts, run_runTool_of_ok hrun, iff_of_true rfl h, fun _ => ?_, ?_⟩
    · exact ⟨rfl, ts, hts, rfl⟩
    · exact fun hne => absurd rfl hne
  · obtain ⟨ds, hrun⟩ := run_tokenize_of_not_clean h
    refine ⟨.ofReport ds, run_runTool_of_report hrun, iff_of_false Nat.one_ne_zero h, ?_, ?_⟩
    · exact fun h0 => absurd h0 Nat.one_ne_zero
    · exact fun _ => ⟨rfl, rfl, List.append_ne_nil_of_right_ne_nil _ (List.cons_ne_nil _ _)⟩

end LexerCombinators
