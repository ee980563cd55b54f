import LexerCombinators.Proofs.Pattern.Repetition
import LexerCombinators.Proofs.Scanner.Runs
import LexerCombinators.Proofs.Source.Positions

/-!
# Where lexing fails

When an anchored lexer fails, the report is about the place that its body reached. The text shown of
what remains there is the rest of the line, or the single character of a break if the body stopped
in front of one or inside one (`unlexed_unlexedText`). That text is found in what remains and the
line in the whole program, and the two agree: the text is a piece of one line with its break, and
the span of the report cuts it out of that line at the offset that was reached (`stuck_cutsOut`). So
every failure has its place (`lex_failure_located`).
-/

namespace LexerCombinators

/-- What is shown of the text `rest` where lexing stopped: its longest front without line breaks, or
the character of a break that it begins with. -/
inductive Unlexed : Text → Text → Prop
  | line {rest u : Text} : (∀ c ∈ rest.head?, isLineBreak c = false) → u <+: rest →
      (∀ c ∈ u, isLineBreak c = false) →
      (∀ v, v <+: rest → (∀ c ∈ v, isLineBreak c = false) → v.length ≤ u.length) →
      Unlexed rest u
  | lineBreak {c : Char} {rest : Text} : isLineBreak c = true → Unlexed (c :: rest) [c]

/-- The span cuts the text `u` at offset `k` of the program out of one line, which is taken with its
break. -/
structure Span.CutsOut (span : Span) (program : Text) (k : Nat) (u : Text) : Prop where
  oneLine : 1 ≤ span.startLine ∧ span.startLine = span.endLine
  column : 0 ≤ span.startColumn
  shown : ∃ line, entry? (program.split.map Line.text) (span.startLine - 1) = some line ∧
    slice line span.startColumn span.endColumn = u
  offset : (extent (program.split.take (span.startLine - 1).toNat) : Int) + span.startColumn = k

/-! ### What is shown -/

theorem length_le_takeWhile {f : Char → Bool} {v s : Text} (hv : v <+: s)
    (hf : ∀ c ∈ v, f c = true) : v.length ≤ (s.takeWhile f).length := by
  obtain ⟨t, rfl⟩ := hv
  rw [List.takeWhile_append_of_pos hf, List.length_append]
  omega

theorem unlexedText_of_not_break {rest : Text} (h : ∀ c ∈ rest.head?, isLineBreak c = false) :
    unlexedText rest = rest.takeWhile fun c => !isLineBreak c := by
  unfold unlexedText
  rw [Text.headD_lines]
  cases rest with
  | nil => rfl
  | cons c rest => simp [h c rfl]

theorem unlexedText_of_break {c : Char} (h : isLineBreak c = true) (rest : Text) :
    unlexedText (c :: rest) = [c] := by
  unfold unlexedText
  rw [Text.headD_lines]
  simp [h]

theorem unlexed_unlexedText (rest : Text) : Unlexed rest (unlexedText rest) := by
  by_cases h : ∀ c ∈ rest.head?, isLineBreak c = false
  · rw [unlexedText_of_not_break h]
    refine .line h (List.takeWhile_prefix _) (fun c hc => ?_) fun v hv hb => ?_
    · simpa using List.all_eq_true.mp List.all_takeWhile c hc
    · exact length_le_takeWhile hv fun c hc => by simpa using hb c hc
  · push Not at h
    obtain ⟨c, hc, hbreak⟩ := h
    obtain ⟨t, rfl⟩ := List.head?_eq_some_iff.mp hc
    rw [unlexedText_of_break (by simpa using hbreak)]
    exact .lineBreak (by simpa using hbreak)

/-! ### Where it stands -/

/-- Something is shown of what is not empty. -/
theorem Unlexed.ne_nil {rest u : Text} (hu : Unlexed rest u) (hrest : rest ≠ []) : u ≠ [] := by
  cases hu with
  | line hhead _ _ hlong =>
    rintro rfl
    obtain ⟨c, y, rfl⟩ := List.exists_cons_of_ne_nil hrest
    have hc := hhead c rfl
    have hle := hlong [c] ⟨y, rfl⟩ (by simpa using hc)
    simp at hle
  | lineBreak _ => exact List.cons_ne_nil _ _

/-- What is shown is a piece of one line of the program, its break included. -/
theorem exists_line_of_unlexed {rest u : Text} (hu : Unlexed rest u) (hrest : rest ≠ [])
    (x : Text) : ∃ before line after a b, (x ++ rest).split = before ++ line :: after ∧
      line.text = a ++ u ++ b ∧ x = (before.map Line.text).flatten ++ a := by
  have hne := hu.ne_nil hrest
  cases hu with
  | line _ hpre hb _ =>
    obtain ⟨y, rfl⟩ := hpre
    obtain ⟨before, line, after, a, v, hs, hc, hx⟩ := Text.exists_line_of_piece hne hb x y
    rw [List.append_assoc] at hs
    exact ⟨before, line, after, a, v ++ line.ending, hs, by simp [Line.text, hc], hx⟩
  | @lineBreak c rest _ =>
    obtain ⟨before, line, after, a, b, hs, ht, hx⟩ := exists_line_of_char x c rest
    exact ⟨before, line, after, a, b, hs, by simp [ht], hx⟩

/-- **The span of a report** of what remains of a program cuts what is shown of it out of its
line. -/
theorem stuck_cutsOut (x : Text) {rest : Text} (hrest : rest ≠ []) :
    (Diagnostic.stuck (x ++ rest) rest).span.CutsOut (x ++ rest) x.length (unlexedText rest) := by
  have hunlexed := unlexed_unlexedText rest
  obtain ⟨before, line, after, a, b, hs, ht, hx⟩ := exists_line_of_unlexed hunlexed hrest x
  have hpos : 0 < (unlexedText rest).length := List.length_pos_iff.mpr (hunlexed.ne_nil hrest)
  have hlen : a.length + (unlexedText rest).length ≤ line.text.length := by
    rw [ht]
    simp only [List.length_append]
    omega
  have hxlen : x.length = extent before + a.length := by
    conv_lhs => rw [hx]
    rw [List.length_append, extent]
  have hstart : (((x ++ rest).length : Int) - rest.length) =
      ((extent before + a.length : Nat) : Int) := by
    rw [List.length_append, ← hxlen]
    omega
  have hspan : (Diagnostic.stuck (x ++ rest) rest).span =
      ⟨before.length + 1, before.length + 1, a.length, a.length + (unlexedText rest).length⟩ := by
    dsimp only [Diagnostic.stuck, Span.ofOffsets]
    rw [hstart, ofTable_of_split hs hpos hlen]
  rw [hspan]
  refine ⟨⟨by dsimp only; omega, rfl⟩, Int.natCast_nonneg _, ⟨line.text, ?_, ?_⟩, ?_⟩
  · simp [hs, entry?]
  · rw [ht, slice_append]
  · simp [hs, hxlen]

/-- In an empty program there is one place. -/
theorem span_stuck_nil : (Diagnostic.stuck [] []).span = ⟨1, 1, 0, 0⟩ := by
  have hpoint : insertionPoint ([0] ++ []) 0 = 1 := insertionPoint_append (by simp) (by simp)
  have hlocate : locate (lineStarts []) 0 = ⟨1, 0⟩ := by
    rw [locate, lineStarts, Text.split, startsFrom, ← List.append_nil [0], hpoint]
    rfl
  dsimp only [Diagnostic.stuck, Span.ofOffsets, Span.ofTable]
  simp [hlocate, unlexedText, Text.lines, Text.split]

/-! ### Failures of a scanner -/

/-- What an anchored lexer makes of a program when nothing is pending. -/
theorem run_lex_fullMatch {p : Lexer} {s : Text} {r : Result} (h : p.run s = .ok r)
    (whitespace : Text) :
    ({ program := s, lexer := .fullMatch p, whitespace } : Scanner Lexer).lex.run.run [] =
      if r.isSuccess = true ∧ r.remaining = [] then (.ok r.lexemes, [])
      else (.error (.reported .scanner [.stuck s r.remaining]), []) := by
  rw [run_lex_of_attempt (attempt_fullMatch h)]
  split_ifs with hr
  · rw [run_lexemes_lexed, if_pos rfl]
  · rw [run_lexemes_stopped, List.nil_append, sorted, List.mergeSort_singleton]

theorem run_lex_fullMatch_eq_ok_iff {p : Lexer} {s : Text} {r : Result} (h : p.run s = .ok r)
    (whitespace : Text) {ls : List Text} {ds : Pending} :
    ({ program := s, lexer := .fullMatch p, whitespace } : Scanner Lexer).lex.run.run [] =
      (.ok ls, ds) ↔ (r.isSuccess = true ∧ r.remaining = []) ∧ r.lexemes = ls ∧ ds = [] := by
  rw [run_lex_fullMatch h]
  split_ifs with hr
  · refine ⟨fun hout => ?_, ?_⟩
    · cases hout
      exact ⟨hr, rfl, rfl⟩
    · rintro ⟨-, rfl, rfl⟩
      rfl
  · exact iff_of_false nofun fun hout => hr hout.1

/-- The lexemes of a lexer that matches all of a program are the program. -/
theorem flatten_lexemes {p : Lexer} {s : Text} {r : Result} (h : p.run s = .ok r)
    (hr : r.isSuccess = true ∧ r.remaining = []) : r.lexemes.flatten = s := by
  have hflat := (Lexer.lossless_run p s r h).append hr.1
  rwa [hr.2, List.append_nil] at hflat

/-- A lexer that does not match all of a program which is not empty leaves some of it. -/
theorem remaining_ne_nil {p : Lexer} {s : Text} {r : Result} (h : p.run s = .ok r)
    (hr : ¬ (r.isSuccess = true ∧ r.remaining = [])) (hs : s ≠ []) : r.remaining ≠ [] := by
  intro hnil
  have hfail : r.isSuccess = false := by
    by_contra hsuccess
    exact hr ⟨Bool.of_not_eq_false hsuccess, hnil⟩
  rw [(Lexer.lossless_run p s r h).eq_fail hfail] at hnil
  exact hs hnil

/-- **Where lexing fails.** If the body of an anchored lexer does not stall, lexing with nothing
pending returns exactly when the body matches all of the program, and the lexemes are then the
program. Otherwise it ends with one diagnostic for the offset `k` that the body reached: the text
that could not be lexed is what is shown of the program from there on, and the span cuts it out of
its line. An option to repeat has reached `k` by matches one behind another, and its body fails
there. -/
theorem lex_failure_located (p : Lexer) (s whitespace : Text) (r : Result) (h : p.run s = .ok r) :
    let scanner : Scanner Lexer := { program := s, lexer := .fullMatch p, whitespace }
    let k := s.length - r.remaining.length
    ((∃ ls ds, scanner.lex.run.run [] = (.ok ls, ds)) ↔
      r.isSuccess = true ∧ r.remaining = []) ∧
    (∀ ls ds, scanner.lex.run.run [] = (.ok ls, ds) → ls.flatten = s ∧ ds = []) ∧
    (¬ (r.isSuccess = true ∧ r.remaining = []) → ∃ u span,
      scanner.lex.run.run [] = (.error (.reported .scanner [⟨s, span, .unlexed u⟩]), []) ∧
      Unlexed (s.drop k) u ∧ (s ≠ [] → u ≠ [] ∧ span.CutsOut s k u) ∧
      (s = [] → span = ⟨1, 1, 0, 0⟩)) ∧
    (∀ q : Lexer, p = .zeroOrMore q → ∃ ls, Chain q.run s ls (s.drop k) ∧ ls.flatten = s.take k ∧
      Lexer.Fails q (s.drop k)) := by
  intro scanner k
  obtain ⟨x, hx⟩ := (Lexer.lossless_run p s r h).suffix
  have hk : k = x.length := by
    have hlen := congrArg List.length hx
    rw [List.length_append] at hlen
    omega
  have hdrop : s.drop k = r.remaining := by rw [hk, ← hx, List.drop_left]
  have htake : s.take k = x := by rw [hk, ← hx, List.take_left]
  rw [hdrop, htake]
  refine ⟨?returns, ?loses, ?fails, ?repeats⟩
  case returns =>
    refine ⟨fun ⟨ls, ds, hout⟩ => ?_, fun hr => ⟨r.lexemes, [], ?_⟩⟩
    · exact ((run_lex_fullMatch_eq_ok_iff h whitespace).mp hout).1
    · exact (run_lex_fullMatch_eq_ok_iff h whitespace).mpr ⟨hr, rfl, rfl⟩
  case loses =>
    intro ls ds hout
    obtain ⟨hr, rfl, rfl⟩ := (run_lex_fullMatch_eq_ok_iff h whitespace).mp hout
    exact ⟨flatten_lexemes h hr, rfl⟩
  case fails =>
    intro hr
    refine ⟨unlexedText r.remaining, (Diagnostic.stuck s r.remaining).span,
      (run_lex_fullMatch h whitespace).trans (if_neg hr), unlexed_unlexedText _, fun hs => ?_,
      fun hs => ?_⟩
    · have hrest := remaining_ne_nil h hr hs
      rw [hk, ← hx]
      exact ⟨(unlexed_unlexedText _).ne_nil hrest, stuck_cutsOut x hrest⟩
    · subst hs
      rw [(List.append_eq_nil_iff.mp hx).2]
      exact span_stuck_nil
  case repeats =>
    rintro q rfl
    obtain ⟨ls, hchain, hflat, hfails⟩ := Lexer.exists_chain_of_run_zeroOrMore h
    exact ⟨ls, hchain, List.append_cancel_right (hflat.trans hx.symm), hfails⟩

/-- A lexer that stops inside a line break of two characters: the line feed is reported as the end
of the first line. -/
theorem lex_failure_located_crlf : ∃ u span,
    ({ program := "a\r\nb".toList, lexer := .fullMatch (.literal "a\r".toList) } :
      Scanner Lexer).lex.run.run [] =
        (.error (.reported .scanner [⟨"a\r\nb".toList, span, .unlexed u⟩]), []) ∧
    Unlexed "\nb".toList u ∧ span.CutsOut "a\r\nb".toList 2 u := by
  have h : Lexer.run (.literal "a\r".toList) "a\r\nb".toList =
    .ok (.success ["a\r".toList] "\nb".toList) := rfl
  obtain ⟨-, -, hfails, -⟩ := lex_failure_located _ _ Lexicon.whitespace _ h
  obtain ⟨u, span, hlex, hu, hspan, -⟩ := hfails (by decide)
  exact ⟨u, span, hlex, hu, (hspan (by decide)).2⟩

end LexerCombinators
