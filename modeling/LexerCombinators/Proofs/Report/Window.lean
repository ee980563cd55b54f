import LexerCombinators.Proofs.Report.Highlight

/-!
# The window of a notice

A notice can be made of any span, with columns that cross and with lines that the program does not
have, and with any number of lines around it, even a negative one. Its window is nevertheless a run
of lines of the program with their right numbers, each shown from its own content alone
(`RendersLine`), and the full stops behind the numbers stand under one another
(`notice_renders_window`). The first follows from where the window is cut (`Notice.rows_eq`), the
second from the growth of decimal numbers (`length_decimal_mono`): no number in the gutter is longer
than the last. -/

namespace LexerCombinators

/-- How line `i` of a program is shown by a notice of the span: `front` stands in front of the full
stop, and `body` behind it. A line outside the span stands as it is. In a line of the span the piece
between the columns `a` and `b` is in colour, and the pieces put together are the line, unless the
span is on one line and its columns are negative or cross. -/
inductive RendersLine (span : Span) (color : Color) (i : Nat) (content : Text) : Text → Text → Prop
  | plain (pad : Nat) : ¬ (span.startLine ≤ i ∧ i ≤ span.endLine) →
      RendersLine span color i content
        ("   ".toList ++ List.replicate pad ' ' ++ Text.decimal i) content
  | marked (pad : Nat) (a b : Int) : span.startLine ≤ i → i ≤ span.endLine →
      a = (if i = span.startLine then span.startColumn else 0) →
      b = (if i = span.endLine then span.endColumn else content.length) →
      (span.startLine ≠ span.endLine ∨ 0 ≤ span.startColumn ∧ span.startColumn ≤ span.endColumn →
        slice content 0 a ++ slice content a b ++ slice content b content.length = content) →
      RendersLine span color i content
        ("-> ".toList ++ List.replicate pad ' ' ++ Text.decimal i)
        (slice content 0 a ++ color.code ++ slice content a b ++ Color.off.code ++
          slice content b content.length)

/-- Between its heading and its closing remark, the text of a notice shows the lines of the program
with the numbers from `first` to `last`, each with its number in a gutter as wide as the last. -/
structure Notice.Renders (n : Notice) (first last : Nat) (front body : Nat → Text) : Prop where
  text : n.text = n.title ++ ": ".toList ++ n.before ++ ['\n'] ++
    List.intercalate ['\n'] ((List.range' first (last + 1 - first)).map fun i =>
      front i ++ ". ".toList ++ body i) ++
    if n.after = [] then [] else '\n' :: n.after
  lines : ∀ i, first ≤ i → i ≤ last → 1 ≤ i ∧ i ≤ n.program.lines.length ∧
    ∃ content, n.program.lines[i - 1]? = some content ∧
      RendersLine n.span n.color i content (front i) (body i)
  aligned : ∀ i, first ≤ i → i ≤ last → (front i).length = 3 + (Text.decimal last).length

/-! ### The gutter -/

/-- A greater number has no fewer digits. -/
theorem length_decimal_mono {i j : Nat} (h : i ≤ j) :
    (Text.decimal i).length ≤ (Text.decimal j).length := by
  have hten : 1 < 10 := by omega
  have hlt := (Nat.length_toDigits_le_iff hten Nat.length_toDigits_pos).mp
    (Nat.le_refl (Nat.toDigits 10 j).length)
  exact (Nat.length_toDigits_le_iff hten Nat.length_toDigits_pos).mpr (by omega)

/-- A number that fits into the gutter fills it up. -/
theorem length_padded {width i : Nat} (h : (Text.decimal i).length ≤ width) :
    (List.replicate (width - (Text.decimal i).length) ' ' ++ Text.decimal i).length = width := by
  rw [List.length_append, List.length_replicate]
  omega

/-- The gutter of a window with at least one row is as wide as the last number. -/
theorem Notice.gutterWidth_eq (n : Notice)
    (h : n.firstNumber ≤ cut n.program.lines.length (n.span.endLine + n.linesAfter)) :
    n.gutterWidth =
      (Text.decimal (cut n.program.lines.length (n.span.endLine + n.linesAfter))).length := by
  have hlast : n.firstNumber + n.window.length - 1 =
      cut n.program.lines.length (n.span.endLine + n.linesAfter) := by
    rw [n.length_window]
    omega
  rw [gutterWidth, hlast]

/-! ### The pieces of a line -/

theorem cut_zero (n : Nat) : cut n 0 = 0 := by
  unfold cut
  simp

theorem cut_length (n : Nat) : cut n n = n := by rw [cut_natCast, Nat.min_self]

theorem cut_mono {n : Nat} {a b : Int} (ha : 0 ≤ a) (hab : a ≤ b) : cut n a ≤ cut n b := by
  unfold cut
  rw [if_neg (by omega), if_neg (by omega)]
  omega

/-- Two cuts that do not cross take a list apart. -/
theorem slice_append_slice_append_slice {α : Type} (xs : List α) {a b : Int}
    (h : cut xs.length a ≤ cut xs.length b) :
    slice xs 0 a ++ slice xs a b ++ slice xs b xs.length = xs := by
  have hfront : slice xs 0 a = xs.take (cut xs.length a) := by
    rw [slice, cut_zero, List.drop_zero]
  have hback : slice xs b xs.length = xs.drop (cut xs.length b) := by
    rw [slice, cut_length, List.take_length]
  rw [hfront, hback]
  exact take_append_drop_take_append_drop xs h

/-- On a line of a span of several lines one of the columns is an end of the line, so the columns
cross only if the span is on one line. -/
theorem columns_le {span : Span} {content : Text} {i : Nat}
    (h : span.startLine ≠ span.endLine ∨
      0 ≤ span.startColumn ∧ span.startColumn ≤ span.endColumn) :
    cut content.length (if i = span.startLine then span.startColumn else 0) ≤
      cut content.length (if i = span.endLine then span.endColumn else content.length) := by
  by_cases hstart : i = span.startLine
  · by_cases hend : i = span.endLine
    · obtain ⟨hnonneg, hle⟩ := h.resolve_left (by omega)
      rw [if_pos hstart, if_pos hend]
      exact cut_mono hnonneg hle
    · rw [if_neg hend, cut_length]
      exact cut_le _ _
  · rw [if_neg hstart, cut_zero]
    exact Nat.zero_le _

/-- **Every row shows its line**, whatever the span. -/
theorem rendersLine_ofLine (span : Span) (color : Color) (content : Text) {i width : Nat}
    (h : (Text.decimal i).length ≤ width) : ∃ front body,
      (Row.ofLine span content i).written width color = front ++ ". ".toList ++ body ∧
      RendersLine span color i content front body ∧ front.length = 3 + width := by
  by_cases hin : span.startLine ≤ i ∧ i ≤ span.endLine
  · refine ⟨_, _, ?_, .marked (width - (Text.decimal i).length) _ _ hin.1 hin.2 rfl rfl fun hcols =>
      slice_append_slice_append_slice content (columns_le hcols), ?_⟩
    · rw [Row.ofLine, if_pos hin]
      simp only [Row.written_marked, Row.gutter, List.append_assoc]
    · rw [List.append_assoc, List.length_append, length_padded h]
      rfl
  · refine ⟨_, _, ?_, .plain (width - (Text.decimal i).length) hin, ?_⟩
    · rw [Row.ofLine, if_neg hin]
      simp only [Row.written_plain, Row.gutter, List.append_assoc]
    · rw [List.append_assoc, List.length_append, length_padded h]
      rfl

/-! ### The window -/

/-- **Every window is right.** Whatever the span of a notice, and whatever numbers of lines are asked
for around it, the notice shows lines of the program under their own numbers. The numbers go up one
by one from the line asked for, or from 1, to the line that is asked for as the last, which is held
inside the program and counted from its end if it is negative. In every row the full stop behind the
number stands in the same column, which is that of the longest number. -/
theorem notice_renders_window (n : Notice) :
    ∃ (first last : Nat) (front body : Nat → Text), n.Renders first last front body ∧
      (first : Int) = max 1 (n.span.startLine - n.linesBefore) ∧
      last = cut n.program.lines.length (n.span.endLine + n.linesAfter) := by
  have hpos := n.firstNumber_pos
  have hwindow := n.length_window
  have hlen := cut_le n.program.lines.length (n.span.endLine + n.linesAfter)
  set last := cut n.program.lines.length (n.span.endLine + n.linesAfter)
  have hrow : ∀ i, n.firstNumber ≤ i ∧ i ≤ last → ∃ front body,
      (Row.ofLine n.span (n.program.lines.getD (i - 1) []) i).written n.gutterWidth n.color =
        front ++ ". ".toList ++ body ∧
      RendersLine n.span n.color i (n.program.lines.getD (i - 1) []) front body ∧
      front.length = 3 + (Text.decimal last).length := by
    rintro i ⟨hi, hi'⟩
    rw [n.gutterWidth_eq (hi.trans hi')]
    exact rendersLine_ofLine _ _ _ (length_decimal_mono hi')
  choose! front body hwritten hrenders haligned using hrow
  refine ⟨n.firstNumber, last, front, body, ⟨?text, ?lines, ?aligned⟩, n.cast_firstNumber, rfl⟩
  case text =>
    have hrows : n.rows.map (Row.written n.gutterWidth n.color) =
        (List.range' n.firstNumber (last + 1 - n.firstNumber)).map fun i =>
          front i ++ ". ".toList ++ body i := by
      rw [Notice.rows_eq, List.map_map, hwindow]
      refine List.map_congr_left fun i hi => ?_
      have hbounds := List.mem_range'_1.mp hi
      exact hwritten i ⟨hbounds.1, by omega⟩
    rw [Notice.text, hrows]
    simp only [List.isEmpty_iff, List.append_assoc, List.cons_append, List.nil_append]
  case lines =>
    intro i hi hi'
    have hline : n.program.lines[i - 1]? = some (n.program.lines.getD (i - 1) []) := by
      rw [List.getD_eq_getElem _ _ (by omega), List.getElem?_eq_getElem (by omega)]
    exact ⟨by omega, by omega, _, hline, hrenders i ⟨hi, hi'⟩⟩
  case aligned => exact fun i hi hi' => haligned i ⟨hi, hi'⟩

/-- Between crossed columns nothing is in colour, and what is between them is shown twice. -/
example : Row.ofLine ⟨1, 1, 3, 1⟩ "abcd".toList 1 =
    .marked 1 "abc".toList [] "bcd".toList := by decide

end LexerCombinators
