import LexerCombinators.Proofs.Source.Offsets
import LexerCombinators.Report.Notice

/-!
# What a notice highlights

A notice cuts the columns of its span out of lines without their breaks, while the span counts them
on lines with their breaks. That the coloured pieces are nevertheless the text of the range
(`notice_highlights_range`) is seen from offsets: if a line begins at offset `o` of the program, the
row of the line is cut at `start - o` and `stop - o`, where a difference below zero is zero
(`ofLine_ofOffsets`). This holds of the first, the last and the inner lines of the span alike, and
a line outside the span has no character between these cuts. Put together over all lines, the
pieces are the range without its breaks (`flatMap_pieceBetween`), and the window of the notice leaves
out lines outside the span only. -/

namespace LexerCombinators

/-- How the line with number `i` and the given content is shown by a notice of a span: a line of the
span has an arrow in front and the piece `inside` in colour, and any other line stands as it is. -/
inductive Shows (span : Span) (color : Color) (i : Nat) (content : Text) : Text → Text → Prop
  | plain (pad : Nat) : ¬ (span.startLine ≤ i ∧ i ≤ span.endLine) →
      Shows span color i content [] ("   ".toList ++ List.replicate pad ' ' ++ Text.decimal i ++
        ". ".toList ++ content)
  | marked (pad : Nat) (left inside right : Text) : span.startLine ≤ i → i ≤ span.endLine →
      left ++ inside ++ right = content →
      Shows span color i content inside ("-> ".toList ++ List.replicate pad ' ' ++ Text.decimal i ++
        ". ".toList ++ left ++ color.code ++ inside ++ Color.off.code ++ right)

/-- Between its heading and its closing remark, the text of a notice shows the lines of the program
with the numbers from `first` to `last`, the piece `inside i` of line `i` in colour. -/
structure Notice.Lists (n : Notice) (first last : Nat) (inside shown : Nat → Text) : Prop where
  text : n.text = n.title ++ ": ".toList ++ n.before ++ ['\n'] ++
    List.intercalate ['\n'] ((List.range' first (last + 1 - first)).map shown) ++
    if n.after = [] then [] else '\n' :: n.after
  lines : ∀ i, first ≤ i → i ≤ last → ∃ content, n.program.lines[i - 1]? = some content ∧
    Shows n.span n.color i content (inside i) (shown i)

/-! ### Rows by offsets -/

/-- A list is what is in front of two cuts, between them and behind them. -/
theorem take_append_drop_take_append_drop {α : Type} (xs : List α) {a b : Nat} (h : a ≤ b) :
    xs.take a ++ (xs.take b).drop a ++ xs.drop b = xs := by
  have htake : xs.take a = (xs.take b).take a := by rw [List.take_take, Nat.min_eq_left h]
  rw [htake, List.take_append_drop, List.take_append_drop]

/-- The piece of a line's content that lies between two offsets, if the line begins at offset
`o`. -/
def pieceBetween (start stop o : Nat) (content : Text) : Text :=
  (content.take (stop - o)).drop (start - o)

/-- **A row of the span of a range** is cut at the offsets of the range. -/
theorem ofLine_ofOffsets {program : Text} {start stop j : Nat} {line : Line} (h : start < stop)
    (hstop : stop ≤ program.length) (hline : program.split[j]? = some line) :
    let span := Span.ofOffsets program start stop
    let o := extent (program.split.take j)
    (span.startLine ≤ (j + 1 : Nat) ∧ (j + 1 : Nat) ≤ span.endLine →
      Row.ofLine span line.content (j + 1) = .marked (j + 1) (line.content.take (start - o))
        (pieceBetween start stop o line.content) (line.content.drop (stop - o))) ∧
    (¬ (span.startLine ≤ (j + 1 : Nat) ∧ (j + 1 : Nat) ≤ span.endLine) →
      pieceBetween start stop o line.content = []) := by
  obtain ⟨n, m, -, -, ⟨hstart, hstart'⟩, ⟨hend, hend'⟩, hspan⟩ := exists_ofOffsets_eq h hstop
  intro span o
  have hspan' : span = _ := hspan
  have hnext : extent (program.split.take (j + 1)) = o + line.text.length :=
    extent_take_succ hline
  have htext : line.content.length ≤ line.text.length := by
    rw [Line.text, List.length_append]
    omega
  have hmono : ∀ i k, i ≤ k → extent (program.split.take i) ≤ extent (program.split.take k) :=
    fun _ _ => extent_take_mono _
  rw [hspan']
  dsimp only
  constructor
  · rintro ⟨hfirst, hlast⟩
    have hleft : (if ((j + 1 : Nat) : Int) = n + 1 then
        ((start - extent (program.split.take n) : Nat) : Int) else 0) = (start - o : Nat) := by
      split_ifs with heq
      · obtain rfl : j = n := by omega
        rfl
      · have := hmono (n + 1) j (by omega)
        omega
    -- on a line in front of the last the second cut is behind the content, break or no break
    have hright : ∃ b : Nat, (if ((j + 1 : Nat) : Int) = m + 1 then
          ((stop - extent (program.split.take m) : Nat) : Int) else line.content.length) = b ∧
        line.content.take b = line.content.take (stop - o) ∧
        line.content.drop b = line.content.drop (stop - o) := by
      split_ifs with heq
      · obtain rfl : j = m := by omega
        exact ⟨_, rfl, rfl, rfl⟩
      · have := hmono (j + 1) m (by omega)
        have hlen : line.content.length ≤ stop - o := by omega
        refine ⟨_, rfl, ?_, ?_⟩
        · rw [List.take_length, List.take_of_length_le hlen]
        · rw [List.drop_length, List.drop_eq_nil_of_le hlen]
    obtain ⟨b, hb, htake, hdrop⟩ := hright
    have hzero : (0 : Int) = (0 : Nat) := rfl
    simp only [Row.ofLine, hfirst, hlast, and_self, if_true, hleft, hb]
    rw [hzero, slice_natCast, slice_natCast, slice_natCast, List.take_length, htake,
      hdrop, List.drop_zero, pieceBetween]
  · intro hout
    rcases not_and_or.mp hout with hbefore | hbehind
    · have := hmono (j + 1) n (by omega)
      refine List.drop_eq_nil_of_le ?_
      have := List.length_take_le' (stop - o) line.content
      omega
    · have := hmono (m + 1) j (by omega)
      have hzero : stop - o = 0 := by omega
      rw [pieceBetween, hzero, List.take_zero, List.drop_nil]

/-! ### The pieces together -/

theorem take_drop_append {α : Type} (xs ys : List α) (a b : Nat) :
    ((xs ++ ys).take b).drop a =
      (xs.take b).drop a ++ (ys.take (b - xs.length)).drop (a - xs.length) := by
  rw [List.take_append, List.drop_append, List.length_take]
  rcases Nat.le_total b xs.length with hb | hb
  · simp [Nat.sub_eq_zero_of_le hb]
  · rw [Nat.min_eq_right hb]

/-- A text without its line breaks. -/
def unbroken (s : Text) : Text := s.filter fun c => !isLineBreak c

theorem unbroken_append (s t : Text) : unbroken (s ++ t) = unbroken s ++ unbroken t :=
  List.filter_append s t

/-- A piece of a line without its break is a piece of its content. -/
theorem unbroken_piece {line : Line} {rest : Text} (hend : line.EndsBefore rest)
    (hclear : ∀ c ∈ line.content, isLineBreak c = false) (a b : Nat) :
    unbroken ((line.text.take b).drop a) = (line.content.take b).drop a := by
  have hmem : ∀ {s : Text} {c : Char} {i k : Nat}, c ∈ (s.take k).drop i → c ∈ s :=
    fun hc => List.mem_of_mem_take (List.mem_of_mem_drop hc)
  have hcontent : unbroken ((line.content.take b).drop a) = (line.content.take b).drop a :=
    List.filter_eq_self.mpr fun c hc => by simp [hclear c (hmem hc)]
  have hending : ∀ i k, unbroken ((line.ending.take k).drop i) = [] := fun i k =>
    List.filter_eq_nil_iff.mpr fun c hc => by simp [hend.isLineBreak c (hmem hc)]
  rw [Line.text, take_drop_append, unbroken_append, hcontent, hending, List.append_nil]

/-- **The pieces of all lines between two offsets** are the text between them without its
breaks. -/
theorem flatMap_pieceBetween {ls : List Line} (hls : Line.Consecutive ls) (a b : Nat) :
    (List.range ls.length).flatMap (fun j =>
      pieceBetween a b (extent (ls.take j)) ((ls.map Line.content).getD j [])) =
    unbroken (((ls.map Line.text).flatten.take b).drop a) := by
  induction hls generalizing a b with
  | nil => simp [unbroken]
  | @cons line ls hclear hend hls ih =>
    have hfirst : pieceBetween a b (extent (List.take 0 (line :: ls))) line.content =
        unbroken ((line.text.take b).drop a) := by
      rw [unbroken_piece hend hclear]
      simp [pieceBetween, extent]
    have hnext : ∀ j content, pieceBetween a b (extent (List.take (j + 1) (line :: ls))) content =
        pieceBetween (a - line.text.length) (b - line.text.length) (extent (ls.take j)) content := by
      intro j content
      rw [pieceBetween, pieceBetween, List.take_succ_cons, extent_cons, Nat.sub_add_eq,
        Nat.sub_add_eq]
    rw [List.length_cons, List.range_succ_eq_map, List.flatMap_cons, List.flatMap_map, List.map_cons,
      List.map_cons, List.flatten_cons, take_drop_append, unbroken_append, ← ih, List.getD_cons_zero,
      hfirst]
    simp only [List.getD_cons_succ, Nat.succ_eq_add_one, hnext]

/-! ### The window -/

namespace Notice

theorem firstNumber_pos (n : Notice) : 1 ≤ n.firstNumber := by
  unfold firstNumber
  omega

theorem cast_firstNumber (n : Notice) :
    (n.firstNumber : Int) = max 1 (n.span.startLine - n.linesBefore) := by
  unfold firstNumber
  omega

theorem window_eq (n : Notice) : n.window =
    (n.program.lines.take (cut n.program.lines.length (n.span.endLine + n.linesAfter))).drop
      (n.firstNumber - 1) := by
  have hpos := n.firstNumber_pos
  have hcast : (n.firstNumber : Int) - 1 = (n.firstNumber - 1 : Nat) := by omega
  rw [window, slice, hcast, cut_natCast, drop_min_of_length_le (List.length_take_le' _ _)]

theorem length_window (n : Notice) : n.window.length =
    cut n.program.lines.length (n.span.endLine + n.linesAfter) + 1 - n.firstNumber := by
  have hpos := n.firstNumber_pos
  have hlen := cut_le n.program.lines.length (n.span.endLine + n.linesAfter)
  rw [window_eq, List.length_drop, List.length_take]
  omega

/-- **The rows of a notice** are those of the lines with consecutive numbers. -/
theorem rows_eq (n : Notice) : n.rows = (List.range' n.firstNumber n.window.length).map fun i =>
    Row.ofLine n.span (n.program.lines.getD (i - 1) []) i := by
  have hpos := n.firstNumber_pos
  unfold rows
  refine List.ext_getElem (by simp) fun k hk hk' => ?_
  have hk : k < n.window.length := by simpa using hk
  have hline : n.program.lines.getD (n.firstNumber + k - 1) [] = n.window[k] := by
    have hindex : n.firstNumber - 1 + k = n.firstNumber + k - 1 := by omega
    have hlen := hk
    simp only [window_eq, List.length_drop, List.length_take] at hlen
    simp only [window_eq, List.getElem_drop, List.getElem_take, hindex]
    rw [List.getD_eq_getElem _ _ (by omega)]
  simp [← hline]

end Notice

/-! ### Highlights -/

/-- A row of the span of a range shows the piece of the range on its line in colour. -/
theorem shows_ofLine {program : Text} {start stop j : Nat} {line : Line} (h : start < stop)
    (hstop : stop ≤ program.length) (hline : program.split[j]? = some line) (width : Nat)
    (color : Color) :
    let span := Span.ofOffsets program start stop
    Shows span color (j + 1) line.content
      (pieceBetween start stop (extent (program.split.take j)) line.content)
      ((Row.ofLine span line.content (j + 1)).written width color) := by
  intro span
  obtain ⟨hmarked, hplain⟩ := ofLine_ofOffsets h hstop hline
  by_cases hin : span.startLine ≤ (j + 1 : Nat) ∧ (j + 1 : Nat) ≤ span.endLine
  · have hcut := take_append_drop_take_append_drop line.content
      (show start - extent (program.split.take j) ≤ stop - extent (program.split.take j) by omega)
    rw [hmarked hin]
    simp only [Row.written_marked, Row.gutter, ← List.append_assoc]
    exact .marked _ _ _ _ hin.1 hin.2 hcut
  · rw [hplain hin, Row.ofLine, if_neg hin]
    simp only [Row.written_plain, Row.gutter, ← List.append_assoc]
    exact .plain _ hin

theorem range'_eq_append {a b c : Nat} (hab : a ≤ b) (hbc : b ≤ c) :
    List.range' a (c - a) = List.range' a (b - a) ++ List.range' b (c - b) := by
  obtain ⟨k, rfl⟩ := Nat.exists_eq_add_of_le hab
  have hlen : c - a = k + (c - (a + k)) := by omega
  rw [hlen, ← List.range'_append_1, Nat.add_sub_cancel_left]

/-- The pieces of the lines outside a window that holds the span of a range are empty, so those in
the window are the text of the range without its breaks. -/
theorem flatMap_window {program : Text} {start stop first last : Nat} (h : start < stop)
    (hstop : stop ≤ program.length) (hpos : 1 ≤ first)
    (hfirst : first ≤ (Span.ofOffsets program start stop).startLine)
    (hlast : (Span.ofOffsets program start stop).endLine ≤ last)
    (hlen : last ≤ program.lines.length) :
    ((List.range' first (last + 1 - first)).flatMap fun i =>
      pieceBetween start stop (extent (program.split.take (i - 1)))
        (program.lines.getD (i - 1) [])) =
    (slice program start stop).filter fun c => !isLineBreak c := by
  set inside : Nat → Text := fun i => pieceBetween start stop (extent (program.split.take (i - 1)))
    (program.lines.getD (i - 1) []) with hinside
  obtain ⟨hline, hlines, hcount⟩ := ofOffsets_lines h hstop
  have hsplit : program.lines.length = program.split.length := Text.length_lines program
  have hout : ∀ a k, (∀ i, a ≤ i → i < a + k →
      1 ≤ i ∧ i ≤ program.lines.length ∧ (i < first ∨ last < i)) →
      (List.range' a k).flatMap inside = [] := by
    intro a k hbounds
    refine List.flatMap_eq_nil_iff.mpr fun i hi => ?_
    obtain ⟨hi, hi', hout⟩ := hbounds i (List.mem_range'_1.mp hi).1 (List.mem_range'_1.mp hi).2
    obtain ⟨j, rfl⟩ : ∃ j, i = j + 1 := ⟨i - 1, by omega⟩
    have hget : program.split[j]? = some program.split[j] := List.getElem?_eq_getElem (by omega)
    have hpiece : inside (j + 1) = pieceBetween start stop (extent (program.split.take j))
        (program.lines.getD j []) := rfl
    rw [hpiece, Text.getD_lines hget]
    exact (ofLine_ofOffsets h hstop hget).2 (by omega)
  have hfront : (List.range' 1 (first - 1)).flatMap inside = [] := hout _ _ (by omega)
  have hback : (List.range' (last + 1) (program.lines.length - last)).flatMap inside = [] :=
    hout _ _ (by omega)
  have hrange : List.range' 1 program.lines.length = List.range' 1 (first - 1) ++
      (List.range' first (last + 1 - first) ++
        List.range' (last + 1) (program.lines.length - last)) := by
    have hrest := range'_eq_append (show first ≤ last + 1 by omega)
      (show last + 1 ≤ program.lines.length + 1 by omega)
    have hwhole := range'_eq_append hpos (show first ≤ program.lines.length + 1 by omega)
    rwa [hrest, Nat.add_sub_cancel, Nat.add_sub_add_right] at hwhole
  have hall := flatMap_pieceBetween (Line.consecutive_split program) start stop
  rw [Text.flatten_split, ← slice_natCast, ← hsplit] at hall
  calc (List.range' first (last + 1 - first)).flatMap inside
      = (List.range' 1 program.lines.length).flatMap inside := by
        rw [hrange, List.flatMap_append, List.flatMap_append, hfront, hback, List.nil_append,
          List.append_nil]
    _ = (List.range program.lines.length).flatMap fun j =>
          pieceBetween start stop (extent (program.split.take j)) (program.lines.getD j []) := by
        rw [List.range'_eq_map_range, List.flatMap_map]
        simp [hinside]
    _ = _ := hall

/-- **What a notice highlights.** For the span of a range with at least one character, a notice
shows the lines around it as far as the program has them, with an arrow at the lines of the span;
and the coloured pieces are the text of the range without its line breaks. -/
theorem notice_highlights_range (n : Notice) (start stop : Nat) (h : start < stop)
    (hstop : stop ≤ n.program.length) (hspan : n.span = Span.ofOffsets n.program start stop)
    (hbefore : 0 ≤ n.linesBefore) (hafter : 0 ≤ n.linesAfter) :
    ∃ (first last : Nat) (inside shown : Nat → Text), n.Lists first last inside shown ∧
      (first : Int) = max 1 (n.span.startLine - n.linesBefore) ∧
      (last : Int) = min (n.program.lines.length : Int) (n.span.endLine + n.linesAfter) ∧
      (List.range' first (last + 1 - first)).flatMap inside =
        (slice n.program start stop).filter fun c => !isLineBreak c := by
  obtain ⟨hline, hlines, hcount⟩ := ofOffsets_lines h hstop
  rw [← hspan] at hline hlines hcount
  have hpos := n.firstNumber_pos
  have hfirst : (n.firstNumber : Int) = max 1 (n.span.startLine - n.linesBefore) := by
    unfold Notice.firstNumber
    omega
  set last := cut n.program.lines.length (n.span.endLine + n.linesAfter) with hcut
  have hlast : (last : Int) =
      min (n.program.lines.length : Int) (n.span.endLine + n.linesAfter) := by
    rw [hcut, cut, if_neg (by omega)]
    omega
  have hwindow : n.window.length = last + 1 - n.firstNumber := by
    rw [Notice.window_eq, List.length_drop, List.length_take, ← hcut]
    omega
  refine ⟨n.firstNumber, last,
    fun i => pieceBetween start stop (extent (n.program.split.take (i - 1)))
      (n.program.lines.getD (i - 1) []),
    fun i => (Row.ofLine n.span (n.program.lines.getD (i - 1) []) i).written n.gutterWidth n.color,
    ⟨?text, ?lines⟩, hfirst, hlast, ?inside⟩
  case text =>
    rw [Notice.text, Notice.rows_eq, List.map_map, hwindow]
    simp only [List.isEmpty_iff, List.append_assoc, Function.comp_def, List.cons_append,
      List.nil_append]
  case lines =>
    intro i hi hi'
    obtain ⟨j, rfl⟩ : ∃ j, i = j + 1 := ⟨i - 1, by omega⟩
    have hj : j < n.program.split.length := by
      rw [← Text.length_lines]
      omega
    have hget : n.program.split[j]? = some n.program.split[j] := List.getElem?_eq_getElem hj
    refine ⟨n.program.split[j].content, Text.getElem?_lines hget, ?_⟩
    have hshows := shows_ofLine h hstop hget n.gutterWidth n.color
    rw [Nat.add_sub_cancel, Text.getD_lines hget, hspan]
    exact hshows
  case inside =>
    exact flatMap_window h hstop hpos (by rw [← hspan]; omega) (by rw [← hspan]; omega) (by omega)

/-- A range from inside a line break of two characters into the second of three lines. -/
theorem notice_highlights_range_crlf :
    let n : Notice :=
      { program := "ab\r\ncd\nef".toList
        span := Span.ofOffsets "ab\r\ncd\nef".toList 3 5
        linesAfter := 7
        color := .green }
    ∃ (first last : Nat) (inside shown : Nat → Text), n.Lists first last inside shown ∧
      (first : Int) = max 1 (n.span.startLine - 1) ∧ (last : Int) = min 3 (n.span.endLine + 7) ∧
      (List.range' first (last + 1 - first)).flatMap inside = ['c'] :=
  notice_highlights_range _ 3 5 (by decide) (by decide) rfl (by decide) (by decide)

end LexerCombinators
