import LexerCombinators.Proofs.Source.Breaks

/-!
# Offsets and their positions

The line table is looked up by bisection, and yet every character of a program has the position that
counting breaks gives it (`locate_eq_positionAt`): an offset lies between two entries of the table,
which are the places where its line begins and ends (`exists_line_index`). So the span of a range
with at least one character is right at both ends, stays on lines that exist, and determines the
range (`range_located`).

The offset behind the last character is looked up only for an empty range. There the table has its
last entry, whether the last line has an ending or not, so the position is always the beginning of
the line behind the last (`locate_length`). This is right if the program ends with a break or is
empty, and otherwise it names a line that does not exist (`cursor_located`).
-/

namespace LexerCombinators

/-! ### The entries of a table -/

theorem getElem?_startsFrom {o : Int} {ls : List Line} {n : Nat} (hn : n ≤ ls.length) :
    (startsFrom o ls)[n]? = some (o + extent (ls.take n)) := by
  induction ls generalizing o n with
  | nil =>
    have hzero : n = 0 := by simpa using hn
    subst hzero
    simp [startsFrom, extent]
  | cons l ls ih =>
    cases n with
    | zero => simp [startsFrom, extent]
    | succ n =>
      rw [startsFrom, List.getElem?_cons_succ, ih (by simpa using hn), List.take_succ_cons,
        extent_cons]
      push_cast
      rw [Int.add_assoc]

/-- The entries of the table are the places where lines begin. -/
theorem entry?_lineStarts {program : Text} {n : Nat} (hn : n ≤ program.split.length) :
    entry? (lineStarts program) n = some (extent (program.split.take n) : Int) := by
  unfold entry?
  rw [if_pos (Int.natCast_nonneg n), Int.toNat_natCast, lineStarts, getElem?_startsFrom hn,
    Int.zero_add]

/-- Every offset of a program is on one of its lines. -/
theorem exists_line_index {program : Text} {o : Nat} (ho : o < program.length) :
    ∃ n < program.split.length,
      extent (program.split.take n) ≤ o ∧ o < extent (program.split.take (n + 1)) := by
  obtain ⟨before, line, after, k, hs, hk, rfl⟩ := exists_line_of_lt ho
  have hget : program.split[before.length]? = some line := by simp [hs]
  have htake : program.split.take before.length = before := by simp [hs]
  refine ⟨before.length, by simp [hs], ?_, ?_⟩
  · rw [htake]
    omega
  · rw [extent_take_succ hget, htake]
    omega

/-! ### Positions -/

theorem locate_of_index {program : Text} {n o : Nat} (hn : n < program.split.length)
    (hle : extent (program.split.take n) ≤ o) (hlt : o < extent (program.split.take (n + 1))) :
    locate (lineStarts program) o = ⟨n + 1, o - extent (program.split.take n)⟩ := by
  have hget : program.split[n]? = some program.split[n] := List.getElem?_eq_getElem hn
  have hs : program.split =
      program.split.take n ++ program.split[n] :: program.split.drop (n + 1) := by
    rw [← List.drop_eq_getElem_cons hn, List.take_append_drop]
  have hlen : (program.split.take n).length = n := by
    rw [List.length_take]
    omega
  rw [extent_take_succ hget] at hlt
  have h := locate_of_split (k := o - extent (program.split.take n)) hs (by omega)
  rw [Nat.add_sub_cancel' hle, hlen] at h
  rw [h]
  congr 1
  omega

/-- **Looking up is counting**: a character of the program is found at its position. -/
theorem locate_eq_positionAt {program : Text} {o : Nat} (ho : o < program.length) :
    locate (lineStarts program) o = program.positionAt o := by
  obtain ⟨n, hn, hle, hlt⟩ := exists_line_index ho
  have hends : ∀ i < n, ∃ l ∈ program.split[i]?, l.ending ≠ [] :=
    fun i hi => Text.exists_ending (by omega)
  rw [locate_of_index hn hle hlt, Text.positionAt_of_split hn.le hends hle fun _ _ _ => hlt]

/-- The offset behind the last character is found behind the last line. -/
theorem locate_length (program : Text) :
    locate (lineStarts program) program.length = ⟨program.split.length + 1, 0⟩ := by
  have hpoint : insertionPoint (lineStarts program) program.length = program.split.length + 1 := by
    have hle : ∀ y ∈ lineStarts program, y ≤ program.length := by
      intro y hy
      have := (mem_startsFrom hy).2
      rw [extent_split] at this
      omega
    have h := insertionPoint_append hle (List.forall_mem_nil _)
    rwa [List.append_nil, lineStarts, length_startsFrom] at h
  have hentry : (lineStarts program).getD program.split.length 0 = program.length := by
    rw [lineStarts, getD_startsFrom, extent_split]
    omega
  rw [locate, hpoint]
  simp only [Nat.succ_ne_zero, if_false, Nat.add_sub_cancel, hentry]
  congr 1
  omega

/-! ### Ranges -/

/-- The span of a range, by the lines `n` and `m` on which it begins and ends. -/
theorem exists_ofOffsets_eq {program : Text} {start stop : Nat} (h : start < stop)
    (hstop : stop ≤ program.length) :
    ∃ n m, n ≤ m ∧ m < program.split.length ∧
      (extent (program.split.take n) ≤ start ∧ start < extent (program.split.take (n + 1))) ∧
      (extent (program.split.take m) < stop ∧ stop ≤ extent (program.split.take (m + 1))) ∧
      Span.ofOffsets program start stop = ⟨n + 1, m + 1,
        (start - extent (program.split.take n) : Nat),
        (stop - extent (program.split.take m) : Nat)⟩ := by
  obtain ⟨n, hn, hle, hlt⟩ := exists_line_index (show start < program.length by omega)
  obtain ⟨m, hm, hle', hlt'⟩ := exists_line_index (show stop - 1 < program.length by omega)
  have hnm : n ≤ m := by
    by_contra hlt''
    have := extent_take_mono program.split (show m + 1 ≤ n by omega)
    omega
  refine ⟨n, m, hnm, hm, ⟨hle, hlt⟩, ⟨by omega, by omega⟩, ?_⟩
  have hcast : (stop : Int) - 1 = (stop - 1 : Nat) := by omega
  rw [Span.ofOffsets, Span.ofTable, if_neg (by omega), hcast, locate_of_index hn hle hlt,
    locate_of_index hm hle' hlt']
  simp only [Span.mk.injEq, true_and]
  omega

/-- The span of a range stays on lines of the program. -/
theorem ofOffsets_lines {program : Text} {start stop : Nat} (h : start < stop)
    (hstop : stop ≤ program.length) :
    1 ≤ (Span.ofOffsets program start stop).startLine ∧
    (Span.ofOffsets program start stop).startLine ≤ (Span.ofOffsets program start stop).endLine ∧
    (Span.ofOffsets program start stop).endLine ≤ program.lines.length := by
  obtain ⟨n, m, hnm, hm, -, -, hspan⟩ := exists_ofOffsets_eq h hstop
  rw [hspan, Text.length_lines]
  dsimp only
  omega

/-- The span covers the characters from offset `a` up to `b` of the program: it begins at the
position of the first of them and ends behind the position of the last. -/
structure Span.Covers (span : Span) (program : Text) (a b : Nat) : Prop where
  first : (⟨span.startLine, span.startColumn⟩ : Position) = program.positionAt a
  last : (⟨span.endLine, span.endColumn - 1⟩ : Position) = program.positionAt (b - 1)

/-- **The span of a range** covers it. -/
theorem covers_ofOffsets {program : Text} {a b : Nat} (h : a < b) (hb : b ≤ program.length) :
    (Span.ofOffsets program a b).Covers program a b := by
  have hfirst := locate_eq_positionAt (show a < program.length by omega)
  have hlast := locate_eq_positionAt (show b - 1 < program.length by omega)
  have hcast : ((b - 1 : Nat) : Int) = b - 1 := by omega
  rw [hcast] at hlast
  refine ⟨?_, ?_⟩
  · rw [Span.ofOffsets, Span.ofTable, if_neg (by omega), ← hfirst]
  · rw [Span.ofOffsets, Span.ofTable, if_neg (by omega), ← hlast]
    simp

section Positions

variable {program : Text} {o o' : Nat}

theorem positionAt_before (h : o < o') (ho' : o' < program.length) :
    (program.positionAt o).Before (program.positionAt o') := by
  have hbefore := locate_before h ho'
  rwa [locate_eq_positionAt (by omega), locate_eq_positionAt ho'] at hbefore

theorem Position.Before.irrefl (p : Position) : ¬ p.Before p := by
  rintro (h | ⟨-, h⟩) <;> omega

/-- Different characters have different positions. -/
theorem positionAt_inj (ho : o < program.length) (ho' : o' < program.length)
    (h : program.positionAt o = program.positionAt o') : o = o' := by
  rcases Nat.lt_trichotomy o o' with hlt | heq | hlt
  · have hbefore := positionAt_before hlt ho'
    rw [h] at hbefore
    exact absurd hbefore (Position.Before.irrefl _)
  · exact heq
  · have hbefore := positionAt_before hlt ho
    rw [h] at hbefore
    exact absurd hbefore (Position.Before.irrefl _)

end Positions

/-- A span covers one range. -/
theorem Span.Covers.unique {program : Text} {span : Span} {a b a' b' : Nat}
    (h : span.Covers program a b) (hab : a < b) (hb : b ≤ program.length)
    (h' : span.Covers program a' b') (hab' : a' < b') (hb' : b' ≤ program.length) :
    a = a' ∧ b = b' := by
  have hfirst := positionAt_inj (by omega) (by omega) (h.first.symm.trans h'.first)
  have hlast := positionAt_inj (by omega) (by omega) (h.last.symm.trans h'.last)
  omega

/-- **Where a range stands.** The span of a range with at least one character begins at the position
of the first character, which is counted off by line breaks, and ends behind that of the last. It
stays on lines of the program, from which the offset can be had back, no other range has this span,
and ranges that begin later have spans that begin later. -/
theorem range_located (program : Text) (start stop : Nat) (h : start < stop)
    (hstop : stop ≤ program.length) :
    let span := Span.ofOffsets program start stop
    span.Covers program start stop ∧
    (1 ≤ span.startLine ∧ span.startLine ≤ span.endLine ∧
      span.endLine ≤ program.lines.length) ∧
    (∃ x, entry? (lineStarts program) (span.startLine - 1) = some x ∧
      x + span.startColumn = start) ∧
    (∀ start' stop' : Nat, start' < stop' → stop' ≤ program.length →
      Span.ofOffsets program start' stop' = span → start' = start ∧ stop' = stop) ∧
    (∀ start' stop' : Nat, start < start' → start' < stop' → stop' ≤ program.length →
      let span' := Span.ofOffsets program start' stop'
      Position.Before ⟨span.startLine, span.startColumn⟩
        ⟨span'.startLine, span'.startColumn⟩) := by
  intro span
  have hcovers : span.Covers program start stop := covers_ofOffsets h hstop
  obtain ⟨n, m, hnm, hm, ⟨hle, -⟩, -, hspan⟩ := exists_ofOffsets_eq h hstop
  have hspan' : span = _ := hspan
  refine ⟨hcovers, ofOffsets_lines h hstop, ⟨(extent (program.split.take n) : Nat), ?_, ?_⟩, ?_, ?_⟩
  · rw [hspan', Int.add_sub_cancel]
    exact entry?_lineStarts (by omega)
  · rw [hspan']
    dsimp only
    omega
  · intro start' stop' h' hstop' heq
    have hcovers' := covers_ofOffsets h' hstop'
    rw [heq] at hcovers'
    exact hcovers'.unique h' hstop' hcovers h hstop
  · intro start' stop' hlt h' hstop' span'
    have hcovers' : span'.Covers program start' stop' := covers_ofOffsets h' hstop'
    rw [hcovers.first, hcovers'.first]
    exact positionAt_before hlt (by omega)

/-- A range from inside a line break of two characters up to the end of the next line. -/
theorem range_located_crlf :
    (Span.ofOffsets "a\r\nb".toList 2 4).Covers "a\r\nb".toList 2 4 ∧
    Text.positionAt "a\r\nb".toList 2 = ⟨1, 2⟩ ∧ Text.positionAt "a\r\nb".toList 3 = ⟨2, 0⟩ :=
  ⟨(range_located _ 2 4 (by decide) (by decide)).1, by decide, by decide⟩

/-! ### Cursors -/

/-- The span of an empty range is where its offset is looked up. -/
theorem ofOffsets_self (program : Text) (o : Int) :
    Span.ofOffsets program o o =
      ⟨(locate (lineStarts program) o).line, (locate (lineStarts program) o).line,
        (locate (lineStarts program) o).column, (locate (lineStarts program) o).column⟩ := by
  rw [Span.ofOffsets, Span.ofTable, if_pos le_rfl]

/-- If a program ends with a break or is empty, its end is at the beginning of the line behind the
last. -/
theorem positionAt_length_of_ends {program : Text}
    (h : program = [] ∨ program.BreakEndsAt program.length) :
    program.positionAt program.length = ⟨program.split.length + 1, 0⟩ := by
  have hall : program.split.take program.split.length = program.split := List.take_length
  have hends : ∀ i < program.split.length, ∃ l ∈ program.split[i]?, l.ending ≠ [] := by
    intro i hi
    by_cases hlast : i + 1 < program.split.length
    · exact Text.exists_ending hlast
    · rcases h with rfl | hbreak
      · simp [Text.split] at hi
      · -- the break at the end of the program ends a line, and that is the last line
        obtain ⟨j, l, hl, hne, hj⟩ := (Text.breakEndsAt_iff program _).mp hbreak
        obtain ⟨hjlt, -⟩ := List.getElem?_eq_some_iff.mp hl
        have hji : j = i := by
          by_contra hne'
          have hlt := Text.extent_take_lt (s := program) (show j + 1 < i + 1 by omega) (by omega)
          have hmono := extent_take_mono program.split (show i + 1 ≤ program.split.length by omega)
          rw [hall, extent_split] at hmono
          omega
        exact ⟨l, hji ▸ hl, hne⟩
  have hextent : extent (program.split.take program.split.length) = program.length := by
    rw [hall, extent_split]
  rw [Text.positionAt_of_split le_rfl hends hextent.le (by simp), hextent, Int.sub_self]

/-- If a program ends without a break, its end is behind the last character of the last line. -/
theorem positionAt_length_of_unbroken {program : Text} (hne : program ≠ [])
    (h : ¬ program.BreakEndsAt program.length) : ∃ content ∈ program.lines.getLast?,
      program.positionAt program.length = ⟨program.lines.length, content.length⟩ := by
  have hsplit : program.split ≠ [] := by
    intro hnil
    have hflat := Text.flatten_split program
    rw [hnil] at hflat
    exact hne hflat.symm
  obtain ⟨front, last, hs⟩ := (List.eq_nil_or_concat program.split).resolve_left hsplit
  rw [List.concat_eq_append] at hs
  have hfront : program.split.take front.length = front := by simp [hs]
  have hget : program.split[front.length]? = some last := by simp [hs]
  have hlen : program.split.length = front.length + 1 := by simp [hs]
  have hwhole : program.length = extent front + last.text.length := by
    rw [← extent_split program, hs, extent_append, extent_cons]
    simp [extent]
  have hend : last.ending = [] := by
    by_contra hend
    refine h ((Text.breakEndsAt_iff program _).mpr ⟨front.length, last, hget, hend, ?_⟩)
    rw [extent_take_succ hget, hfront, hwhole]
  have hends : ∀ i < front.length, ∃ l ∈ program.split[i]?, l.ending ≠ [] :=
    fun i hi => Text.exists_ending (by omega)
  refine ⟨last.content, by simp [Text.lines, hs], ?_⟩
  rw [Text.positionAt_of_split (by omega) hends (by rw [hfront]; omega), hfront]
  · have htext : last.text = last.content := by rw [Line.text, hend, List.append_nil]
    rw [hwhole, htext, Text.length_lines, hlen]
    congr 1
    push_cast
    omega
  · intro l hl hl'
    rw [hget] at hl
    cases hl
    exact absurd hend hl'

/-- **Where a cursor stands.** The span of an empty range is the single position of its offset,
except at the end of a program whose last line has no break: that position is behind the last
character of the last line, but the span is at the beginning of one line more. -/
theorem cursor_located (program : Text) (p : Nat) (hp : p ≤ program.length) :
    let span := Span.ofOffsets program p p
    let position := program.positionAt p
    (span = ⟨position.line, position.line, position.column, position.column⟩ ↔
      (p = program.length → program = [] ∨ program.BreakEndsAt p)) ∧
    (p = program.length → program ≠ [] → ¬ program.BreakEndsAt p →
      span = ⟨program.lines.length + 1, program.lines.length + 1, 0, 0⟩ ∧
      ∃ content ∈ program.lines.getLast?,
        position = ⟨program.lines.length, content.length⟩) := by
  intro span position
  have hspan : span = _ := ofOffsets_self program p
  have hlines : program.lines.length = program.split.length := Text.length_lines program
  rcases Nat.lt_or_eq_of_le hp with hlt | rfl
  · rw [locate_eq_positionAt hlt] at hspan
    exact ⟨iff_of_true hspan fun heq => absurd heq hlt.ne, fun heq => absurd heq hlt.ne⟩
  · rw [locate_length] at hspan
    by_cases hends : program = [] ∨ program.BreakEndsAt program.length
    · have hpos : position = _ := positionAt_length_of_ends hends
      refine ⟨iff_of_true ?_ fun _ => hends, fun _ hne hbreak => ?_⟩
      · rw [hspan, hpos]
      · exact absurd hends (not_or.mpr ⟨hne, hbreak⟩)
    · obtain ⟨hne, hbreak⟩ := not_or.mp hends
      obtain ⟨content, hlast, hpos⟩ := positionAt_length_of_unbroken hne hbreak
      refine ⟨iff_of_false ?_ fun h => hends (h rfl), fun _ _ _ => ⟨?_, content, hlast, hpos⟩⟩
      · have hpos' : position = _ := hpos
        rw [hspan, hpos', hlines]
        simp only [Span.mk.injEq]
        omega
      · rw [hspan, hlines]

/-- Behind the last character the span of a cursor is on a second line, whether the program ends
with a break or not; with a break, it belongs there. -/
theorem cursor_located_abc :
    Span.ofOffsets "abc".toList 3 3 = ⟨2, 2, 0, 0⟩ ∧
    Span.ofOffsets "abc\n".toList 4 4 = ⟨2, 2, 0, 0⟩ ∧
    Text.positionAt "abc\n".toList 4 = ⟨2, 0⟩ := by
  have hpos : Text.positionAt "abc\n".toList 4 = ⟨2, 0⟩ := by decide
  have hspan := (cursor_located "abc\n".toList 4 (by decide)).1.mpr (by decide)
  rw [hpos] at hspan
  exact ⟨((cursor_located "abc".toList 3 (by decide)).2 (by decide) (by decide) (by decide)).1,
    hspan, hpos⟩

/-- **The end of a program is not always on its last line**: the cursor behind `abc` belongs in
column 3 of the only line, and its span is on a second line. -/
theorem cursor_off_last_line :
    Text.positionAt "abc".toList 3 = ⟨1, 3⟩ ∧ (Text.lines "abc".toList).length = 1 ∧
    Span.ofOffsets "abc".toList 3 3 = ⟨2, 2, 0, 0⟩ ∧
    ¬ ∀ (program : Text) (p : Nat), p ≤ program.length → Span.ofOffsets program p p =
      ⟨(program.positionAt p).line, (program.positionAt p).line,
        (program.positionAt p).column, (program.positionAt p).column⟩ := by
  have hpos : Text.positionAt "abc".toList 3 = ⟨1, 3⟩ := by decide
  have hspan : Span.ofOffsets "abc".toList 3 3 = ⟨2, 2, 0, 0⟩ := by
    have hlocate := locate_length "abc".toList
    rw [show ("abc".toList.length : Int) = 3 from rfl] at hlocate
    rw [ofOffsets_self, hlocate]
    decide
  refine ⟨hpos, by decide, hspan, fun h => ?_⟩
  have hclaim := h "abc".toList 3 (by decide)
  rw [hpos] at hclaim
  have hother : Span.ofOffsets "abc".toList 3 3 = ⟨1, 1, 3, 3⟩ := hclaim
  rw [hspan] at hother
  exact absurd hother (by decide)

end LexerCombinators
