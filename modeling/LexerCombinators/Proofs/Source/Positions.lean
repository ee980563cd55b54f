import Mathlib.Data.List.GetD
import Mathlib.Tactic.Common
import LexerCombinators.Proofs.Source.Lines
import LexerCombinators.Source.Span

/-!
# Positions in a program

Bisection finds the one place that has only entries up to the offset in front of it and only greater
ones behind it (`insertionPoint_append`); the table need not be sorted otherwise. In the table of a
program this place is behind the line of the offset, so an offset `k` characters into a line is
found on that line, in column `k` (`locate_of_split`). Offsets that grow have positions that grow
(`locate_before`), and the span of a piece of one line has the columns of the piece
(`ofTable_of_split`): it cuts a piece without line breaks out of its line (`ofTable_of_piece`).
-/

namespace LexerCombinators

/-! ### Bisection -/

theorem bisect_eq {table : List Int} {x : Int} {p : Nat} (hle : ∀ i < p, table.getD i 0 ≤ x)
    (hgt : ∀ i, p ≤ i → i < table.length → x < table.getD i 0) (lo hi : Nat) :
    lo ≤ p → p ≤ hi → hi ≤ table.length → bisect table x lo hi = p := by
  fun_induction bisect table x lo hi with
  | case1 lo hi hlt mid hx ih =>
    intro hlo hhi hlen
    have hmid : p ≤ mid := by
      by_contra hn
      have := hle mid (by omega)
      omega
    exact ih hlo hmid (by omega)
  | case2 lo hi hlt mid hx ih =>
    intro hlo hhi hlen
    have hmid : mid < p := by
      by_contra hn
      have := hgt mid (by omega) (by omega)
      omega
    exact ih (by omega) hhi hlen
  | case3 lo hi hge =>
    intro hlo hhi _
    omega

/-- **Bisection** finds the place between the entries up to `x` and the greater ones. -/
theorem insertionPoint_append {front back : List Int} {x : Int} (hfront : ∀ y ∈ front, y ≤ x)
    (hback : ∀ y ∈ back, x < y) : insertionPoint (front ++ back) x = front.length := by
  have hlen : front.length ≤ (front ++ back).length := by simp
  refine bisect_eq (fun i hi => ?_) (fun i hi hlen => ?_) _ _ (Nat.zero_le _) hlen (Nat.le_refl _)
  · have hget : (front ++ back).getD i 0 = front[i] := by
      rw [List.getD_append _ _ _ _ hi, List.getD_eq_getElem _ _ hi]
    rw [hget]
    exact hfront _ (List.getElem_mem hi)
  · have hi' : i - front.length < back.length := by
      rw [List.length_append] at hlen
      omega
    have hget : (front ++ back).getD i 0 = back[i - front.length] := by
      rw [List.getD_append_right _ _ _ _ hi, List.getD_eq_getElem _ _ hi']
    rw [hget]
    exact hback _ (List.getElem_mem hi')

/-! ### The table of a program -/

/-- How many characters some lines have, with their breaks. -/
def extent (ls : List Line) : Nat := (ls.map Line.text).flatten.length

theorem extent_cons (l : Line) (ls : List Line) : extent (l :: ls) = l.text.length + extent ls := by
  simp [extent]

theorem extent_append (ls ls' : List Line) : extent (ls ++ ls') = extent ls + extent ls' := by
  simp [extent]

theorem extent_split (s : Text) : extent s.split = s.length := by
  rw [extent, Text.flatten_split]

theorem length_startsFrom (o : Int) (ls : List Line) :
    (startsFrom o ls).length = ls.length + 1 := by
  induction ls generalizing o with
  | nil => rfl
  | cons l ls ih => rw [startsFrom, List.length_cons, ih, List.length_cons]

theorem startsFrom_append_cons (o : Int) (before : List Line) (line : Line) (after : List Line) :
    startsFrom o (before ++ line :: after) =
      startsFrom o before ++ startsFrom (o + extent before + line.text.length) after := by
  induction before generalizing o with
  | nil => simp [startsFrom, extent]
  | cons b before ih =>
    rw [List.cons_append, startsFrom, ih, startsFrom, List.cons_append, extent_cons]
    push_cast
    rw [Int.add_assoc o]

theorem mem_startsFrom {o x : Int} {ls : List Line} (hx : x ∈ startsFrom o ls) :
    o ≤ x ∧ x ≤ o + extent ls := by
  induction ls generalizing o with
  | nil => simp_all [startsFrom, extent]
  | cons l ls ih =>
    rw [extent_cons]
    rcases List.mem_cons.mp hx with rfl | hx
    · omega
    · have := ih hx
      omega

/-- The last entry is the offset behind the lines. -/
theorem getD_startsFrom (o : Int) (ls : List Line) :
    (startsFrom o ls).getD ls.length 0 = o + extent ls := by
  induction ls generalizing o with
  | nil => simp [startsFrom, extent]
  | cons l ls ih =>
    rw [startsFrom, List.length_cons, List.getD_cons_succ, ih, extent_cons]
    push_cast
    omega

/-! ### Positions -/

/-- **An offset is found on its line**, in the column that it has there. -/
theorem locate_of_split {program : Text} {before : List Line} {line : Line} {after : List Line}
    {k : Nat} (h : program.split = before ++ line :: after) (hk : k < line.text.length) :
    locate (lineStarts program) ((extent before + k : Nat) : Int) = ⟨before.length + 1, k⟩ := by
  have htable : lineStarts program =
      startsFrom 0 before ++ startsFrom (0 + extent before + line.text.length) after := by
    rw [lineStarts, h, startsFrom_append_cons]
  have hpoint : insertionPoint (lineStarts program) ((extent before + k : Nat) : Int) =
      before.length + 1 := by
    rw [htable, insertionPoint_append, length_startsFrom]
    · intro y hy
      have := mem_startsFrom hy
      omega
    · intro y hy
      have := mem_startsFrom hy
      omega
  have hentry : (lineStarts program).getD before.length 0 = (extent before : Int) := by
    rw [htable, List.getD_append _ _ _ _ (by rw [length_startsFrom]; omega), getD_startsFrom]
    omega
  rw [locate, hpoint]
  simp only [Nat.add_sub_cancel, hentry, Nat.succ_ne_zero, if_false]
  congr 1
  omega

/-- Every offset of a program is on one of its lines. -/
theorem exists_line_of_lt {program : Text} {o : Nat} (ho : o < program.length) :
    ∃ before line after k, program.split = before ++ line :: after ∧ k < line.text.length ∧
      o = extent before + k := by
  rw [← extent_split] at ho
  generalize program.split = ls at ho
  induction ls generalizing o with
  | nil => simp [extent] at ho
  | cons l ls ih =>
    rw [extent_cons] at ho
    by_cases hl : o < l.text.length
    · exact ⟨[], l, ls, o, rfl, hl, by simp [extent]⟩
    · obtain ⟨before, line, after, k, rfl, hk, hoff⟩ := ih (o := o - l.text.length) (by omega)
      exact ⟨l :: before, line, after, k, rfl, hk, by rw [extent_cons]; omega⟩

/-- Positions in the order of a program, by line and then by column. -/
def Position.Before (p q : Position) : Prop :=
  p.line < q.line ∨ p.line = q.line ∧ p.column < q.column

/-- **Positions grow with the offset.** -/
theorem locate_before {program : Text} {o o' : Nat} (h : o < o') (ho' : o' < program.length) :
    (locate (lineStarts program) o).Before (locate (lineStarts program) o') := by
  obtain ⟨before, line, after, k, hs, hk, rfl⟩ := exists_line_of_lt (Nat.lt_trans h ho')
  obtain ⟨before', line', after', k', hs', hk', rfl⟩ := exists_line_of_lt ho'
  rw [locate_of_split hs hk, locate_of_split hs' hk']
  dsimp only [Position.Before]
  -- of two lines the one of the smaller offset does not stand behind the other
  rcases List.append_eq_append_iff.mp (hs.symm.trans hs') with ⟨gap, rfl, hgap⟩ | ⟨gap, rfl, hgap⟩
  · cases gap with
    | nil =>
      rw [List.append_nil] at h ⊢
      exact Or.inr ⟨rfl, by omega⟩
    | cons l gap =>
      rw [List.length_append, List.length_cons]
      exact Or.inl (by omega)
  · cases gap with
    | nil =>
      rw [List.append_nil] at h ⊢
      exact Or.inr ⟨rfl, by omega⟩
    | cons l gap =>
      obtain ⟨rfl, -⟩ := List.cons.inj hgap
      rw [extent_append, extent_cons] at h
      omega

/-! ### Spans -/

theorem entry?_of_split {program : Text} {before : List Line} {line : Line} {after : List Line}
    (h : program.split = before ++ line :: after) :
    entry? program.lines before.length = some line.content := by
  simp [Text.lines, entry?, h]

/-- **The span of a piece of one line** is on that line, between the columns of the piece. -/
theorem ofTable_of_split {program : Text} {before : List Line} {line : Line} {after : List Line}
    (h : program.split = before ++ line :: after) {k n : Nat} (hn : 0 < n)
    (hk : k + n ≤ line.text.length) :
    Span.ofTable (lineStarts program) ((extent before + k : Nat) : Int)
        (((extent before + k : Nat) : Int) + n) =
      ⟨before.length + 1, before.length + 1, k, k + n⟩ := by
  have hfirst := locate_of_split (k := k) h (by omega)
  have hlast := locate_of_split (k := k + n - 1) h (by omega)
  have hstop : ((extent before + k : Nat) : Int) + n - 1 =
      ((extent before + (k + n - 1) : Nat) : Int) := by omega
  rw [Span.ofTable, hstop, hfirst, hlast, if_neg (by omega)]
  simp only [Span.mk.injEq, true_and]
  omega

/-- **The span of a piece without breaks** is on one line, begins where the piece begins, and cuts
the piece out of the line. -/
theorem ofTable_of_piece {l : Text} (hl : l ≠ []) (hb : ∀ c ∈ l, isLineBreak c = false)
    (x y : Text) : ∃ n k : Nat, ∃ content,
      locate (lineStarts (x ++ l ++ y)) x.length = ⟨n + 1, k⟩ ∧
      Span.ofTable (lineStarts (x ++ l ++ y)) x.length (x.length + l.length) =
        ⟨n + 1, n + 1, k, k + l.length⟩ ∧
      entry? (x ++ l ++ y).lines n = some content ∧ slice content k (k + l.length) = l := by
  obtain ⟨before, line, after, u, v, hs, hc, hx⟩ := Text.exists_line_of_piece hl hb x y
  have hpos : 0 < l.length := List.length_pos_iff.mpr hl
  have hxlen : x.length = extent before + u.length := by
    rw [hx, List.length_append, extent]
  have hlen : u.length + l.length ≤ line.text.length := by
    rw [Line.text, hc]
    simp only [List.length_append]
    omega
  refine ⟨before.length, u.length, line.content, ?_, ?_, entry?_of_split hs, ?_⟩
  · rw [hxlen, locate_of_split hs (by omega)]
  · rw [hxlen, ofTable_of_split hs hpos hlen]
  · rw [hc, slice_append]

/-- **Every character stands on one line**, and so does a line break, as the end of its line or a
part of that end. -/
theorem exists_line_of_char (x : Text) (c : Char) (y : Text) : ∃ before line after u v,
    (x ++ c :: y).split = before ++ line :: after ∧ line.text = u ++ c :: v ∧
      x = (before.map Line.text).flatten ++ u := by
  have hlt : x.length < (x ++ c :: y).length := by simp
  obtain ⟨before, line, after, k, hs, hk, hx⟩ := exists_line_of_lt hlt
  have hflat := Text.flatten_split (x ++ c :: y)
  rw [hs, List.map_append, List.map_cons, List.flatten_append, List.flatten_cons] at hflat
  -- the first `k` characters of the line belong to `x`, and the next one is `c`
  rw [← List.take_append_drop k line.text, List.append_assoc, ← List.append_assoc] at hflat
  have hlen : ((before.map Line.text).flatten ++ line.text.take k).length = x.length := by
    rw [List.length_append, List.length_take, Nat.min_eq_left (Nat.le_of_lt hk), hx, extent]
  obtain ⟨hfront, hback⟩ := List.append_inj hflat hlen
  rw [List.drop_eq_getElem_cons hk, List.cons_append, List.cons.injEq] at hback
  refine ⟨before, line, after, line.text.take k, line.text.drop (k + 1), hs, ?_, hfront.symm⟩
  rw [← hback.1, ← List.drop_eq_getElem_cons hk, List.take_append_drop]

end LexerCombinators
