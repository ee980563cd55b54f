import Mathlib.Tactic.Common
import LexerCombinators.Text.Lines

/-!
# Pieces of a line

A piece of a text that holds no line break stands on one line (`exists_line_of_piece`): somewhere in
the lines of the text is one whose content has the piece in it, and what precedes the piece is the
lines in front together with the front of that content. The induction is on the text in front of the
piece, by the recursion of `Text.split`; the pair of carriage return and line feed is no exception,
since a piece begins with neither.
-/

namespace LexerCombinators

namespace Line

/-- A character in front of some lines and one more goes to the first of them. -/
theorem exists_extend_append (c : Char) (before : List Line) (line : Line) (after : List Line) :
    ∃ before' u, extend c (before ++ line :: after) =
        before' ++ ⟨u ++ line.content, line.ending⟩ :: after ∧
      (before'.map text).flatten ++ u = c :: (before.map text).flatten := by
  cases before with
  | nil => exact ⟨[], [c], rfl, rfl⟩
  | cons b before => exact ⟨⟨c :: b.content, b.ending⟩ :: before, [], rfl, by simp [text]⟩

end Line

namespace Text

theorem split_cons_of_not_break {c : Char} (h : isLineBreak c = false) (s : Text) :
    split (c :: s) = Line.extend c s.split := by
  rw [split]
  · simp [h]
  · rintro t rfl rfl
    cases h

theorem split_cons_of_break {c : Char} {s : Text} (h : isLineBreak c = true)
    (hs : c = '\r' → s.head? ≠ some '\n') : split (c :: s) = ⟨[], [c]⟩ :: s.split := by
  rw [split]
  · simp [h]
  · rintro t rfl rfl
    exact hs rfl rfl

/-- A piece without breaks at the beginning of a text is at the beginning of its first line. -/
theorem exists_first_line {l : Text} (hl : l ≠ []) (hb : ∀ c ∈ l, isLineBreak c = false)
    (y : Text) : ∃ v ending after, split (l ++ y) = ⟨l ++ v, ending⟩ :: after := by
  induction l with
  | nil => exact absurd rfl hl
  | cons c l ih =>
    rw [List.cons_append, split_cons_of_not_break (hb c (by simp))]
    by_cases hnil : l = []
    · subst hnil
      cases hy : split y with
      | nil => exact ⟨[], [], [], by simp [hy, Line.extend]⟩
      | cons first after => exact ⟨first.content, first.ending, after, by simp [hy, Line.extend]⟩
    · obtain ⟨v, ending, after, hs⟩ := ih hnil fun d hd => hb d (by simp [hd])
      exact ⟨v, ending, after, by rw [hs]; rfl⟩

/-- **A piece without breaks stands on one line.** -/
theorem exists_line_of_piece {l : Text} (hl : l ≠ []) (hb : ∀ c ∈ l, isLineBreak c = false)
    (x y : Text) : ∃ before line after u v, split (x ++ l ++ y) = before ++ line :: after ∧
      line.content = u ++ l ++ v ∧ x = (before.map Line.text).flatten ++ u := by
  induction x using split.induct with
  | case1 =>
    obtain ⟨v, ending, after, hs⟩ := exists_first_line hl hb y
    exact ⟨[], _, after, [], v, hs, rfl, rfl⟩
  | case2 x ih =>
    obtain ⟨before, line, after, u, v, hs, hc, hx⟩ := ih
    refine ⟨⟨[], ['\r', '\n']⟩ :: before, line, after, u, v, ?_, hc, by simp [Line.text, ← hx]⟩
    simp only [List.cons_append, split, hs]
  | case3 c x hcr hbreak ih =>
    obtain ⟨before, line, after, u, v, hs, hc, hx⟩ := ih
    refine ⟨⟨[], [c]⟩ :: before, line, after, u, v, ?_, hc, by simp [Line.text, ← hx]⟩
    rw [List.cons_append, List.cons_append, split_cons_of_break hbreak, hs, List.cons_append]
    -- behind a carriage return stands no line feed: neither in `x` nor at the front of the piece
    intro hcr' hhead
    cases x with
    | nil =>
      obtain ⟨d, l, rfl⟩ := List.exists_cons_of_ne_nil hl
      have hd := hb d (by simp)
      simp only [List.nil_append, List.cons_append, List.head?_cons, Option.some.injEq] at hhead
      rw [hhead] at hd
      cases hd
    | cons d x =>
      simp only [List.cons_append, List.head?_cons, Option.some.injEq] at hhead
      exact hcr x hcr' (by rw [hhead])
  | case4 c x _ hbreak ih =>
    obtain ⟨before, line, after, u, v, hs, hc, hx⟩ := ih
    obtain ⟨before', u', hext, hflat⟩ := Line.exists_extend_append c before line after
    refine ⟨before', ⟨u' ++ line.content, line.ending⟩, after, u' ++ u, v, ?_, by simp [hc], ?_⟩
    · rw [List.cons_append, List.cons_append, split_cons_of_not_break (by simpa using hbreak), hs]
      exact hext
    · rw [← List.append_assoc, hflat, List.cons_append, ← hx]

/-- The first line reaches up to the first break. -/
theorem headD_lines (s : Text) : s.lines.headD [] = s.takeWhile fun c => !isLineBreak c := by
  fun_induction split s with
  | case1 => rfl
  | case2 s _ => rfl
  | case3 c s hcr hbreak _ =>
    rw [lines, split_cons_of_break hbreak fun h hs => ?_]
    · simp [hbreak]
    · obtain ⟨t, rfl⟩ := List.head?_eq_some_iff.mp hs
      exact hcr t h rfl
  | case4 c s _ hbreak ih =>
    rw [List.takeWhile_cons_of_pos (by simpa using hbreak), ← ih, lines,
      split_cons_of_not_break (by simpa using hbreak), lines]
    cases split s <;> rfl

end Text

end LexerCombinators
