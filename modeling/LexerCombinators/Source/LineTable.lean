import LexerCombinators.Text.Lines

/-!
# Line tables

A line table lists the offsets at which lines begin. The table of a program (`lineStarts`) has one
more entry than the program has lines, for the offset behind the last line. A position is looked up
by bisection: `insertionPoint` is the place behind all entries that are at most the offset, and a
position lies on the line of that number. Tables may also be given from outside, in any order, so
bisection is a definition of its own and not a search for the last entry below the offset.
-/

namespace LexerCombinators

/-- The offsets at which the lines begin when the first begins at `o`, and the offset behind the
last line. -/
def startsFrom (o : Int) : List Line → List Int
  | [] => [o]
  | l :: ls => o :: startsFrom (o + l.text.length) ls

/-- The line table of a program. -/
def lineStarts (program : Text) : List Int := startsFrom 0 program.split

theorem startsFrom_ne_nil (o : Int) (ls : List Line) : startsFrom o ls ≠ [] := by
  cases ls <;> simp [startsFrom]

theorem lineStarts_ne_nil (program : Text) : lineStarts program ≠ [] := startsFrom_ne_nil _ _

/-! ### Bisection -/

/-- Bisection between `lo` and `hi` for the place behind the entries that are at most `x`. -/
def bisect (table : List Int) (x : Int) (lo hi : Nat) : Nat :=
  if h : lo < hi then
    let mid := (lo + hi) / 2
    if x < table.getD mid 0 then bisect table x lo mid else bisect table x (mid + 1) hi
  else lo
termination_by hi - lo
decreasing_by all_goals omega

/-- The place behind the entries that are at most `x`, as bisection finds it. -/
def insertionPoint (table : List Int) (x : Int) : Nat := bisect table x 0 table.length

theorem bisect_le {table : List Int} {x : Int} {lo hi : Nat} (h : lo ≤ hi) :
    lo ≤ bisect table x lo hi ∧ bisect table x lo hi ≤ hi := by
  fun_induction bisect table x lo hi with
  | case1 lo hi hlt mid hx ih => have := ih (by omega); omega
  | case2 lo hi hlt mid hx ih => have := ih (by omega); omega
  | case3 lo hi hge => omega

theorem insertionPoint_le (table : List Int) (x : Int) : insertionPoint table x ≤ table.length :=
  (bisect_le (Nat.zero_le _)).2

/-! ### Positions -/

/-- A line, counted from 1, and a column, counted from 0. -/
structure Position where
  line : Int
  column : Int
deriving DecidableEq

/-- The position of an offset in a table with at least one entry. An offset in front of all entries
is on line 0, and its column is counted from the last entry. -/
def locate (table : List Int) (offset : Int) : Position :=
  let i := insertionPoint table offset
  ⟨i, offset - (if i = 0 then table.getLastD 0 else table.getD (i - 1) 0)⟩

end LexerCombinators
