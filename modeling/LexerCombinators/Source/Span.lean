import LexerCombinators.Source.LineTable

/-!
# Spans

A span is a piece of a program by lines and columns: lines count from 1, columns from 0, and the
last column is the one behind the piece. The numbers are arbitrary integers, since spans are also
made by hand.
-/

namespace LexerCombinators

/-- A piece of a program. -/
structure Span where
  startLine : Int
  endLine : Int
  startColumn : Int
  endColumn : Int
deriving DecidableEq

namespace Span

/-- The span of what stands in no program. -/
def nowhere : Span := ⟨-1, -1, 0, -1⟩

/-- Whether the span begins and ends on different lines. -/
def isMultiline (s : Span) : Bool := s.startLine ≠ s.endLine

/-- Two integers in parentheses. -/
def writtenPair (a b : Int) : Text :=
  '(' :: (Text.integer a ++ ", ".toList ++ Text.integer b ++ [')'])

/-- The span in one line. -/
def written (s : Span) : Text :=
  "Span(ln=".toList ++ writtenPair s.startLine s.endLine ++ ", col=".toList ++
    writtenPair s.startColumn s.endColumn ++ [')']

/-- The lines of the span, as a message names them. -/
def lineNames (s : Span) : Text :=
  if s.isMultiline then
    "lines [".toList ++ Text.integer s.startLine ++ ['-'] ++ Text.integer s.endLine ++ [']']
  else "line [".toList ++ Text.integer s.startLine ++ [']']

/-- The span from offset `start` up to but not including offset `stop`, by a line table with at
least one entry. It ends behind its last character; an empty range, or a range that ends before it
starts, is the single position of `start`. -/
def ofTable (table : List Int) (start stop : Int) : Span :=
  let first := locate table start
  if stop ≤ start then ⟨first.line, first.line, first.column, first.column⟩
  else
    let last := locate table (stop - 1)
    ⟨first.line, last.line, first.column, last.column + 1⟩

/-- The same by any table; a table without entries gives no span. -/
def ofTable? (table : List Int) (start stop : Int) : Option Span :=
  if table.isEmpty then none else some (ofTable table start stop)

/-- The span of a range of offsets of a program. -/
def ofOffsets (program : Text) (start stop : Int) : Span :=
  ofTable (lineStarts program) start stop

end Span

end LexerCombinators
