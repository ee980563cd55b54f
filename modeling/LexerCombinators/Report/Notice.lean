import LexerCombinators.Source.Span

/-!
# Notices

A notice shows a span of a program to the programmer: a heading, the lines of the span with some
lines around them, and an optional closing remark. Each line has its number in front, right-aligned
in a gutter; the lines of the span are marked by an arrow, and the span itself is coloured. The
window of lines is first cut into `Row`s, which are then rendered.
-/

namespace LexerCombinators

/-- The colours of a terminal, and the end of a coloured piece. -/
inductive Color where
  | red | green | yellow | blue | off

/-- The escape sequence that switches to a colour. -/
def Color.code : Color → Text
  | red => "\x1b[31m".toList
  | green => "\x1b[32m".toList
  | yellow => "\x1b[33m".toList
  | blue => "\x1b[34m".toList
  | off => "\x1b[m".toList

/-! ### Rows -/

/-- One shown line of a program. -/
inductive Row where
  /-- A line outside the span. -/
  | plain (number : Nat) (content : Text)
  /-- A line of the span, with the span cut out of it. -/
  | marked (number : Nat) (left inside right : Text)
deriving DecidableEq

namespace Row

/-- The number of the line. -/
def number : Row → Nat
  | plain i _ | marked i .. => i

/-- The row of the line `content` with number `i`. Only the first and the last line of the span are
cut by its columns. -/
def ofLine (span : Span) (content : Text) (i : Nat) : Row :=
  if span.startLine ≤ i ∧ i ≤ span.endLine then
    let start : Int := if i = span.startLine then span.startColumn else 0
    let stop : Int := if i = span.endLine then span.endColumn else content.length
    marked i (slice content 0 start) (slice content start stop)
      (slice content stop content.length)
  else plain i content

/-- The number behind spaces up to the width of the gutter, with a full stop and a space. -/
def gutter (width i : Nat) : Text :=
  List.replicate (width - (Text.decimal i).length) ' ' ++ Text.decimal i ++ ". ".toList

/-- The row as it is shown. -/
def written (width : Nat) (color : Color) : Row → Text
  | plain i content => "   ".toList ++ gutter width i ++ content
  | marked i left inside right =>
    "-> ".toList ++ gutter width i ++ left ++ color.code ++ inside ++ Color.off.code ++ right

theorem written_plain (width : Nat) (color : Color) (i : Nat) (content : Text) :
    (plain i content).written width color = "   ".toList ++ gutter width i ++ content := rfl

theorem written_marked (width : Nat) (color : Color) (i : Nat) (left inside right : Text) :
    (marked i left inside right).written width color = "-> ".toList ++ gutter width i ++ left ++
      color.code ++ inside ++ Color.off.code ++ right := rfl

end Row

/-! ### Notices -/

/-- A span of a program with what is to be said about it. -/
structure Notice where
  program : Text
  span : Span
  /-- What kind of notice it is. -/
  title : Text := "LexerError".toList
  /-- The text behind the title. -/
  before : Text := []
  /-- The text behind the shown lines. -/
  after : Text := []
  /-- How many lines are shown in front of the span. -/
  linesBefore : Int := 1
  /-- How many lines are shown behind the span. -/
  linesAfter : Int := 1
  color : Color := .red

namespace Notice

/-- The number of the first line of the window. -/
def firstNumber (n : Notice) : Nat := (max 1 (n.span.startLine - n.linesBefore)).toNat

/-- The lines of the window. -/
def window (n : Notice) : List Text :=
  slice n.program.lines (n.firstNumber - 1) (n.span.endLine + n.linesAfter)

/-- The rows of the window. -/
def rows (n : Notice) : List Row :=
  (n.window.zipIdx n.firstNumber).map fun (content, i) => Row.ofLine n.span content i

/-- The width of the gutter: the digits of the last number of the window. -/
def gutterWidth (n : Notice) : Nat :=
  (Text.decimal (n.firstNumber + n.window.length - 1)).length

/-- The text of a notice. -/
def text (n : Notice) : Text :=
  n.title ++ ": ".toList ++ n.before ++ '\n' ::
    (List.intercalate ['\n'] (n.rows.map (Row.written n.gutterWidth n.color)) ++
      if n.after.isEmpty then [] else '\n' :: n.after)

end Notice

end LexerCombinators
