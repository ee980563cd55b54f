import LexerCombinators.Text.Basic

/-!
# Lines of a text

A line is its content together with the break that ends it; only the last line may have no break.
CR followed by LF is one break, and so is every other single break character. `Text.split` gives
the lines, and nothing is lost by it: the lines put back together are the text
(`flatten_split`). `Text.lines` keeps the contents alone.
-/

namespace LexerCombinators

/-- The characters that end a line: line feed, vertical tab, form feed, carriage return, the file,
group and record separators, next line, and the line and paragraph separators. -/
def isLineBreak (c : Char) : Bool :=
  "\n\x0b\x0c\r\x1c\x1d\x1e\u0085\u2028\u2029".toList.contains c

/-- One line of a text. -/
structure Line where
  /-- What stands on the line. -/
  content : Text
  /-- The break that ends the line, empty on a last line without one. -/
  ending : Text
deriving DecidableEq

/-- The line as it stands in the text, with its break. -/
def Line.text (l : Line) : Text := l.content ++ l.ending

/-- A character in front of a line; alone it is a line that does not end. -/
def Line.extend (c : Char) : List Line → List Line
  | [] => [⟨[c], []⟩]
  | l :: ls => ⟨c :: l.content, l.ending⟩ :: ls

namespace Text

/-- The lines of a text, each with its break. -/
def split : Text → List Line
  | [] => []
  | '\r' :: '\n' :: s => ⟨[], ['\r', '\n']⟩ :: split s
  | c :: s => if isLineBreak c then ⟨[], [c]⟩ :: split s else Line.extend c (split s)

/-- The contents of the lines of a text. -/
def lines (s : Text) : List Text := s.split.map Line.content

theorem length_lines (s : Text) : s.lines.length = s.split.length := List.length_map _

theorem getElem?_lines {s : Text} {i : Nat} {l : Line} (h : s.split[i]? = some l) :
    s.lines[i]? = some l.content := by
  rw [lines, List.getElem?_map, h, Option.map_some]

theorem getD_lines {s : Text} {i : Nat} {l : Line} (h : s.split[i]? = some l) :
    s.lines.getD i [] = l.content := by
  rw [List.getD_eq_getElem?_getD, getElem?_lines h, Option.getD_some]

theorem flatten_extend (c : Char) (ls : List Line) :
    ((Line.extend c ls).map Line.text).flatten = c :: (ls.map Line.text).flatten := by
  cases ls <;> simp [Line.extend, Line.text]

/-- The lines put back together are the text. -/
theorem flatten_split (s : Text) : (s.split.map Line.text).flatten = s := by
  fun_induction split s with
  | case1 => rfl
  | case2 s ih => simp [Line.text, ih]
  | case3 c s _ h ih => simp [Line.text, ih]
  | case4 c s _ h ih => simp [flatten_extend, ih]

end Text

end LexerCombinators
