import LexerCombinators.Text.Basic

/-!
# Trimming

Blank characters are the white space of Unicode together with the four information separators;
`Text.trim` removes them from both ends of a text.
-/

namespace LexerCombinators

/-- White space: the tab to carriage return block, the information separators, the space, next
line, and the spaces beyond ASCII. -/
def isBlank (c : Char) : Bool :=
  let n := c.toNat
  (0x09 ≤ n && n ≤ 0x0d) || (0x1c ≤ n && n ≤ 0x20) || n == 0x85 || n == 0xa0 || n == 0x1680 ||
    (0x2000 ≤ n && n ≤ 0x200a) || n == 0x2028 || n == 0x2029 || n == 0x202f || n == 0x205f ||
    n == 0x3000

/-- A text without the blank characters at its ends. -/
def Text.trim (s : Text) : Text := ((s.dropWhile isBlank).reverse.dropWhile isBlank).reverse

end LexerCombinators
