import LexerCombinators.Text.Printable

/-!
# Quoted texts

A quoted text stands between two delimiters: the single quote, unless the text holds single quotes
and no double quotes. Inside, the backslash and the delimiter follow a backslash, line feed,
carriage return and tab have a letter, and every other unprintable character is written by its
number in two, four or eight hexadecimal digits.
-/

namespace LexerCombinators

/-- A hexadecimal digit, in lower case. -/
def hexDigit (n : Nat) : Char := if n < 10 then Char.ofNat (48 + n) else Char.ofNat (87 + n)

/-- The last `width` hexadecimal digits of a number. -/
def hex : Nat → Nat → Text
  | 0, _ => []
  | width + 1, n => hex width (n / 16) ++ [hexDigit (n % 16)]

/-- A character by its number, in the shortest of the three forms that holds it. -/
def numbered (c : Char) : Text :=
  let n := c.toNat
  if n < 0x100 then '\\' :: 'x' :: hex 2 n
  else if n < 0x10000 then '\\' :: 'u' :: hex 4 n
  else '\\' :: 'U' :: hex 8 n

/-- One character as it stands between two delimiters. -/
def escaped (delimiter c : Char) : Text :=
  if c = '\\' ∨ c = delimiter then ['\\', c]
  else if c = '\n' then ['\\', 'n']
  else if c = '\r' then ['\\', 'r']
  else if c = '\t' then ['\\', 't']
  else if isPrintable c then [c]
  else numbered c

namespace Text

/-- The delimiter for a text: double quotes exactly when they save every escape of a quote. -/
def delimiter (s : Text) : Char := if s.contains '\'' && !s.contains '"' then '"' else '\''

/-- A text between delimiters. -/
def quoted (s : Text) : Text :=
  s.delimiter :: (s.flatMap (escaped s.delimiter) ++ [s.delimiter])

/-- Quoted texts in parentheses; one alone keeps a comma behind it. -/
def quotedTuple : List Text → Text
  | [] => "()".toList
  | [s] => '(' :: (s.quoted ++ ",)".toList)
  | ss => '(' :: (List.intercalate ", ".toList (ss.map quoted) ++ [')'])

end Text

end LexerCombinators
