import LexerCombinators.Pattern.Matching

/-!
# The lexicon of the toy language

The lexers for the words of the toy language, up to `program`, which takes a whole program apart.
The order of the alternatives matters: two-character operators stand before their first characters,
so `<=` is one lexeme. White space is lexed like everything else and kept in the lexemes.
-/

namespace LexerCombinators.Lexicon

/-! ### Names and numbers -/

/-- A lower-case ASCII letter. -/
def lowercase : Lexer := .range 'a' 'z'

/-- An upper-case ASCII letter. -/
def uppercase : Lexer := .range 'A' 'Z'

/-- An ASCII letter. -/
def letter : Lexer := .choice [lowercase, uppercase]

/-- An ASCII digit. -/
def digit : Lexer := .range '0' '9'

/-- An ASCII digit other than zero. -/
def nonZeroDigit : Lexer := .range '1' '9'

/-- A letter, then letters and digits. -/
def name : Lexer := .sequence [letter, .zeroOrMore (.choice [letter, digit])]

/-- Zero with no letter or digit behind it, or digits that do not begin with zero. -/
def number : Lexer :=
  .choice [.sequence [.char '0', .notFollowedBy (.choice [letter, digit])],
    .sequence [nonZeroDigit, .zeroOrMore digit]]

/-! ### Operators and white space -/

/-- The characters between tokens. -/
def whitespace : Text := " \n\x08\t\r".toList

/-- A run of white space. -/
def spaces : Lexer := .oneOrMore (.choice (whitespace.map .char))

/-- The spellings of the operators of two characters. -/
def doubleSpellings : List Text := ["!=", "==", "<=", ">=", "&&", "||"].map String.toList

/-- An operator of two characters. -/
def doubleOperator : Lexer := .choice (doubleSpellings.map .literal)

/-- The operators and the punctuation of one character. -/
def singleSpellings : Text := "&|^~!=<>()\x7b\x7d;+-*/%\"".toList

/-- An operator of one character, or punctuation. -/
def singleOperator : Lexer := .choice (singleSpellings.map .char)

/-! ### Programs -/

/-- One lexeme of a program. -/
def token : Lexer := .choice [name, number, doubleOperator, singleOperator, spaces]

/-- As many lexemes as there are. -/
def programBody : Lexer := .zeroOrMore token

/-- A whole program. -/
def program : Lexer := .fullMatch programBody

end LexerCombinators.Lexicon
