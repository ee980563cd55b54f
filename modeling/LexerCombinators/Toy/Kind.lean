import LexerCombinators.Text.Quoted

/-!
# Kinds of tokens

The toy language has keywords, operators and punctuation, each with one spelling, and names and
numbers, which are spelled in many ways. `Kind.classify` finds the kind of a text: the table of
spellings is asked first, so a keyword is not a name.
-/

namespace LexerCombinators

/-- A kind of token. -/
inductive Kind where
  | keywordFunction | keywordCall | keywordWhile | keywordIf | keywordLet | keywordSkip
  | arithmeticAdd | arithmeticSubtract | arithmeticMultiply | arithmeticDivide | arithmeticModulo
  | logicalAnd | logicalOr | logicalLessThan | logicalLessThanOrEqual | logicalGreaterThan
  | logicalGreaterThanOrEqual | logicalEqual | logicalNotEqual
  | controlLeftBrace | controlRightBrace | controlLeftParenthesis | controlRightParenthesis
  | controlSeparator | controlAssign | controlComma | controlQuote
  | genericName | genericNumber
deriving DecidableEq

namespace Kind

/-- All kinds, in order. -/
def all : List Kind :=
  [keywordFunction, keywordCall, keywordWhile, keywordIf, keywordLet, keywordSkip,
   arithmeticAdd, arithmeticSubtract, arithmeticMultiply, arithmeticDivide, arithmeticModulo,
   logicalAnd, logicalOr, logicalLessThan, logicalLessThanOrEqual, logicalGreaterThan,
   logicalGreaterThanOrEqual, logicalEqual, logicalNotEqual,
   controlLeftBrace, controlRightBrace, controlLeftParenthesis, controlRightParenthesis,
   controlSeparator, controlAssign, controlComma, controlQuote,
   genericName, genericNumber]

/-- The name of a kind. -/
def name : Kind → Text
  | keywordFunction => "KeywordFunction".toList
  | keywordCall => "KeywordCall".toList
  | keywordWhile => "KeywordWhile".toList
  | keywordIf => "KeywordIf".toList
  | keywordLet => "KeywordLet".toList
  | keywordSkip => "KeywordSkip".toList
  | arithmeticAdd => "ArithmeticAdd".toList
  | arithmeticSubtract => "ArithmeticSubtract".toList
  | arithmeticMultiply => "ArithmeticMultiply".toList
  | arithmeticDivide => "ArithmeticDivide".toList
  | arithmeticModulo => "ArithmeticModulo".toList
  | logicalAnd => "LogicalAnd".toList
  | logicalOr => "LogicalOr".toList
  | logicalLessThan => "LogicalLessThan".toList
  | logicalLessThanOrEqual => "LogicalLessThanOrEqual".toList
  | logicalGreaterThan => "LogicalGreaterThan".toList
  | logicalGreaterThanOrEqual => "LogicalGreaterThanOrEqual".toList
  | logicalEqual => "LogicalEqual".toList
  | logicalNotEqual => "LogicalNotEqual".toList
  | controlLeftBrace => "ControlLeftBrace".toList
  | controlRightBrace => "ControlRightBrace".toList
  | controlLeftParenthesis => "ControlLeftParenthesis".toList
  | controlRightParenthesis => "ControlRightParenthesis".toList
  | controlSeparator => "ControlSeparator".toList
  | controlAssign => "ControlAssign".toList
  | controlComma => "ControlComma".toList
  | controlQuote => "ControlQuote".toList
  | genericName => "GenericName".toList
  | genericNumber => "GenericNumber".toList

/-- The only spelling of a kind; names and numbers have none. -/
def spelling? : Kind → Option Text
  | keywordFunction => "function".toList
  | keywordCall => "call".toList
  | keywordWhile => "while".toList
  | keywordIf => "if".toList
  | keywordLet => "let".toList
  | keywordSkip => "skip".toList
  | arithmeticAdd => "+".toList
  | arithmeticSubtract => "-".toList
  | arithmeticMultiply => "*".toList
  | arithmeticDivide => "/".toList
  | arithmeticModulo => "%".toList
  | logicalAnd => "&".toList
  | logicalOr => "|".toList
  | logicalLessThan => "<".toList
  | logicalLessThanOrEqual => "<=".toList
  | logicalGreaterThan => ">".toList
  | logicalGreaterThanOrEqual => ">=".toList
  | logicalEqual => "==".toList
  | logicalNotEqual => "!=".toList
  | controlLeftBrace => "\x7b".toList
  | controlRightBrace => "\x7d".toList
  | controlLeftParenthesis => "(".toList
  | controlRightParenthesis => ")".toList
  | controlSeparator => ";".toList
  | controlAssign => "=".toList
  | controlComma => ",".toList
  | controlQuote => "\"".toList
  | genericName => none
  | genericNumber => none

/-- The place of a kind in the order, counted from 1. -/
def number (k : Kind) : Nat := all.idxOf k + 1

/-- The kind of a given name. -/
def ofName? (s : Text) : Option Kind := all.find? fun k => k.name = s

/-- What is said about a name that no kind has. -/
def noSuchKindMessage (s : Text) : Text := s.quoted

/-! ### Classification -/

/-- The kind of a given spelling. -/
def ofSpelling? (s : Text) : Option Kind := all.find? fun k => k.spelling? = some s

/-- A number is a text of ASCII digits. -/
def isNumber (s : Text) : Bool := !s.isEmpty && s.all Char.isDigit

/-- A name is an ASCII letter with ASCII letters and digits behind it. -/
def isName : Text → Bool
  | [] => false
  | c :: s => c.isAlpha && s.all Char.isAlphanum

/-- The kind of a text, if it is a token of the toy language. -/
def classify (s : Text) : Option Kind :=
  match ofSpelling? s with
  | some k => some k
  | none => if isNumber s then some genericNumber else if isName s then some genericName else none

end Kind

end LexerCombinators
