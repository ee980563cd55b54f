import LexerCombinators.Pattern.Basic

/-!
# Checked construction

Patterns that come from outside the library are built through these functions. A bound of a range
must be a text of one character, and alternatives and sequences need at least one part. The lower
bound is checked first.
-/

namespace LexerCombinators

/-- A value given as the bound of a range. -/
inductive Bound where
  | text (s : Text)
  | integer (n : Int)
  | truth (b : Bool)
  | absent

/-- The bound as a message shows it. -/
def Bound.written : Bound → Text
  | text s => s.quoted
  | integer n => Text.integer n
  | truth b => (if b then "True" else "False").toList
  | absent => "None".toList

/-- Why a pattern cannot be built. -/
inductive BuildError where
  /-- A choice, a sequence or a bare combinator without parts. -/
  | noParts
  /-- A bound that is not a single character. -/
  | badBound (b : Bound)

/-- What is said about a pattern that cannot be built. -/
def BuildError.message : BuildError → Text
  | noParts => "Required one or more lexers".toList
  | badBound b => "Range bounds must be single characters, not ".toList ++ b.written

/-- The character that a bound names. -/
def Bound.char? : Bound → Except BuildError Char
  | text [c] => .ok c
  | b => .error (.badBound b)

/-- The parts of a combinator, of which there must be one. -/
def requireParts {β : Type} : List β → Except BuildError (List β)
  | [] => .error .noParts
  | ps => .ok ps

namespace Pattern

variable {α ω : Type}

/-- A range between two given bounds. -/
def range? (lo hi : Bound) : Except BuildError (Pattern α ω) := do
  let l ← lo.char?
  let h ← hi.char?
  pure (range l h)

/-- A choice between given alternatives. -/
def choice? (ps : List (Pattern α ω)) : Except BuildError (Pattern α ω) :=
  choice <$> requireParts ps

/-- A sequence of given patterns. -/
def sequence? (ps : List (Pattern α ω)) : Except BuildError (Pattern α ω) :=
  sequence <$> requireParts ps

end Pattern

end LexerCombinators
