import LexerCombinators.Pattern.Matching

/-!
# Written patterns

Every pattern has a written form that names its constructors and quotes its texts; a range of one
character has a form of its own. Foreign parts say how they are written. The form is what the
message of a stall shows.
-/

namespace LexerCombinators

/-- Foreign parts with a written form and the name of their kind. -/
class Written (α : Type) where
  /-- The part as it stands in a written pattern. -/
  written : α → Text
  /-- The name of the kind of lexer that the part makes. -/
  formName : α → Text

instance : Written Empty := ⟨nofun, nofun⟩

namespace Pattern

variable {α ω : Type} [Written α] [Written ω]

/-- The name of the kind of a pattern. -/
def formName : Pattern α ω → Text
  | range .. => "Range".toList
  | literal _ => "Literal".toList
  | nothing => "Nothing".toList
  | choice _ => "Choice".toList
  | sequence _ => "Sequence".toList
  | oneOrMore _ => "Some".toList
  | fullMatch _ => "FullMatch".toList
  | followedBy _ => "AssertAfter".toList
  | notFollowedBy _ => "AssertNotAfter".toList
  | foreign a => Written.formName a
  | wrapped w _ => Written.formName w

/-- A name with an argument in parentheses. -/
def call (name : Text) (argument : Text) : Text := name ++ '(' :: (argument ++ [')'])

/-- Written items in brackets, separated by commas. -/
def bracketed (items : List Text) : Text :=
  '[' :: (List.intercalate ", ".toList items ++ [']'])

mutual

/-- The written form of a pattern. -/
def written : Pattern α ω → Text
  | range lo hi =>
    if lo = hi then call "Char".toList (Text.quoted [lo])
    else call "Range".toList (Text.quoted [lo] ++ ", ".toList ++ Text.quoted [hi])
  | literal s => call "Literal".toList s.quoted
  | nothing => call "Nothing".toList []
  | choice ps => call "Choice".toList (bracketed (writtenAll ps))
  | sequence ps => call "Sequence".toList (bracketed (writtenAll ps))
  | oneOrMore p => call "Some".toList (written p)
  | fullMatch p => call "FullMatch".toList (written p)
  | followedBy p => call "AssertAfter".toList (written p)
  | notFollowedBy p => call "AssertNotAfter".toList (written p)
  | foreign a => Written.written a
  | wrapped w _ => Written.written w

/-- The written forms of a list of patterns. -/
def writtenAll : List (Pattern α ω) → List Text
  | [] => []
  | p :: ps => written p :: writtenAll ps

end

theorem writtenAll_eq_map (ps : List (Pattern α ω)) : writtenAll ps = ps.map written := by
  induction ps with
  | nil => rfl
  | cons p ps ih => simp [writtenAll, ih]

end Pattern

/-- What is said about a stall: the body that matched nothing, and the repetition around it. -/
def Stall.message {α ω : Type} [Written α] [Written ω] (e : Stall α ω) : Text :=
  e.body.written ++ " succeeded without consuming input inside ".toList ++ e.body.oneOrMore.written

end LexerCombinators
