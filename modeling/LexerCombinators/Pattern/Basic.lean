import LexerCombinators.Pattern.Result

/-!
# Patterns

A pattern says which piece at the front of a stream is matched and how it is cut into lexemes. The
type has two parameters for what a client adds of its own: foreign leaves `α`, and wrappers `ω`
around a pattern. A `Lexer` is a pattern with neither.
-/

namespace LexerCombinators

/-- A pattern over foreign leaves `α` and foreign wrappers `ω`. -/
inductive Pattern (α ω : Type) where
  /-- One character between two bounds, both included. -/
  | range (lo hi : Char)
  /-- A fixed text, possibly empty. -/
  | literal (s : Text)
  /-- Matches everywhere and consumes nothing. -/
  | nothing
  /-- The first alternative that matches. -/
  | choice (ps : List (Pattern α ω))
  /-- All patterns one after another, with one lexeme for each. -/
  | sequence (ps : List (Pattern α ω))
  /-- As many matches as possible, at least one, with one lexeme for each. -/
  | oneOrMore (p : Pattern α ω)
  /-- A match that leaves nothing of the stream. -/
  | fullMatch (p : Pattern α ω)
  /-- Looks ahead for a match and consumes nothing. -/
  | followedBy (p : Pattern α ω)
  /-- Looks ahead for the absence of a match and consumes nothing. -/
  | notFollowedBy (p : Pattern α ω)
  /-- A leaf of the client. -/
  | foreign (a : α)
  /-- A pattern inside a wrapper of the client. -/
  | wrapped (w : ω) (p : Pattern α ω)

/-- A pattern without foreign parts. -/
abbrev Lexer := Pattern Empty Empty

namespace Pattern

variable {α ω : Type}

/-- A single character. -/
def char (c : Char) : Pattern α ω := range c c

/-- Any number of matches; none is a match too, so this fails nowhere. -/
def zeroOrMore (p : Pattern α ω) : Pattern α ω := choice [oneOrMore p, nothing]

/-- The pattern that a repetition, an anchor, a lookahead or a wrapper is about. -/
def body? : Pattern α ω → Option (Pattern α ω)
  | oneOrMore p | fullMatch p | followedBy p | notFollowedBy p | wrapped _ p => p
  | _ => none

mutual

/-- A lexer as a pattern of any client. -/
def ofLexer : Lexer → Pattern α ω
  | range lo hi => range lo hi
  | literal s => literal s
  | nothing => nothing
  | choice ps => choice (ofLexers ps)
  | sequence ps => sequence (ofLexers ps)
  | oneOrMore p => oneOrMore (ofLexer p)
  | fullMatch p => fullMatch (ofLexer p)
  | followedBy p => followedBy (ofLexer p)
  | notFollowedBy p => notFollowedBy (ofLexer p)
  | foreign a => nomatch a
  | wrapped w _ => nomatch w

/-- The same for a list of lexers. -/
def ofLexers : List Lexer → List (Pattern α ω)
  | [] => []
  | p :: ps => ofLexer p :: ofLexers ps

end

end Pattern

end LexerCombinators
