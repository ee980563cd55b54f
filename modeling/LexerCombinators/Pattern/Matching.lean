import LexerCombinators.Pattern.Basic

/-!
# Matching

A matcher takes a stream to a result, in some monad `m`: clients may count, record or answer from a
script. Each constructor of `Pattern` has its meaning here as an operator on matchers, and
`Pattern.matcher` puts them together. A lexer needs no monad but one for the single thing that can
go wrong: a repetition whose body matches without consuming would match again for ever, and is
stopped with a `Stall`. `Lexer.run` is that reading.
-/

namespace LexerCombinators

/-- A matcher takes a stream to a result. -/
abbrev Matcher (m : Type → Type) := Text → m Result

/-- A repetition met a match of its body that consumed nothing. -/
structure Stall (α ω : Type) where
  /-- The body of the repetition. -/
  body : Pattern α ω

/-! ### Operators on streams -/

/-- One character between `lo` and `hi`. -/
def matchRange (lo hi : Char) : Text → Result
  | [] => .fail []
  | c :: s => if lo ≤ c ∧ c ≤ hi then .success [[c]] s else .fail (c :: s)

/-- The text `t` at the front of a stream. -/
def matchLiteral (t s : Text) : Result :=
  if t.isPrefixOf s then .success [t] (s.drop t.length) else .fail s

/-! ### Operators on matchers -/

section Operators

variable {ε : Type} {m : Type → Type} [Monad m]

/-- The result of the first matcher that matches; the others are not run. -/
def firstOf : List (Matcher m) → Matcher m
  | [], s => pure (.fail s)
  | p :: ps, s => do
    let r ← p s
    if r.isSuccess then pure r else firstOf ps s

/-- Each matcher on what the one before left: their joined lexemes and what remains, or `none` as
soon as one fails. -/
def steps : List (Matcher m) → Text → m (Option (List Text × Text))
  | [], s => pure (some ([], s))
  | p :: ps, s => do
    let r ← p s
    if r.isSuccess then
      let rest ← steps ps r.remaining
      pure (rest.map fun (ls, s') => (r.text :: ls, s'))
    else pure none

/-- All matchers in order, with one lexeme for each. -/
def inOrder (ps : List (Matcher m)) : Matcher m := fun s => do
  match ← steps ps s with
  | some (ls, s') => pure (.success ls s')
  | none => pure (.fail s)

/-- The matches of `p` one after another until it fails: their joined lexemes and what remains. A
match that does not shorten the stream stops everything with `stall`. -/
def repeats [MonadExceptOf ε m] (stall : ε) (p : Matcher m) (s : Text) : m (List Text × Text) := do
  let r ← p s
  if r.isSuccess then
    if r.remaining.length < s.length then
      let (ls, s') ← repeats stall p r.remaining
      pure (r.text :: ls, s')
    else throw stall
  else pure ([], s)
termination_by s.length

/-- At least one match of `p`, and as many as possible. -/
def greedy [MonadExceptOf ε m] (stall : ε) (p : Matcher m) : Matcher m := fun s => do
  match ← repeats stall p s with
  | ([], _) => pure (.fail s)
  | (ls, s') => pure (.success ls s')

/-- The match of `p` when it leaves nothing. -/
def anchored (p : Matcher m) : Matcher m := fun s => do
  let r ← p s
  pure (if r.isSuccess && r.remaining.isEmpty then r else .fail s)

/-- Whether `p` matches, compared with `expected`; nothing is consumed. -/
def lookahead (expected : Bool) (p : Matcher m) : Matcher m := fun s => do
  let r ← p s
  pure (if r.isSuccess = expected then .untouched s else .fail s)

end Operators

/-! ### The matcher of a pattern -/

/-- What the parts of a pattern mean that are a client's own, and how a stall is reported. -/
structure Client (α ω ε : Type) (m : Type → Type) where
  /-- The matcher of a leaf. -/
  leaf : α → Matcher m
  /-- The matcher of a wrapped pattern, from that of the pattern. -/
  wrap : ω → Matcher m → Matcher m
  /-- The report of a stalled repetition. -/
  stalled : Stall α ω → ε

namespace Pattern

variable {α ω ε : Type} {m : Type → Type} [Monad m] [MonadExceptOf ε m]

mutual

/-- The matcher of a pattern. -/
def matcher (client : Client α ω ε m) : Pattern α ω → Matcher m
  | range lo hi => fun s => pure (matchRange lo hi s)
  | literal t => fun s => pure (matchLiteral t s)
  | nothing => fun s => pure (.untouched s)
  | choice ps => firstOf (matchers client ps)
  | sequence ps => inOrder (matchers client ps)
  | oneOrMore p => greedy (client.stalled ⟨p⟩) (matcher client p)
  | fullMatch p => anchored (matcher client p)
  | followedBy p => lookahead true (matcher client p)
  | notFollowedBy p => lookahead false (matcher client p)
  | foreign a => client.leaf a
  | wrapped w p => client.wrap w (matcher client p)

/-- The matchers of a list of patterns. -/
def matchers (client : Client α ω ε m) : List (Pattern α ω) → List (Matcher m)
  | [] => []
  | p :: ps => matcher client p :: matchers client ps

end

theorem matchers_eq_map (client : Client α ω ε m) (ps : List (Pattern α ω)) :
    matchers client ps = ps.map (matcher client) := by
  induction ps with
  | nil => rfl
  | cons p ps ih => simp [matchers, ih]

end Pattern

/-! ### Lexers -/

namespace Lexer

/-- Lexers have no foreign parts, and end early only in a stall. -/
def client : Client Empty Empty (Stall Empty Empty) (Except (Stall Empty Empty)) :=
  ⟨nofun, nofun, id⟩

/-- The result of a lexer on a stream, unless a repetition in it stalls. -/
def run (p : Lexer) : Text → Except (Stall Empty Empty) Result := Pattern.matcher client p

end Lexer

end LexerCombinators
