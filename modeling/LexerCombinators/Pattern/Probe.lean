import LexerCombinators.Pattern.Build
import LexerCombinators.Pattern.Written

/-!
# Probes

A probe is a pattern made to observe lexing. Its wrappers record every stream on which the wrapped
pattern is run, and what came of it (`record`). Its leaves are lexers that answer from a script,
whatever the stream, or that have no rule at all. A script is used up by the runs of the probe
until one answer is left, which is then given for ever.
-/

namespace LexerCombinators

/-- One recorded run of a wrapped pattern. -/
structure Call where
  /-- The label of the wrapper. -/
  label : Text
  /-- The stream on which it was run. -/
  stream : Text
  /-- Whether it matched; `none` while it runs and when it ended early. -/
  outcome : Option Bool
deriving DecidableEq

/-- Runs `body` and keeps a record of the call, at the place where the call began. -/
def record {ε : Type} {n : Type → Type} [Monad n] (label : Text)
    (body : Matcher (ExceptT ε (StateT (List Call) n))) :
    Matcher (ExceptT ε (StateT (List Call) n)) := fun s => do
  let calls ← get
  set (calls ++ [⟨label, s, none⟩])
  let r ← body s
  modify fun cs => cs.modify calls.length fun c => { c with outcome := some r.isSuccess }
  pure r

namespace Probe

/-- The label of a recording wrapper. -/
structure Label where
  text : Text

/-- A leaf of a probe. -/
inductive Leaf where
  /-- Answers from the script in the given place. -/
  | scripted (place : Nat)
  /-- Has a written form and no rule. -/
  | bare (written : Text)

instance : Written Label where
  written l := Pattern.call "Trace".toList l.text
  formName _ := "Trace".toList

instance : Written Leaf where
  written
    | .scripted _ => "Stub()".toList
    | .bare s => s
  formName
    | .scripted _ => "Stub".toList
    | .bare _ => "Lexer".toList

/-- The leaf of a combinator that joins its parts by no rule. -/
def bareCombinator (parts : List (Pattern Leaf Label)) :
    Except BuildError (Pattern Leaf Label) := do
  let ps ← requireParts parts
  pure (.foreign (.bare (Pattern.call "Combinator".toList
    (Pattern.bracketed (Pattern.writtenAll ps)))))

/-- Why the run of a probe ended early. -/
inductive Fault where
  /-- A repetition stalled. -/
  | stalled (e : Stall Leaf Label)
  /-- A lexer without a rule was run. -/
  | noRule

/-- What is said about it; of a lexer without a rule there is nothing to say. -/
def Fault.message : Fault → Text
  | stalled e => e.message
  | noRule => []

/-- The answers that the scripted leaves have left. -/
abbrev Scripts := List (List Result)

/-- Probes run with a record of calls, which outlives an early end, and with their scripts. -/
abbrev Run := ExceptT Fault (StateT (List Call) (StateM Scripts))

/-- The next answer of the script in a place; the last answer stays. -/
def answer (place : Nat) : Matcher Run := fun s => do
  let scripts ← getThe Scripts
  match scripts[place]? with
  | some (r :: r' :: rest) =>
    set (scripts.set place (r' :: rest))
    pure r
  | some [r] => pure r
  | _ => pure (.fail s)

/-- Leaves answer or have no rule, and wrappers record. -/
def client : Client Leaf Label Fault Run where
  leaf
    | .scripted place => answer place
    | .bare _ => fun _ => throw .noRule
  wrap l := record l.text
  stalled := .stalled

end Probe

/-- A pattern of recording wrappers and scripted leaves, with the scripts it begins with. -/
structure Probe where
  pattern : Pattern Probe.Leaf Probe.Label
  scripts : Probe.Scripts

namespace Probe

/-- The runs of a probe on streams in order, each with the calls it recorded. The scripts go on
from one stream to the next. -/
def runAll (p : Probe) (streams : List Text) : List (Except Fault Result × List Call) :=
  ((streams.mapM fun s => p.pattern.matcher client s [] : StateM Scripts _).run p.scripts).1

end Probe

end LexerCombinators
