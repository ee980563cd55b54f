import LexerCombinators.Report.Diagnostic

/-!
# Pending diagnostics

Diagnostics are collected while a program is scanned, and reported together: in the order of the
program, the first ten in full and the others by their number. Reporting empties the list and ends
the stage that reports with a `Failure`. The list is the state of `Reporting`, and it outlives a
failure.
-/

namespace LexerCombinators

/-- The stages that report. -/
inductive Stage where
  | lexer | scanner | combinator
deriving DecidableEq

/-- Why a stage ended without its value. -/
inductive Failure (φ : Type) where
  /-- A lexer ended early. -/
  | fault (e : φ)
  /-- A lexer of the named kind failed, and has no body to tell how far it got. -/
  | bodiless (formName : Text)
  /-- The pending diagnostics, in order. -/
  | reported (stage : Stage) (ds : List Diagnostic)

/-- The diagnostics that wait to be reported, in the order of their registration. -/
abbrev Pending := List Diagnostic

/-- Computations that register and report diagnostics. -/
abbrev Reporting (φ : Type) := ExceptT (Failure φ) (StateM Pending)

/-! ### Reports -/

/-- How many diagnostics a report shows in full. -/
def maxShown : Nat := 10

/-- The line that counts the diagnostics which are not shown. -/
def omission (omitted : Nat) : Text :=
  "\n\nShowing ".toList ++ Text.decimal maxShown ++ " errors, omitting ".toList ++
    Text.decimal omitted ++ " error".toList ++ (if 1 < omitted then ['s'] else []) ++ "...".toList

/-- The diagnostics that are shown in full, with an empty line between them. -/
def shownText (ds : List Diagnostic) : Text :=
  List.intercalate "\n\n".toList ((ds.take maxShown).map Diagnostic.shown)

/-- The text of a report. -/
def reportText (ds : List Diagnostic) : Text :=
  shownText ds ++ if maxShown < ds.length then omission (ds.length - maxShown) else []

/-- Diagnostics in the order of the program; those that start in one place keep their order. -/
def sorted (ds : List Diagnostic) : List Diagnostic := ds.mergeSort Diagnostic.startsBefore

/-- What is said about a failure. -/
def Failure.message {φ : Type} (faultMessage : φ → Text) : Failure φ → Text
  | fault e => faultMessage e
  | bodiless k => '\'' :: (k ++ "' object has no attribute 'lexer'".toList)
  | reported _ ds => reportText ds

/-! ### Operations on the list -/

variable {φ : Type}

/-- Adds a diagnostic behind the others. -/
def register (d : Diagnostic) : Reporting φ Unit := modify (· ++ [d])

/-- Puts the pending diagnostics in the order of the program. -/
def sortPending : Reporting φ Unit := modify sorted

/-- Forgets the pending diagnostics. -/
def clearPending : Reporting φ Unit := set ([] : Pending)

/-- Reports the pending diagnostics and forgets them, unless there is nothing to show. -/
def communicate (stage : Stage) : Reporting φ Unit := do
  sortPending
  let ds ← get
  unless (shownText ds).isEmpty do
    clearPending
    throw (.reported stage ds)

end LexerCombinators
