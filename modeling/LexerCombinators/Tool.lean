import LexerCombinators.Scanner
import LexerCombinators.Text.Trim

/-!
# The tool

The tool tokenizes a program of the toy language. It prints one token on each line, or, if the
program cannot be tokenized, the report of all diagnostics, and ends with exit code 1.
-/

namespace LexerCombinators

/-- What a run of the tool leaves behind. -/
structure Output where
  code : Nat
  stdout : Text
  stderr : Text
deriving DecidableEq

/-- The output for the tokens of a program. -/
def Output.ofTokens (ts : List Token) : Output :=
  ⟨0, ts.flatMap fun t => t.written ++ ['\n'], []⟩

/-- The output for a report. -/
def Output.ofReport (ds : List Diagnostic) : Output := ⟨1, [], (reportText ds).trim ++ ['\n']⟩

/-- A run of the tool on a program. Reports of the scanner become output; nothing else is
caught. -/
def runTool (program : Text) : Reporting (Stall Empty Empty) Output :=
  tryCatch (Output.ofTokens <$> tokenize program) fun
    | .reported .scanner ds => pure (.ofReport ds)
    | e => throw e

/-- A run of the tool on bytes, each of which is one character. -/
def runToolOnBytes (bytes : List UInt8) : Reporting (Stall Empty Empty) Output :=
  runTool (Text.ofLatin1 bytes)

end LexerCombinators
