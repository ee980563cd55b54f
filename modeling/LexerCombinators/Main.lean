import LexerCombinators.Tool

/-!
# Command line

Reads a program of the toy language from standard input, one character to a byte, and writes what
the tool makes of it.
-/

open LexerCombinators

/-- All bytes of a stream, behind those in `done`. -/
partial def readBytes (stream : IO.FS.Stream) (done : ByteArray) : IO ByteArray := do
  let chunk ← stream.read 65536
  if chunk.isEmpty then pure done else readBytes stream (done ++ chunk)

/-- Runs the tool on standard input. -/
def main : IO UInt32 := do
  let bytes ← readBytes (← IO.getStdin) ByteArray.empty
  match ((runToolOnBytes bytes.toList).run.run []).1 with
  | .ok o =>
    (← IO.getStdout).putStr (String.ofList o.stdout)
    (← IO.getStderr).putStr (String.ofList o.stderr)
    pure (UInt32.ofNat o.code)
  | .error e =>
    (← IO.getStderr).putStr (String.ofList (e.message Stall.message))
    pure 1
