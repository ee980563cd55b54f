import LexerCombinators.Main
import LexerCombinators.Session
import LexerCombinators.Proofs.Pattern.Lossless
import LexerCombinators.Proofs.Pattern.Repetition
import LexerCombinators.Proofs.Pattern.Consumption
import LexerCombinators.Proofs.Toy.ToolRun
import LexerCombinators.Proofs.Toy.Tokenization
import LexerCombinators.Proofs.Source.Lines
import LexerCombinators.Proofs.Source.Positions
import LexerCombinators.Proofs.Scanner.Placement
import LexerCombinators.Proofs.Toy.Extension
import LexerCombinators.Proofs.Toy.Respacing
import LexerCombinators.Proofs.Session.Balance
import LexerCombinators.Proofs.Scanner.Failures
import LexerCombinators.Proofs.Session.Isolation
import LexerCombinators.Proofs.Source.Breaks
import LexerCombinators.Proofs.Source.Offsets
import LexerCombinators.Proofs.Report.Highlight
import LexerCombinators.Proofs.Scanner.Unknown
import LexerCombinators.Proofs.Report.Arrangement
import LexerCombinators.Proofs.Toy.Agreement
import LexerCombinators.Proofs.Toy.Alternatives
import LexerCombinators.Proofs.Pattern.Written
import LexerCombinators.Proofs.Pattern.NestedRepetition
import LexerCombinators.Proofs.Toy.Printed
import LexerCombinators.Proofs.Source.Partition
import LexerCombinators.Proofs.Report.Window
import LexerCombinators.Proofs.Pattern.Calls
import LexerCombinators.Proofs.Pattern.Recording
