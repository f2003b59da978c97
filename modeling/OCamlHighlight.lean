import OCamlHighlight.Byte
import OCamlHighlight.Token
import OCamlHighlight.ScanState
import OCamlHighlight.Word
import OCamlHighlight.Lexeme.Rule
import OCamlHighlight.Lexeme.Extent
import OCamlHighlight.Lexeme.Line
import OCamlHighlight.Fault
import OCamlHighlight.LineBuffer
import OCamlHighlight.Cursor
import OCamlHighlight.LineScanner
import OCamlHighlight.Span
import OCamlHighlight.Highlighter
import OCamlHighlight.LineStates
import OCamlHighlight.BufferedHighlighter
import OCamlHighlight.Text.Decimal
import OCamlHighlight.Text.Ranges
import OCamlHighlight.Text.Trim
import OCamlHighlight.Text.GraphemeExtend
import OCamlHighlight.Text.Unprintable
import OCamlHighlight.Text.Quoted
import OCamlHighlight.EditorConfig
import OCamlHighlight.EditorSession
import OCamlHighlight.Language
import OCamlHighlight.Theme
import OCamlHighlight.Report.TokenDump
import OCamlHighlight.Report.Painting
import OCamlHighlight.Report.ModeReport
import OCamlHighlight.SourceFile
import OCamlHighlight.Command
import OCamlHighlight.Main
import OCamlHighlight.Proofs.CachedStates
import OCamlHighlight.Proofs.BufferedStates
import OCamlHighlight.Proofs.EditingSession
import OCamlHighlight.Proofs.PendingChanges
import OCamlHighlight.Proofs.LiteralBody
import OCamlHighlight.Proofs.ByteTags
import OCamlHighlight.Proofs.CheckedCursor
import OCamlHighlight.Proofs.CheckedScan
import OCamlHighlight.Proofs.JoinedLines
import OCamlHighlight.Proofs.LineTotality
import OCamlHighlight.Proofs.ConsistentState
import OCamlHighlight.Proofs.DriverAgreement
import OCamlHighlight.Proofs.LinePieces
import OCamlHighlight.Proofs.CutLines
import OCamlHighlight.Proofs.TerminalReading
import OCamlHighlight.Proofs.PaintedText
import OCamlHighlight.Proofs.PairCounter
import OCamlHighlight.Proofs.LexicalGrammar
import OCamlHighlight.Proofs.LongestLexemes
import OCamlHighlight.Proofs.DumpReading
import OCamlHighlight.Proofs.DumpedText
import OCamlHighlight.Proofs.SeveralFiles
import OCamlHighlight.Proofs.StringEnd
import OCamlHighlight.Proofs.DirectiveHistory
import OCamlHighlight.Proofs.RescanCount
import OCamlHighlight.Proofs.WellFormedStates
import OCamlHighlight.Proofs.MergedSpans
import OCamlHighlight.Proofs.RawStringEnd
import OCamlHighlight.Proofs.LaterChanges
import OCamlHighlight.Proofs.PairBalance
import OCamlHighlight.Proofs.CommentedOut
import OCamlHighlight.Proofs.OptionTexts
import OCamlHighlight.Proofs.OptionHistory
import OCamlHighlight.Proofs.DisplayedOptions
import OCamlHighlight.Proofs.ModeArguments
import OCamlHighlight.Proofs.ReusedBuffer
import OCamlHighlight.Proofs.SentinelPeek
import OCamlHighlight.Proofs.WordLists
