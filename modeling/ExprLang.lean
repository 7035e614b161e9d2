import ExprLang.Diagnostic.Report
import ExprLang.Parser
import ExprLang.Tree.Canonical
import ExprLang.Proofs.Parsing.Stream
import ExprLang.Proofs.Parsing.Forms
import ExprLang.Proofs.Parsing.Depth
import ExprLang.Proofs.Grammar.Derives
import ExprLang.Proofs.Grammar.Sound
import ExprLang.Proofs.Grammar.Complete
import ExprLang.Proofs.Grammar.Accepts
import ExprLang.Proofs.Printing.Coherent
import ExprLang.Proofs.Printing.Reread
import ExprLang.Proofs.Printing.Stable
import ExprLang.Proofs.Recovery.Brace
import ExprLang.Proofs.Scanning.Layout
import ExprLang.Proofs.Parsing.Lookahead
import ExprLang.Proofs.Parsing.Simulation
import ExprLang.Proofs.Parsing.Rounds
import ExprLang.Proofs.Nesting.Unbounded
import ExprLang.Proofs.Nesting.Transparent
import ExprLang.Proofs.Recovery.Account
import ExprLang.Proofs.Recovery.Spans
import ExprLang.Proofs.Recovery.Trace
import ExprLang.Proofs.Recovery.Partition
import ExprLang.Proofs.Scanning.Offsets
import ExprLang.Proofs.Recovery.Reports
import ExprLang.Proofs.Recovery.Confined
import ExprLang.Proofs.Recovery.InStep
import ExprLang.Proofs.Scanning.Concat
import ExprLang.Proofs.Grammar.Braces
import ExprLang.Proofs.Recovery.Seam
import ExprLang.Proofs.Recovery.Append
import ExprLang.Proofs.Scanning.Longest
import ExprLang.Proofs.Recovery.SameTokens
import ExprLang.Proofs.Recovery.Causal
import ExprLang.Proofs.Recovery.SourceOrder
import ExprLang.Proofs.Recovery.Continued
import ExprLang.Proofs.Scanning.Separated
import ExprLang.Proofs.Recovery.Objections
import ExprLang.Proofs.Recovery.Grounded
import ExprLang.Proofs.Nesting.Watched
import ExprLang.Proofs.Nesting.Budget
import ExprLang.Proofs.Parsing.Progress
import ExprLang.Proofs.Printing.Unambiguous
import ExprLang.Proofs.Reporting.Caret
import ExprLang.Proofs.Reporting.Lines
import ExprLang.Proofs.Parsing.Climbing
