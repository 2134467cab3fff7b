import HardcodedText.Main
import HardcodedText.QuickFix
import HardcodedText.Session.Handlers
import HardcodedText.Proofs.Scanner.Cursor
import HardcodedText.Proofs.Scanner.Enclosure
import HardcodedText.Proofs.Scanner.Lookahead
import HardcodedText.Proofs.Scanner.Layout
import HardcodedText.Proofs.Scanner.Spans
import HardcodedText.Proofs.Scanner.Literals
import HardcodedText.Proofs.Scanner.Cut
import HardcodedText.Proofs.Scanner.Blanking
import HardcodedText.Proofs.ArgumentList
import HardcodedText.Proofs.CallSite
import HardcodedText.Proofs.Match
import HardcodedText.Proofs.Detection
import HardcodedText.Proofs.Filter.Widening
import HardcodedText.Proofs.Filter.Extension
import HardcodedText.Proofs.Excerpt
import HardcodedText.Proofs.NestedCalls
import HardcodedText.Proofs.Text
import HardcodedText.Proofs.Utf8
import HardcodedText.Proofs.Workspace.Uri
import HardcodedText.Proofs.Workspace.Walk
import HardcodedText.Proofs.Session.Debouncer
import HardcodedText.Proofs.Session.Shown
import HardcodedText.Proofs.Session.Effect
import HardcodedText.Proofs.Session.Current
import HardcodedText.Proofs.Session.Scan
import HardcodedText.Proofs.Comment
import HardcodedText.Proofs.Silencing
import HardcodedText.Proofs.CommandLine.Classify
import HardcodedText.Proofs.Directive.Cell
import HardcodedText.Proofs.Directive.Context
import HardcodedText.Proofs.Directive.Head
import HardcodedText.Proofs.Directive.Denial
import HardcodedText.Proofs.Directive.Parameter
import HardcodedText.Proofs.Directive.Mask
import HardcodedText.Proofs.Directive.Arguments
import HardcodedText.Proofs.Scanner.Parentheses
import HardcodedText.Proofs.Directive.Source
import HardcodedText.Proofs.Directive.Candidates
import HardcodedText.Proofs.Scanner.CodeSteps
import HardcodedText.Proofs.InertSpans
import HardcodedText.Proofs.Balance
import HardcodedText.Proofs.LiteralGrammar
import HardcodedText.Proofs.ArgumentExtraction
import HardcodedText.Proofs.QuickFix.Insertion
import HardcodedText.Proofs.QuickFix.LineFix
import HardcodedText.Proofs.Scanner.Boundary
import HardcodedText.Proofs.Scanner.Insertion
import HardcodedText.Proofs.FirstLines
import HardcodedText.Proofs.QuickFix.Header
import HardcodedText.Proofs.QuickFix.Markers
import HardcodedText.Proofs.QuickFix.DocumentLines
import HardcodedText.Proofs.Session.CodeAction
import HardcodedText.Proofs.NamedToken
import HardcodedText.Proofs.MaskedText
import HardcodedText.Proofs.Inference
import HardcodedText.Proofs.Filter.Prose
import HardcodedText.Proofs.Filter.Interpolation
import HardcodedText.Proofs.Filter.Mask
import HardcodedText.Proofs.DeniedContext
import HardcodedText.Proofs.Scanner.Moments
import HardcodedText.Proofs.Filter.InterpolationSpans
import HardcodedText.Proofs.KnownCall
import HardcodedText.Proofs.Precedence
import HardcodedText.Proofs.Pattern.Search
import HardcodedText.Proofs.Config.Catalog
import HardcodedText.Proofs.Filter.Overrides
import HardcodedText.Proofs.Workspace.Order
import HardcodedText.Proofs.Workspace.Isolation
import HardcodedText.Proofs.Config.Refusal
import HardcodedText.Proofs.Config.Load
import HardcodedText.Proofs.Config.NameList
import HardcodedText.Proofs.Session.Recording
import HardcodedText.Proofs.Scanner.Registers
import HardcodedText.Proofs.Scanner.Progress
