import Ktsense.Foundation.Loop
import Ktsense.Foundation.OrderedMap
import Ktsense.Foundation.Text
import Ktsense.Lsp.Client
import Ktsense.Core.Rank
import Ktsense.Core.Scc
import Ktsense.Core.SccWalk
import Ktsense.Core.Attribution
import Ktsense.Core.RenderTrace
import Ktsense.Core.ContextSpending
import Ktsense.Core.MapBudget
import Ktsense.Core.PaidContent
import Ktsense.Core.PaidMap
import Ktsense.Core.MapOrder
import Ktsense.Core.MapMonotone
import Ktsense.Core.ImportLevels
import Ktsense.Core.TraceFilter
import Ktsense.Core.Outline
import Ktsense.Core.JavaScan
import Ktsense.Cli.Outcome
import Ktsense.Cli.Symbols
import Ktsense.Cli.Locate
import Ktsense.Cli.IgnoreFilter
import Ktsense.Cli.Cache
import Ktsense.Cli.StartClaim
import Ktsense.Daemon.Wire
import Ktsense.Cli.Routing
import Ktsense.Daemon.FrameStream
import Ktsense.Daemon.SocketPath
import Ktsense.Lsp.Residue
import Ktsense.Lsp.ReadCuts
import Ktsense.Cli.ServeLoop
import Ktsense.Core.MapInjection
import Ktsense.Core.ContextInjection
import Ktsense.Cli.JavaSymbols
import Ktsense.Mcp.TraceCitations
import Ktsense.Cli.AmbiguityHint
import Ktsense.Core.Enclosure
import Ktsense.Core.Implementors
import Ktsense.Core.MapAccounting
import Ktsense.Core.JavaTokens
import Ktsense.Core.JavaScopes
import Ktsense.Core.JavaBlocks
import Ktsense.Core.JavaPending
import Ktsense.Core.JavaFields
import Ktsense.Core.JavaInsertion
import Ktsense.Core.JavaAnnotations
import Ktsense.Core.MatchWindows
import Ktsense.Foundation.LossyUtf8
import Ktsense.Lsp.FileUris
import Ktsense.Foundation.Occurrences
import Ktsense.Cli.Positions
import Ktsense.Lsp.NameColumns
import Ktsense.Cli.TextRefs
import Ktsense.Cli.JavaSites
import Ktsense.Core.JavaLexicon
import Ktsense.Core.NothingMatched
import Ktsense.Cli.CallerLevels
import Ktsense.Core.FilterCounts
import Ktsense.Core.OutlineAccounting
import Ktsense.Foundation.FirstSeen
import Ktsense.Mcp.CitationCap
import Ktsense.Mcp.TextCitations
import Ktsense.Foundation.Dot
import Ktsense.Core.DepsDot
import Ktsense.Foundation.Listing
import Ktsense.Core.TextListings
import Ktsense.Core.Layout
import Ktsense.Core.LayoutLexemes
import Ktsense.Core.LayoutFold
import Ktsense.Foundation.Thinning
import Ktsense.Core.KotlinLiterals
import Ktsense.Core.LayoutPlaces
import Ktsense.Core.LayoutLiterals
import Ktsense.Foundation.Meeting
import Ktsense.Core.LayoutTwice
import Ktsense.Core.LayoutBrackets
import Ktsense.Core.LayoutSettled
import Ktsense.Foundation.RankFlow
import Ktsense.Core.RankConservation
import Ktsense.Foundation.FailingLoop
import Ktsense.Core.JavaIndices
import Ktsense.Core.JavaAlignment
import Ktsense.Core.JavaWalk
import Ktsense.Foundation.Rose
import Ktsense.Foundation.Words
import Ktsense.Foundation.Tally
import Ktsense.Syntax.Tree
import Ktsense.Syntax.Extract
import Ktsense.Syntax.ExtractShape
import Ktsense.Syntax.Truncation
import Ktsense.Syntax.Local
import Ktsense.Syntax.Annotations
import Ktsense.Cli.Identifiers
import Ktsense.Mcp.WarmEngines
import Ktsense.Cli.StartLifecycle
import Ktsense.Daemon.Session
import Ktsense.Cli.WorkspaceScan
import Ktsense.Syntax.Classify
import Ktsense.Foundation.Fnv
import Ktsense.Daemon.Placement
import Ktsense.Cli.TraceRun
import Ktsense.Cli.IndexWait
import Ktsense.Cli.Grep
import Ktsense.Cli.WarmDeclarations
import Ktsense.Cli.SymbolSearch
import Ktsense.Cli.Passthrough
import Ktsense.Mcp.CheckTool
import Ktsense.Cli.SelectCandidate
import Ktsense.Cli.RoutedTrace
