import Warp.Remote.RequestId
import Warp.Display.OutputRun
import Warp.Diff.V4aDiffs
import Warp.Merkle.RepositoryRun
import Warp.Grid.Reflow
import Warp.Grid.OffsetRoundTrip
import Warp.Proxy.ToolTrip
import Warp.Proxy.AccumulatorRun
import Warp.Proxy.Streaming
import Warp.Proxy.Pairing
import Warp.Sync.Accounting
import Warp.RepoMetadata.Buffering
import Warp.Remote.FileTreeSnapshot
import Warp.Blocklist.LineContinuations
import Warp.Completer.Decomposition
import Warp.Util.ShellEscape
import Warp.Util.StandardizedPath
import Warp.Vim.FsaSafety
import Warp.Vim.InsertSession
import Warp.CodeReview.DiffStateAnswers
import Warp.Ansi.Totality
import Warp.Remote.BufferAnswers
import Warp.Remote.BufferConvergence
import Warp.Tmux.Recovery
import Warp.Ansi.PrimaryPane
import Warp.Editor.FragmentId
import Warp.SumTree.Edit
import Warp.Diff.SearchExact
import Warp.Merkle.Reported
import Warp.Grid.AgnosticPoint
import Warp.Grid.BracketSearch
import Warp.Editor.LayoutRun
import Warp.Editor.Anchors
import Warp.Editor.Selections
import Warp.Merkle.Snapshot
import Warp.Editor.Content.Slices
import Warp.Editor.Content.Bytes
import Warp.Completer.FlagSplit
import Warp.Completer.Resolvers
import Warp.Completer.FlagSplit
import Warp.CodeReview.GitListings
