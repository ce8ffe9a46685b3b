import Backstitch.Auth.CancelWait
import Backstitch.Auth.RedirectAnswers
import Backstitch.Auth.RedirectServer
import Backstitch.Auth.ServerManager
import Backstitch.Branches.BranchPicker
import Backstitch.Branches.BranchTree
import Backstitch.Branches.Converge
import Backstitch.Branches.ForkPoints
import Backstitch.Branches.LockOrder
import Backstitch.Branches.Locks
import Backstitch.Branches.Polls
import Backstitch.Branches.ShadowGate
import Backstitch.Branches.SyncStates
import Backstitch.Branches.WakeUps
import Backstitch.Diff.DiffEnds
import Backstitch.Diff.DiffReturns
import Backstitch.Diff.InstanceTypes
import Backstitch.Diff.ListedChanges
import Backstitch.Diff.ProjectDiffer
import Backstitch.Diff.PropChanges
import Backstitch.Diff.SceneDiffer
import Backstitch.Diff.SplitView
import Backstitch.Diff.VariantText
import Backstitch.Document.BranchDocument
import Backstitch.Document.CommitEntries
import Backstitch.Document.DocClients
import Backstitch.Document.HashIndex
import Backstitch.Document.LinkedFiles
import Backstitch.Document.Rehashes
import Backstitch.Document.SceneDocument
import Backstitch.Document.SceneRuns
import Backstitch.Document.StoredHashes
import Backstitch.Helpers.HistoryPath
import Backstitch.Helpers.HistoryRef
import Backstitch.Library.CausalOrder
import Backstitch.Library.Cycles
import Backstitch.Library.FileTree
import Backstitch.Library.Freshen
import Backstitch.Library.HashMap
import Backstitch.Library.History
import Backstitch.Library.Numbering
import Backstitch.Library.OpSet
import Backstitch.Library.Reach
import Backstitch.Library.Registers
import Backstitch.Library.Run
import Backstitch.Library.RustText
import Backstitch.Library.RwLock
import Backstitch.Library.Semaphore
import Backstitch.Library.SortedText
import Backstitch.Library.StableSort
import Backstitch.Library.System
import Backstitch.Library.TopDown
import Backstitch.Library.UnixPath
import Backstitch.Library.Watch
import Backstitch.Parser.ConnectionKeys
import Backstitch.Parser.Determinism
import Backstitch.Parser.DistinctNames
import Backstitch.Parser.FirstPass
import Backstitch.Parser.Hydrate
import Backstitch.Parser.NodePaths
import Backstitch.Parser.Outline
import Backstitch.Parser.Parse
import Backstitch.Parser.ParseEnds
import Backstitch.Parser.ParseTree
import Backstitch.Parser.ParsedNodes
import Backstitch.Parser.ReadWritten
import Backstitch.Parser.Replicas
import Backstitch.Parser.RoundTrip
import Backstitch.Parser.Scene
import Backstitch.Parser.SectionReads
import Backstitch.Parser.Serialize
import Backstitch.Parser.TreePaths
import Backstitch.Parser.TreeTrip
import Backstitch.Parser.TreeVisits
import Backstitch.Parser.Trip
import Backstitch.Parser.TypedNodes
import Backstitch.Parser.WellFormed
import Backstitch.Parser.Writable
import Backstitch.Parser.WrittenAgain
import Backstitch.Parser.WrittenHeadings
import Backstitch.Parser.WrittenOnce
import Backstitch.Parser.WrittenSections
import Backstitch.Project.ChangeIngester
import Backstitch.Project.Checkout
import Backstitch.Project.CheckoutMatches
import Backstitch.Project.CheckoutPaths
import Backstitch.Project.CheckoutRequests
import Backstitch.Project.CommitDiff
import Backstitch.Project.CommitRetries
import Backstitch.Project.Config
import Backstitch.Project.ConfigCache
import Backstitch.Project.FailedSets
import Backstitch.Project.FileBackedToml
import Backstitch.Project.HashCache
import Backstitch.Project.KeptContents
import Backstitch.Project.LocalPaths
import Backstitch.Project.LoopSteps
import Backstitch.Project.MainThreadBlock
import Backstitch.Project.MergeBranch
import Backstitch.Project.PairedFiles
import Backstitch.Project.PeerWatcher
import Backstitch.Project.PreviewErrors
import Backstitch.Project.ProjectStarter
import Backstitch.Project.RemoteConnection
import Backstitch.Project.RevertPreview
import Backstitch.Project.ShownHistory
import Backstitch.Project.StoredBranch
import Backstitch.Project.SyncLoop
import Backstitch.Project.UndoneChanges
