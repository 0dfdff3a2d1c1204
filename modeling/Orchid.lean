import Orchid.Lib.KeyedMap
import Orchid.Lib.Forest
import Orchid.Lib.Subtree
import Orchid.Crdt.Rga
import Orchid.Crdt.Walk
import Orchid.Crdt.Convergence
import Orchid.Crdt.Intention
import Orchid.Document.Model
import Orchid.Lib.ByteText
import Orchid.Document.Cursor
import Orchid.Document.CursorOrder
import Orchid.Document.CellSteps
import Orchid.Lib.Enumerate
import Orchid.Document.FlatText
import Orchid.Document.Offsets
import Orchid.Document.Undo
import Orchid.Lib.History
import Orchid.Lib.Grouped
import Orchid.Document.Inverse
import Orchid.Document.TextEdit
import Orchid.Document.Texts
import Orchid.Document.StyleEdit
import Orchid.Document.UndoRuns
import Orchid.Document.CleanFlag
import Orchid.Document.TextChange
import Orchid.Document.Anchors
import Orchid.Content.ChunkStore
import Orchid.Content.Accounting
import Orchid.Content.Repair
import Orchid.Format.Framing
import Orchid.Crdt.Wire
import Orchid.Crdt.Traversal
import Orchid.Crdt.Freshness
import Orchid.Lib.Canonical
import Orchid.Format.Embedding
import Orchid.Format.Accepted
import Orchid.Format.Region
import Orchid.Format.Reader
import Orchid.Format.Bounds
import Orchid.Format.Linked
import Orchid.Format.RoundTrip
import Orchid.Format.Sealed
import Orchid.Format.Writer
import Orchid.Base.Text
import Orchid.Command.Shortcut
import Orchid.Command.Profile
import Orchid.Command.Registry
import Orchid.Lib.Along
import Orchid.Command.VerbIndex
import Orchid.Command.Rebinding
import Orchid.Command.Parser
import Orchid.Command.Safety
import Orchid.Command.Rendering
import Orchid.Widgets.Group
import Orchid.Widgets.ActiveMember
import Orchid.Lib.Spiral
import Orchid.Widgets.Layout
import Orchid.Widgets.Membership
import Orchid.Widgets.Placement
import Orchid.Widgets.Growth
import Orchid.Lib.Strip
import Orchid.Document.TableEdit
import Orchid.Document.TableMerge
import Orchid.Document.ParagraphEdit
import Orchid.Document.CellImages
import Orchid.Document.ParagraphCut
import Orchid.Lib.TextSearch
import Orchid.Document.PlainMerge
import Orchid.Document.StyleRange
import Orchid.Document.StyleSelection
import Orchid.Document.Atomic
import Orchid.Document.AtomicStyle
import Orchid.Document.AtomicStack
import Orchid.Document.Deletion
import Orchid.Document.EnterBackspace
import Orchid.Job.Queue
import Orchid.Lib.Trace
import Orchid.Job.SingleFlight
import Orchid.Job.Coalescing
import Orchid.Widgets.Manager
import Orchid.Widgets.FloatingWindow
import Orchid.Widgets.Closing
import Orchid.Widgets.FailedClose
import Orchid.Widgets.Workspaces
import Orchid.Terminal.Graphics
import Orchid.Terminal.Grid
import Orchid.Terminal.Emulator
import Orchid.Terminal.Invariant
import Orchid.Terminal.Chunking
import Orchid.Terminal.Damage
import Orchid.Calc.Engine
import Orchid.Calc.Typing
import Orchid.Calc.Expression
import Orchid.Calc.Precedence
import Orchid.Fs.Normal
import Orchid.Fs.Laws
import Orchid.Sheet.Formula
import Orchid.Sheet.Reference
import Orchid.Sheet.Shift
import Orchid.Lib.PathTree
import Orchid.Storage.History
import Orchid.Event.Channel
import Orchid.Event.Delivery
import Orchid.Content.Ingest
import Orchid.Content.References
import Orchid.Reveal.Manager
import Orchid.Reveal.Tidiness
import Orchid.Calendar.Ics
import Orchid.Calendar.Escaping
import Orchid.Calendar.Reading
import Orchid.Calendar.Dates
import Orchid.Calendar.RoundTrip
import Orchid.Search.Ann
import Orchid.Search.Engine
import Orchid.Search.Lockstep
import Orchid.Calendar.Sync
import Orchid.Calendar.SyncRuns
import Orchid.Lib.Chunks
import Orchid.Fs.Encode
import Orchid.Fs.Split
import Orchid.Terminal.Motion
import Orchid.Terminal.Layout
import Orchid.Terminal.LayoutRuns
import Orchid.Terminal.Selection
import Orchid.Terminal.ImageRows
import Orchid.Input.Gesture
import Orchid.Input.Contacts
import Orchid.Lib.Occurrences
import Orchid.Terminal.Search
import Orchid.Calendar.Merging
import Orchid.Widgets.BatchRename
import Orchid.Fs.Compare
import Orchid.Content.ManagedFolders
import Orchid.Fs.TagRuns
import Orchid.Fs.Sync
import Orchid.Fs.Copying
import Orchid.Archive.Views
import Orchid.Archive.Edits
import Orchid.Search.Scheduler
import Orchid.Search.Query
import Orchid.Lib.Ranking
import Orchid.Search.Hybrid
import Orchid.Reveal.Confinement
import Orchid.Lib.Varint
import Orchid.Storage.WidgetRows
import Orchid.Storage.Migration
import Orchid.Event.Bus
import Orchid.Event.BusSteps
import Orchid.Event.BusRuns
import Orchid.Lib.LineColumn
import Orchid.Viewer.FindReplace
import Orchid.Viewer.Replacing
import Orchid.Viewer.ReplaceRuns
import Orchid.Lib.Binary64
import Orchid.Sheet.WholeNumbers
import Orchid.Sheet.WorkDays
import Orchid.Sheet.Address
import Orchid.Sheet.Spill
import Orchid.Sheet.SharedStrings
import Orchid.Sheet.Arguments
import Orchid.Sheet.Expression
import Orchid.Lib.Glob
import Orchid.Search.GlobPattern
import Orchid.Search.IndexScope
import Orchid.Document.WordBoundary
import Orchid.Terminal.Sixel
import Orchid.Lib.Reordering
import Orchid.Player.Queue
import Orchid.Player.Listening
import Orchid.Action.Dispatcher
import Orchid.Sheet.Meaning
import Orchid.Mail.Threads
import Orchid.Files.VisitLog
import Orchid.Lib.CharBoundary
import Orchid.Viewer.SpanDiff
import Orchid.Viewer.TextUndo
import Orchid.Viewer.UndoRuns
