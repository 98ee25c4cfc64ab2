import CodeAtlas.Action
import CodeAtlas.Change.Event
import CodeAtlas.Change.Kind
import CodeAtlas.Change.Queue
import CodeAtlas.Command.Arguments
import CodeAtlas.Command.Basic
import CodeAtlas.Command.Report
import CodeAtlas.Command.Run
import CodeAtlas.Digest.Sha256
import CodeAtlas.Error
import CodeAtlas.Extraction.Basic
import CodeAtlas.Extraction.Finding
import CodeAtlas.Extraction.Score
import CodeAtlas.Files.Basic
import CodeAtlas.Files.Ignore
import CodeAtlas.Files.Layout
import CodeAtlas.Files.Update
import CodeAtlas.Files.Walk
import CodeAtlas.Glob.Basic
import CodeAtlas.Glob.BytePattern
import CodeAtlas.Glob.Parser
import CodeAtlas.Graph.CallGraph
import CodeAtlas.Graph.Codec
import CodeAtlas.Index.Build
import CodeAtlas.Index.CallTable
import CodeAtlas.Index.CallTargets
import CodeAtlas.Index.Live
import CodeAtlas.Index.Merge
import CodeAtlas.Index.Metadata
import CodeAtlas.Index.Project
import CodeAtlas.Index.Snapshot
import CodeAtlas.Index.SymbolTable
import CodeAtlas.Index.Workspace
import CodeAtlas.Json.Basic
import CodeAtlas.Json.Parser
import CodeAtlas.Json.Printer
import CodeAtlas.Json.Token
import CodeAtlas.Language
import CodeAtlas.Logging
import CodeAtlas.Main
import CodeAtlas.Path
import CodeAtlas.Search.Document
import CodeAtlas.Search.Service
import CodeAtlas.Settings.Basic
import CodeAtlas.Settings.Codec
import CodeAtlas.Settings.Environment
import CodeAtlas.Settings.Load
import CodeAtlas.Settings.Value
import CodeAtlas.Storage.Document
import CodeAtlas.Storage.IndexDirectory
import CodeAtlas.Storage.Snapshots
import CodeAtlas.Symbol.Basic
import CodeAtlas.Symbol.Codec
import CodeAtlas.Symbol.Id
import CodeAtlas.Symbol.Kind
import CodeAtlas.SyntaxTree.Basic
import CodeAtlas.SyntaxTree.Codec
import CodeAtlas.SyntaxTree.Declarator
import CodeAtlas.SyntaxTree.Preorder
import CodeAtlas.Text.Ascii
import CodeAtlas.Text.Blank
import CodeAtlas.Text.Decimal
import CodeAtlas.Text.Lines
import CodeAtlas.Text.Search
import CodeAtlas.Text.Utf8
import CodeAtlas.Text.WordChar
import CodeAtlas.Timestamp
import CodeAtlas.Toml.Document
import CodeAtlas.Toml.Parser
import CodeAtlas.Toml.Quoted
import CodeAtlas.Toml.Scalar
import CodeAtlas.Tool.CrossReference
import CodeAtlas.Tool.LanguageServer.Framing
import CodeAtlas.Tool.LanguageServer.Session
import CodeAtlas.Tool.LanguageServer.Symbols
import CodeAtlas.Tool.Parameters
import CodeAtlas.Tool.Run
import CodeAtlas.Tool.Tags
import CodeAtlas.Word
import CodeAtlas.Proofs.Graph.Adjacency
import CodeAtlas.Proofs.Graph.EdgeSet
import CodeAtlas.Proofs.Graph.Search
import CodeAtlas.Proofs.Graph.Saturation
import CodeAtlas.Proofs.Index.SymbolTable
import CodeAtlas.Proofs.Index.CallTable
import CodeAtlas.Proofs.Index.CallReferences
import CodeAtlas.Proofs.Index.SourceFiles
import CodeAtlas.Proofs.Index.Incremental
import CodeAtlas.Proofs.Files.Locate
import CodeAtlas.Proofs.Files.Removal
import CodeAtlas.Proofs.Storage.Deletion
import CodeAtlas.Proofs.Files.PlacePaths
import CodeAtlas.Proofs.Files.RelativePaths
import CodeAtlas.Proofs.Files.WellFormed
import CodeAtlas.Proofs.Files.Walk
import CodeAtlas.Proofs.Action
import CodeAtlas.Proofs.Files.Documents
import CodeAtlas.Proofs.Storage.Persist
import CodeAtlas.Proofs.Storage.Saving
import CodeAtlas.Proofs.Extraction.Visits
import CodeAtlas.Proofs.Extraction.WellFormed
import CodeAtlas.Proofs.Extraction.Numbering
import CodeAtlas.Proofs.Extraction.Running
import CodeAtlas.Proofs.SyntaxTree.Comments
import CodeAtlas.Proofs.SyntaxTree.Callees
import CodeAtlas.Proofs.Extraction.Uncommented
import CodeAtlas.Proofs.Extraction.Comparison
import CodeAtlas.Proofs.Extraction.MistakenComments
import CodeAtlas.Proofs.Extraction.Comments
import CodeAtlas.Proofs.LanguageServer.Stream
import CodeAtlas.Proofs.Index.Merging
import CodeAtlas.Proofs.Index.FullBuild
import CodeAtlas.Proofs.Change.Queue
import CodeAtlas.Proofs.Index.Batch
import CodeAtlas.Proofs.Index.ProjectChange
import CodeAtlas.Proofs.Index.Tracking
import CodeAtlas.Proofs.Index.Follow
import CodeAtlas.Proofs.Index.Reload
import CodeAtlas.Proofs.Json.Lexing
import CodeAtlas.Proofs.Json.RoundTrip
import CodeAtlas.Proofs.Storage.Readback
import CodeAtlas.Proofs.Files.Growth
import CodeAtlas.Proofs.Storage.Writing
import CodeAtlas.Proofs.Storage.Standing
import CodeAtlas.Proofs.Storage.Replacing
import CodeAtlas.Proofs.Storage.Interruption
import CodeAtlas.Proofs.Storage.Overlapping
import CodeAtlas.Proofs.Search.Store
import CodeAtlas.Proofs.Index.InStep
import CodeAtlas.Proofs.Index.Forgetting
import CodeAtlas.Proofs.Index.Reachable
import CodeAtlas.Proofs.Index.PendingDeletion
import CodeAtlas.Proofs.Index.FirstSeen
import CodeAtlas.Proofs.Storage.SavedSnapshot
import CodeAtlas.Proofs.Storage.Description
import CodeAtlas.Proofs.Index.ForcedBuild
import CodeAtlas.Proofs.Files.Extension
import CodeAtlas.Proofs.Storage.Beside
import CodeAtlas.Proofs.Storage.Hosting
import CodeAtlas.Proofs.Index.OtherProjects
import CodeAtlas.Proofs.Index.Interference
import CodeAtlas.Proofs.Index.StoredSymbols
import CodeAtlas.Proofs.Change.History
import CodeAtlas.Proofs.Files.Listing
import CodeAtlas.Proofs.Search.Sharing
import CodeAtlas.Proofs.Storage.Cleanup
import CodeAtlas.Proofs.Index.Recorded
import CodeAtlas.Proofs.Index.TakingTurns
import CodeAtlas.Proofs.Index.LoadedCounts
import CodeAtlas.Proofs.Index.Interleaving
import CodeAtlas.Proofs.Storage.Failing
import CodeAtlas.Proofs.Index.FailedBuild
import CodeAtlas.Proofs.LanguageServer.Conversation
import CodeAtlas.Proofs.LanguageServer.Attribution
import CodeAtlas.Proofs.Text.Trimming
import CodeAtlas.Proofs.Tool.Parameters
import CodeAtlas.Proofs.Change.Batches
import CodeAtlas.Proofs.Extraction.Places
import CodeAtlas.Proofs.Extraction.Sources
import CodeAtlas.Proofs.Extraction.Variables
import CodeAtlas.Proofs.Extraction.Calls
import CodeAtlas.Proofs.Extraction.Scores
import CodeAtlas.Proofs.Extraction.Types
import CodeAtlas.Proofs.Extraction.Prototypes
import CodeAtlas.Proofs.Extraction.FunctionParameters
import CodeAtlas.Proofs.Text.Words
import CodeAtlas.Proofs.Text.Search
import CodeAtlas.Proofs.Tool.CalledNames
import CodeAtlas.Proofs.Tool.Contexts
import CodeAtlas.Proofs.Tool.Signatures
import CodeAtlas.Proofs.LanguageServer.Items
import CodeAtlas.Proofs.LanguageServer.Bodies
import CodeAtlas.Proofs.Text.Utf8
import CodeAtlas.Proofs.LanguageServer.Framing
import CodeAtlas.Proofs.Tool.TagStream
import CodeAtlas.Proofs.Tool.SearchPatterns
import CodeAtlas.Proofs.SyntaxTree.Placement
import CodeAtlas.Proofs.SyntaxTree.Found
import CodeAtlas.Proofs.Extraction.Counts
import CodeAtlas.Proofs.Extraction.Stepwise
import CodeAtlas.Proofs.Extraction.InBounds
import CodeAtlas.Proofs.Text.Lines
import CodeAtlas.Proofs.Symbol.Content
