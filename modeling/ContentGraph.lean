import ContentGraph.Component.Link
import ContentGraph.Component.Record
import ContentGraph.Document.Record
import ContentGraph.Http.Service
import ContentGraph.Main
import ContentGraph.Store.Image
import ContentGraph.Store.Memory
import ContentGraph.Proofs.Json.NumberText
import ContentGraph.Proofs.Json.RoundTrip
import ContentGraph.Proofs.Json.NumberEnds
import ContentGraph.Proofs.Json.Reread
import ContentGraph.Proofs.Json.RereadFields
import ContentGraph.Proofs.Asset.Blob
import ContentGraph.Proofs.Asset.Undated
import ContentGraph.Proofs.Store.Mirror
import ContentGraph.Proofs.Store.Answers
import ContentGraph.Proofs.Store.Equivalence
import ContentGraph.Proofs.Run.Transcript
import ContentGraph.Proofs.Store.View
import ContentGraph.Proofs.Store.Views
import ContentGraph.Proofs.Store.History
import ContentGraph.Proofs.Store.Recall
import ContentGraph.Proofs.Store.Sight
import ContentGraph.Proofs.Store.Shelf
import ContentGraph.Proofs.Run.Turns
import ContentGraph.Proofs.Run.Contents
import ContentGraph.Proofs.Run.Accounting
import ContentGraph.Proofs.Run.RegistryHistory
import ContentGraph.Proofs.Run.SingleFlight
import ContentGraph.Proofs.Run.Locators
import ContentGraph.Proofs.Run.Prefixes
import ContentGraph.Proofs.Run.Interleaving
import ContentGraph.Proofs.Run.DanglingEdges
import ContentGraph.Proofs.Run.Cancellation
import ContentGraph.Proofs.Run.Chronicle
import ContentGraph.Proofs.Run.Finality
import ContentGraph.Proofs.Run.Waiting
import ContentGraph.Proofs.Run.Readings
import ContentGraph.Proofs.Run.Ledgers
import ContentGraph.Proofs.Run.Steady
import ContentGraph.Proofs.Run.Rerun
import ContentGraph.Proofs.Run.Ownership
import ContentGraph.Proofs.Run.Tandem
import ContentGraph.Proofs.Run.Commuting
import ContentGraph.Proofs.Store.Naming
import ContentGraph.Proofs.Store.Legible
import ContentGraph.Proofs.Store.Atomicity
import ContentGraph.Proofs.Store.LedgerTold
import ContentGraph.Proofs.Store.Paging
import ContentGraph.Proofs.Store.MissingTables
import ContentGraph.Proofs.Store.Reconnecting
import ContentGraph.Proofs.Http.Failure
import ContentGraph.Proofs.Http.Removal
import ContentGraph.Proofs.Http.LedgerAnswer
import ContentGraph.Proofs.Tsx.Walk
import ContentGraph.Proofs.Tsx.Preorder
import ContentGraph.Proofs.Tsx.Reading
import ContentGraph.Proofs.Tsx.Placement
import ContentGraph.Proofs.Component.Passages
import ContentGraph.Proofs.Component.PageText
import ContentGraph.Proofs.Path.Pieces
import ContentGraph.Proofs.Component.Resolution
import ContentGraph.Proofs.Component.Probing
import ContentGraph.Proofs.Component.Imports
import ContentGraph.Proofs.Component.TextRuns
import ContentGraph.Proofs.Component.OnePass
import ContentGraph.Proofs.Component.LiteralText
import ContentGraph.Proofs.Store.ShownTypes
import ContentGraph.Proofs.Document.Fences
import ContentGraph.Proofs.Document.ClosingHashes
import ContentGraph.Proofs.Discovery.ComponentFiles
import ContentGraph.Proofs.Component.Prose
