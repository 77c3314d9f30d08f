import MarketMinutes.Main
import MarketMinutes.Proofs.Aggregation.Outcome
import MarketMinutes.Proofs.Book.Invariant
import MarketMinutes.Proofs.Book.Acceptance
import MarketMinutes.RefusingSink
import MarketMinutes.Storage.Session
import MarketMinutes.Proofs.Book.Batch
import MarketMinutes.Proofs.Aggregation.Counters
import MarketMinutes.Proofs.Aggregation.Replay
import MarketMinutes.Proofs.Book.Contents
import MarketMinutes.Proofs.Book.Depth
import MarketMinutes.Proofs.Text.Lines
import MarketMinutes.Proofs.Text.LineEnds
import MarketMinutes.Proofs.Text.Contents
import MarketMinutes.Proofs.Aggregation.Arrivals
import MarketMinutes.Proofs.Feed.Calls
import MarketMinutes.Proofs.Feed.LineNumbers
import MarketMinutes.Proofs.Aggregation.Resume
import MarketMinutes.Proofs.Decimal.Reader
import MarketMinutes.Proofs.Json.Literal
import MarketMinutes.Proofs.Json.Numeral
import MarketMinutes.Proofs.Json.RoundTrip
import MarketMinutes.Proofs.Json.Parts
import MarketMinutes.Proofs.Json.Documents
import MarketMinutes.Proofs.Storage.FileTree
import MarketMinutes.Proofs.Storage.Collection
import MarketMinutes.Proofs.Storage.Writer
import MarketMinutes.Proofs.Storage.Store
import MarketMinutes.Proofs.Storage.Loading
import MarketMinutes.Proofs.Json.Trailing
import MarketMinutes.Proofs.Storage.Appending
import MarketMinutes.Proofs.Storage.History
import MarketMinutes.Proofs.Window.Unsigned
import MarketMinutes.Proofs.Aggregation.Files
import MarketMinutes.Proofs.Book.Digest
import MarketMinutes.Proofs.Aggregation.Failure
import MarketMinutes.Proofs.CommandLine.Aggregate
import MarketMinutes.Proofs.CommandLine.Failures
import MarketMinutes.Proofs.CommandLine.Reruns
import MarketMinutes.Proofs.Decimal.Arithmetic
import MarketMinutes.Proofs.Book.Scales
import MarketMinutes.Proofs.Book.Snapshots
import MarketMinutes.Proofs.Decimal.Halves
import MarketMinutes.Proofs.Profile.Buckets
import MarketMinutes.Proofs.Profile.Conservation
import MarketMinutes.Proofs.Profile.Widening
import MarketMinutes.Proofs.Book.MidPrice
import MarketMinutes.Proofs.Book.Forms
import MarketMinutes.Proofs.Book.LinearScan
import MarketMinutes.Proofs.Book.Writes
import MarketMinutes.Proofs.Book.Interleaving
import MarketMinutes.Proofs.Book.BestLevels
import MarketMinutes.Proofs.Book.LevelCounts
import MarketMinutes.Proofs.Profile.Mirror
import MarketMinutes.Proofs.Table.Layout
import MarketMinutes.Proofs.Window.Averages
import MarketMinutes.Proofs.Window.Quotes
import MarketMinutes.Proofs.Decimal.Texts
