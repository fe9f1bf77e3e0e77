import Staging.Bytes
import Staging.SortedMap
import Staging.Text.Characters
import Staging.Text.Digits
import Staging.Text.Base64
import Staging.Binary64.Shortest
import Staging.Json.Printer
import Staging.Json.Reader
import Staging.Instant.Reader
import Staging.Snapshot
import Staging.KeySpace
import Staging.Store.Cursor
import Staging.Settings.Document
import Staging.Repository.Basic
import Staging.Delivery.DeadLetterFile
import Staging.Recovery.Task
import Staging.Recovery.Scanner
import Staging.Service
import Staging.CommandLine.Session
import Staging.Main
import Staging.Proofs.SortedMap
import Staging.Proofs.Bytes
import Staging.Proofs.Store.Successor
import Staging.Proofs.Store.Holding
import Staging.Proofs.Store.Cursor
import Staging.Proofs.KeySpace
import Staging.Proofs.Repository.Ledger
import Staging.Proofs.Repository.Operations
import Staging.Proofs.Repository.Isolation
import Staging.Proofs.Recovery.Run
import Staging.Proofs.Recovery.Custody
import Staging.Proofs.Recovery.Budget
import Staging.Proofs.Digits
import Staging.Proofs.Json.Text
import Staging.Proofs.Json.Number
import Staging.Proofs.Json.Lexing
import Staging.Proofs.Json.Parsing
import Staging.Proofs.Json.Reading
import Staging.Proofs.Instant
import Staging.Proofs.Snapshot
import Staging.Proofs.Repository.ReadBack
import Staging.Proofs.Json.Depth
import Staging.Proofs.Snapshot.Canonical
import Staging.Proofs.Snapshot.Domain
import Staging.Proofs.Disk
import Staging.Proofs.Store.Backends
import Staging.Proofs.Store.Atomicity
import Staging.Proofs.Repository.Atomicity
import Staging.Proofs.Store.InUse
import Staging.Proofs.Store.Reopening
import Staging.Proofs.Store.Scan
import Staging.Proofs.Recovery.Tour
import Staging.Proofs.Recovery.Coverage
import Staging.Proofs.Recovery.Interruption
import Staging.Proofs.Text
import Staging.Proofs.Base64
import Staging.Proofs.Lines
import Staging.Proofs.Json.Following
import Staging.Proofs.Store.TableFile
import Staging.Proofs.Delivery.DeadLetter
import Staging.Proofs.Delivery.DeadLetterFile
import Staging.Proofs.Delivery.Sending
import Staging.Proofs.Recovery.Lifetime
import Staging.Proofs.Recovery.Stopping
import Staging.Proofs.Store.Lifecycle
import Staging.Proofs.Service.Shutdown
import Staging.Proofs.Repository.Opening
import Staging.Proofs.Store.StartKey
import Staging.Proofs.Store.Recency
import Staging.Proofs.Store.Eviction
import Staging.Proofs.Repository.Capacity
import Staging.Proofs.Service.Interleaving
import Staging.Proofs.Store.Admission
import Staging.Proofs.Store.Numbering
import Staging.Proofs.Repository.Partition
import Staging.Proofs.Recovery.Tally
import Staging.Proofs.Json.Layouts
import Staging.Proofs.Store.Repositioning
import Staging.Proofs.Delivery.Printing
import Staging.Proofs.Settings.Layers
import Staging.Proofs.Settings.Saving
