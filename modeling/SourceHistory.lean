import SourceHistory.Attempt
import SourceHistory.Codec.Basic
import SourceHistory.Codec.Edit
import SourceHistory.Codec.Node
import SourceHistory.Codec.Revision
import SourceHistory.Collections
import SourceHistory.CommitStore
import SourceHistory.Config
import SourceHistory.Diff
import SourceHistory.Edit.Apply
import SourceHistory.Edit.Basic
import SourceHistory.Error
import SourceHistory.Git.Driver
import SourceHistory.Git.Log
import SourceHistory.Git.Session
import SourceHistory.History
import SourceHistory.Id
import SourceHistory.Json.Basic
import SourceHistory.Json.Numeral
import SourceHistory.Json.Printer
import SourceHistory.Json.Reader
import SourceHistory.Json.Token
import SourceHistory.Kind
import SourceHistory.ListEdit
import SourceHistory.Node.Basic
import SourceHistory.Node.Check
import SourceHistory.Node.Child
import SourceHistory.NodeIndex
import SourceHistory.Outline
import SourceHistory.Parser
import SourceHistory.Proofs.Attempt
import SourceHistory.Proofs.Codec.Basic
import SourceHistory.Proofs.Codec.Decoded.Basic
import SourceHistory.Proofs.Codec.Decoded.Edit
import SourceHistory.Proofs.Codec.Decoded.Node
import SourceHistory.Proofs.Codec.Edit
import SourceHistory.Proofs.Codec.Node
import SourceHistory.Proofs.Codec.Normal
import SourceHistory.Proofs.Codec.RoundTrip
import SourceHistory.Proofs.Collections
import SourceHistory.Proofs.CommitStore
import SourceHistory.Proofs.CommitStore.Answers
import SourceHistory.Proofs.Diff.Advance
import SourceHistory.Proofs.Diff.Attributes
import SourceHistory.Proofs.Diff.ClosedForm
import SourceHistory.Proofs.Diff.Content
import SourceHistory.Proofs.Diff.PerUnit
import SourceHistory.Proofs.Diff.RoundTrip
import SourceHistory.Proofs.Diff.Structure
import SourceHistory.Proofs.Diff.Unit
import SourceHistory.Proofs.Edit.Apply
import SourceHistory.Proofs.Edit.Checks
import SourceHistory.Proofs.Edit.Failure
import SourceHistory.Proofs.Edit.Locality
import SourceHistory.Proofs.Edit.Propagation
import SourceHistory.Proofs.Git.Arguments
import SourceHistory.Proofs.Git.Log
import SourceHistory.Proofs.Git.Session
import SourceHistory.Proofs.History.Overwrite
import SourceHistory.Proofs.History.Process
import SourceHistory.Proofs.History.Run
import SourceHistory.Proofs.Id.Ancestry
import SourceHistory.Proofs.Id.Containment
import SourceHistory.Proofs.Id.Grammar
import SourceHistory.Proofs.Id.Prefix
import SourceHistory.Proofs.Json.Nesting
import SourceHistory.Proofs.Json.Reader
import SourceHistory.Proofs.Json.Token
import SourceHistory.Proofs.ListEdit
import SourceHistory.Proofs.ListEdit.Shortest
import SourceHistory.Proofs.ListEdit.Table
import SourceHistory.Proofs.Node.Arrangement
import SourceHistory.Proofs.Node.Child
import SourceHistory.Proofs.Node.Constructed
import SourceHistory.Proofs.Node.WellFormed
import SourceHistory.Proofs.NodeIndex.Consistent
import SourceHistory.Proofs.NodeIndex.Gap
import SourceHistory.Proofs.NodeIndex.Operations
import SourceHistory.Proofs.NodeIndex.Rebuild
import SourceHistory.Proofs.NodeIndex.Removal
import SourceHistory.Proofs.NodeIndex.Subtree
import SourceHistory.Proofs.NodeIndex.Units
import SourceHistory.Proofs.NodeIndex.Walk
import SourceHistory.Proofs.Outline
import SourceHistory.Proofs.Parser
import SourceHistory.Proofs.Repository.Head
import SourceHistory.Proofs.Revision
import SourceHistory.Proofs.SetEdit
import SourceHistory.Proofs.Snapshot.Acceptance
import SourceHistory.Proofs.Snapshot.Amendment
import SourceHistory.Proofs.Snapshot.Arrangement
import SourceHistory.Proofs.Snapshot.Batch
import SourceHistory.Proofs.Snapshot.Coherent
import SourceHistory.Proofs.Snapshot.Frame
import SourceHistory.Proofs.Snapshot.Interleaving
import SourceHistory.Proofs.Snapshot.Inverse
import SourceHistory.Proofs.Snapshot.Reachable
import SourceHistory.Proofs.Snapshot.Walk
import SourceHistory.Proofs.Text.Cut
import SourceHistory.Proofs.Text.Decimal
import SourceHistory.Proofs.Text.Lines
import SourceHistory.Proofs.Text.Utf8
import SourceHistory.Repository
import SourceHistory.Revision
import SourceHistory.SetEdit
import SourceHistory.Snapshot
import SourceHistory.Text.Alphanumeric
import SourceHistory.Text.Blank
import SourceHistory.Text.Cut
import SourceHistory.Text.Decimal
import SourceHistory.Text.Lines
import SourceHistory.Text.Printable
import SourceHistory.Text.Quoted
import SourceHistory.Text.Ranges
import SourceHistory.Text.Utf8
import SourceHistory.Time.Calendar
import SourceHistory.Time.Instant
import SourceHistory.Time.Rfc3339
import SourceHistory.Toml.Basic
import SourceHistory.Toml.Reader
import SourceHistory.Toml.Scan
import SourceHistory.Transaction
import SourceHistory.VersionControl
