import RuleScope.Command.Change
import RuleScope.Command.Display
import RuleScope.Command.Fault
import RuleScope.Command.Line
import RuleScope.Command.Program
import RuleScope.Diagnostic
import RuleScope.Disk.Basic
import RuleScope.Disk.Change
import RuleScope.Evaluation
import RuleScope.Json.Cursor
import RuleScope.Json.Reader
import RuleScope.Json.Scalar
import RuleScope.Json.Value
import RuleScope.Link.Address
import RuleScope.Link.Connection
import RuleScope.Link.Debugger
import RuleScope.Link.Endpoint
import RuleScope.Link.Exchange
import RuleScope.Location.Convert
import RuleScope.Location.Tree
import RuleScope.LogBatch
import RuleScope.LoggingState
import RuleScope.Main
import RuleScope.Number.Binary64
import RuleScope.Number.FloatText
import RuleScope.Number.Shortest
import RuleScope.Path.Absolute
import RuleScope.Path.Text
import RuleScope.Proofs.Disk.Finding
import RuleScope.Proofs.Disk.Growth
import RuleScope.Proofs.Disk.Joining
import RuleScope.Proofs.Disk.Missing
import RuleScope.Proofs.Json.Containers
import RuleScope.Proofs.Json.Document
import RuleScope.Proofs.Json.Layout
import RuleScope.Proofs.Json.Numbers
import RuleScope.Proofs.Json.Outcome
import RuleScope.Proofs.Json.Reads
import RuleScope.Proofs.Json.Skipping
import RuleScope.Proofs.Json.Strings
import RuleScope.Proofs.Json.Values
import RuleScope.Proofs.Json.Yields
import RuleScope.Proofs.Latest
import RuleScope.Proofs.Link.Attempts
import RuleScope.Proofs.Link.Audience
import RuleScope.Proofs.Link.Client
import RuleScope.Proofs.Link.Flushing
import RuleScope.Proofs.Link.Following
import RuleScope.Proofs.Link.Joined
import RuleScope.Proofs.Link.Mirror
import RuleScope.Proofs.Link.MirrorRuns
import RuleScope.Proofs.Link.Published
import RuleScope.Proofs.Link.Queues
import RuleScope.Proofs.Link.Reporting
import RuleScope.Proofs.Link.Serving
import RuleScope.Proofs.Link.Silence
import RuleScope.Proofs.Link.Soundness
import RuleScope.Proofs.Link.Stations
import RuleScope.Proofs.Link.Steady
import RuleScope.Proofs.Link.Tasks
import RuleScope.Proofs.Link.Writing
import RuleScope.Proofs.Location.Heads
import RuleScope.Proofs.Location.Isolation
import RuleScope.Proofs.Location.Nesting
import RuleScope.Proofs.Location.WrongTypes
import RuleScope.Proofs.LogBatch.Delivery
import RuleScope.Proofs.Path.Parts
import RuleScope.Proofs.Path.Reading
import RuleScope.Proofs.Path.Written
import RuleScope.Proofs.RuleModel.Building
import RuleScope.Proofs.RuleModel.Changes
import RuleScope.Proofs.RuleModel.Determined
import RuleScope.Proofs.RuleModel.Followers
import RuleScope.Proofs.RuleModel.Lookup
import RuleScope.Proofs.RuleModel.Notices
import RuleScope.Proofs.RuleModel.Observing
import RuleScope.Proofs.RuleModel.Reports
import RuleScope.Proofs.RuleModel.Roster
import RuleScope.Proofs.RuleModel.Runs
import RuleScope.Proofs.RuleModel.Settled
import RuleScope.Proofs.RuleModel.Shown
import RuleScope.Proofs.RuleModel.Subtrees
import RuleScope.Proofs.RuleModel.Sweep
import RuleScope.Proofs.RuleModel.Targets
import RuleScope.Proofs.RuleModel.Traversal
import RuleScope.Proofs.RuleTree.Depth
import RuleScope.Proofs.RuleTree.Duplicates
import RuleScope.Proofs.RuleTree.Growth
import RuleScope.Proofs.RuleTree.Indices
import RuleScope.Proofs.RuleTree.Marking
import RuleScope.Proofs.RuleTree.Numbering
import RuleScope.Proofs.RuleTree.Outcome
import RuleScope.Proofs.RuleTree.Outline
import RuleScope.Proofs.RuleTree.Paths
import RuleScope.Proofs.RuleTree.PreOrder
import RuleScope.Proofs.RuleTree.Traversal
import RuleScope.Proofs.RuleTree.WellFormed
import RuleScope.Proofs.Session.Bursts
import RuleScope.Proofs.Session.Detection
import RuleScope.Proofs.Session.Memory
import RuleScope.Proofs.Session.Operations
import RuleScope.Proofs.Session.Reached
import RuleScope.Proofs.Session.Rebuilding
import RuleScope.Proofs.Session.Reopening
import RuleScope.Proofs.Session.Tasks
import RuleScope.Proofs.Snapshot.Alike
import RuleScope.Proofs.Snapshot.Applying
import RuleScope.Proofs.Snapshot.Autosave
import RuleScope.Proofs.Snapshot.Entries
import RuleScope.Proofs.Snapshot.Height
import RuleScope.Proofs.Snapshot.Knowledge
import RuleScope.Proofs.Snapshot.Listing
import RuleScope.Proofs.Snapshot.Merging
import RuleScope.Proofs.Snapshot.Names
import RuleScope.Proofs.Snapshot.Reading
import RuleScope.Proofs.Snapshot.Recapture
import RuleScope.Proofs.Snapshot.Restoring
import RuleScope.Proofs.Snapshot.Saving
import RuleScope.Proofs.Snapshot.Storing
import RuleScope.Proofs.Snapshot.Text
import RuleScope.Proofs.Sources.Batches
import RuleScope.Proofs.Sources.Flags
import RuleScope.Proofs.Sources.Nodes
import RuleScope.Proofs.Sources.Paths
import RuleScope.Proofs.Sources.Pumping
import RuleScope.Proofs.Sources.Removal
import RuleScope.Proofs.Sources.Scanning
import RuleScope.Proofs.Sources.Soundness
import RuleScope.Proofs.Sources.Ties
import RuleScope.Proofs.Text.Digits
import RuleScope.Proofs.Watching.Runs
import RuleScope.Proofs.Wire.Decoding
import RuleScope.Proofs.Wire.Lines
import RuleScope.Proofs.Wire.Objects
import RuleScope.Proofs.Wire.RoundTrip
import RuleScope.Proofs.Wire.Silence
import RuleScope.Proofs.Yaml.Nesting
import RuleScope.RuleId
import RuleScope.RuleModel.Basic
import RuleScope.RuleModel.Change
import RuleScope.RuleModel.Observers
import RuleScope.RuleModel.Report
import RuleScope.RuleModel.Target
import RuleScope.RuleTree.Basic
import RuleScope.RuleTree.Build
import RuleScope.RuleTree.Lookup
import RuleScope.RuleTree.Order
import RuleScope.Schema
import RuleScope.Session
import RuleScope.Settings.Basic
import RuleScope.Settings.Environment
import RuleScope.Snapshot.Basic
import RuleScope.Snapshot.Format
import RuleScope.Snapshot.Merge
import RuleScope.Snapshot.Model
import RuleScope.Snapshot.Name
import RuleScope.Snapshot.Store
import RuleScope.Sources.Status
import RuleScope.Sources.Tree
import RuleScope.Sources.Watch
import RuleScope.Table
import RuleScope.Text.Alphanumeric
import RuleScope.Text.Blank
import RuleScope.Text.Digits
import RuleScope.Text.Duration
import RuleScope.Text.Printable
import RuleScope.Text.Quoted
import RuleScope.Watching
import RuleScope.Wire.Decode
import RuleScope.Wire.Message
import RuleScope.Wire.Stream
import RuleScope.Yaml.Event
import RuleScope.Yaml.Load
import RuleScope.Yaml.Tag
import RuleScope.Yaml.Token
import RuleScope.Yaml.Token.Lexer
import RuleScope.Yaml.Token.Scalar
import RuleScope.Yaml.Token.Scanner
import RuleScope.Yaml.Value
