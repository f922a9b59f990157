import ForestCourier.Cluster.Basic
import ForestCourier.Config.Input
import ForestCourier.Config.Keys
import ForestCourier.Config.Options
import ForestCourier.Config.Output
import ForestCourier.Decimal.Notation
import ForestCourier.Decimal.Shortest
import ForestCourier.Discovery.Answers
import ForestCourier.Discovery.Layout
import ForestCourier.Discovery.Queries
import ForestCourier.Discovery.Survey
import ForestCourier.Document.Content
import ForestCourier.Document.Format
import ForestCourier.Document.Permission
import ForestCourier.Document.Uri
import ForestCourier.Error
import ForestCourier.Exchange.Config
import ForestCourier.Exchange.Document
import ForestCourier.Exchange.Forest
import ForestCourier.Exchange.Text
import ForestCourier.Fault
import ForestCourier.Forest.Basic
import ForestCourier.Forest.Topology
import ForestCourier.Job.Counters
import ForestCourier.Job.Input
import ForestCourier.Job.Output
import ForestCourier.Json.Parser
import ForestCourier.Json.Printer
import ForestCourier.Json.Value
import ForestCourier.Notice
import ForestCourier.Placement.Kind
import ForestCourier.Placement.Manager
import ForestCourier.Placement.Policy
import ForestCourier.Placement.Rotation
import ForestCourier.Proofs.Placement.Bounds
import ForestCourier.Proofs.Writer.Rejection
import ForestCourier.Proofs.Writer.Run
import ForestCourier.Proofs.Writer.Steps
import ForestCourier.Reader.Basic
import ForestCourier.Request.Error
import ForestCourier.Retry.Backoff
import ForestCourier.Retry.Cursor
import ForestCourier.Retry.Rotation
import ForestCourier.Session.Answer
import ForestCourier.Session.Basic
import ForestCourier.Session.Failover
import ForestCourier.Session.Server
import ForestCourier.Split.Basic
import ForestCourier.Split.Plan
import ForestCourier.Split.Stream
import ForestCourier.Text.Printable
import ForestCourier.Text.Value
import ForestCourier.Writer.Basic
import ForestCourier.Writer.Delivery
import ForestCourier.Writer.Slot
import ForestCourier.Proofs.Writer.Totals
import ForestCourier.Proofs.Writer.Accounting
import ForestCourier.Proofs.Writer.Ledger
import ForestCourier.Proofs.Writer.Transfer
import ForestCourier.Proofs.Writer.Lookup
import ForestCourier.Proofs.Writer.Books
import ForestCourier.Proofs.Writer.Durability
import ForestCourier.Proofs.Writer.Success
import ForestCourier.Proofs.Writer.Digest
import ForestCourier.Proofs.Writer.Trace
import ForestCourier.Proofs.Writer.Transparency
import ForestCourier.Proofs.Split.Coverage
import ForestCourier.Proofs.Reader.Resume
import ForestCourier.Proofs.Reader.Reading
import ForestCourier.Proofs.Reader.Gapless
import ForestCourier.Proofs.Retry.Round
import ForestCourier.Proofs.Writer.Aim
import ForestCourier.Proofs.Writer.Attempts
import ForestCourier.Proofs.Writer.Turns
import ForestCourier.Proofs.Writer.Line
import ForestCourier.Proofs.Writer.Discipline
import ForestCourier.Proofs.Writer.Sessions
import ForestCourier.Proofs.Placement.Loads
import ForestCourier.Proofs.Writer.Charges
import ForestCourier.Proofs.Writer.Crew
import ForestCourier.Proofs.Writer.Conservation
import ForestCourier.Proofs.Job.Handover
import ForestCourier.Proofs.Json.ReadBack
import ForestCourier.Proofs.Session.Confinement
import ForestCourier.Proofs.Writer.Kept
import ForestCourier.Proofs.Writer.Confinement
import ForestCourier.Proofs.Reader.Confinement
import ForestCourier.Proofs.Job.Confinement
import ForestCourier.Proofs.Writer.Inserts
import ForestCourier.Proofs.Writer.Solvency
import ForestCourier.Proofs.Writer.Limits
import ForestCourier.Proofs.Session.Abreast
import ForestCourier.Proofs.Placement.ByUri
import ForestCourier.Proofs.Writer.Twins
import ForestCourier.Proofs.Writer.Peers
import ForestCourier.Proofs.Writer.Apart
import ForestCourier.Proofs.Writer.Isolation
import ForestCourier.Proofs.Split.Failover
import ForestCourier.Proofs.Job.Redaction
import ForestCourier.Proofs.Placement.Uses
import ForestCourier.Proofs.Writer.Housing
import ForestCourier.Proofs.Writer.Schedule
import ForestCourier.Proofs.Writer.Flushes
import ForestCourier.Proofs.Split.Ranges
import ForestCourier.Proofs.Split.Fairness
import ForestCourier.Proofs.Session.Protocol
import ForestCourier.Proofs.Reader.Requests
import ForestCourier.Proofs.Reader.Sessions
import ForestCourier.Proofs.Reader.Pace
import ForestCourier.Proofs.Reader.Retries
import ForestCourier.Proofs.Session.Forms
import ForestCourier.Proofs.Split.Grammar
import ForestCourier.Proofs.Discovery.Description
import ForestCourier.Proofs.Placement.Rotations
import ForestCourier.Proofs.Writer.Inquiries
import ForestCourier.Proofs.Exchange.RoundTrip
import ForestCourier.Proofs.Placement.Partitions
import ForestCourier.Proofs.Job.Setup
import ForestCourier.Proofs.Writer.Batches
import ForestCourier.Proofs.Writer.Packing
import ForestCourier.Proofs.Writer.Filling
import ForestCourier.Proofs.Retry.Cursor
import ForestCourier.Proofs.Forest.Restriction
import ForestCourier.Proofs.Placement.Balance
import ForestCourier.Proofs.Placement.Segments
import ForestCourier.Proofs.Discovery.Counts
import ForestCourier.Proofs.Writer.Overflow
import ForestCourier.Proofs.Writer.Headroom
import ForestCourier.Proofs.Retry.RoundRobin
import ForestCourier.Proofs.Job.Estimate
import ForestCourier.Proofs.Config.Blanks
import ForestCourier.Proofs.Config.Permissions
import ForestCourier.Proofs.Writer.Removal
import ForestCourier.Proofs.Session.Search
import ForestCourier.Proofs.Retry.Doubling
