import SeriesPipeline.Word
import SeriesPipeline.Folder
import SeriesPipeline.SortedMap
import SeriesPipeline.Text.Blank
import SeriesPipeline.Text.Letter
import SeriesPipeline.Text.Invisible
import SeriesPipeline.Text.Quoted
import SeriesPipeline.Text.Numeral
import SeriesPipeline.Decimal.Layout
import SeriesPipeline.Time.Window
import SeriesPipeline.Data.Batch
import SeriesPipeline.Json.Reader
import SeriesPipeline.Data.Lines
import SeriesPipeline.Expr.Eval
import SeriesPipeline.Blueprint.Basic
import SeriesPipeline.Plan.Listing
import SeriesPipeline.Operator.Basic
import SeriesPipeline.Time.Clock
import SeriesPipeline.Stage.Watermarks
import SeriesPipeline.Task.Cache
import SeriesPipeline.Stage.Message
import SeriesPipeline.Stage.Failure
import SeriesPipeline.Stage.Stats
import SeriesPipeline.Stage.Basic
import SeriesPipeline.Task.Process
import SeriesPipeline.Task.Network
import SeriesPipeline.Task.Basic
import SeriesPipeline.Task.Input
import SeriesPipeline.Replay.Basic
import SeriesPipeline.Registry.Basic
import SeriesPipeline.Registry.Replays
import SeriesPipeline.Replay.File
import SeriesPipeline.Toml.Reader
import SeriesPipeline.File.Section
import SeriesPipeline.File.Shape
import SeriesPipeline.File.Basic
import SeriesPipeline.Command.Arguments
import SeriesPipeline.Command.Session
import SeriesPipeline.Main
import SeriesPipeline.Proofs.Data.Consistency
import SeriesPipeline.Proofs.SortedMap
import SeriesPipeline.Proofs.StableOrder
import SeriesPipeline.Proofs.Data.AlignedRows
import SeriesPipeline.Proofs.Operator.Requests
import SeriesPipeline.Proofs.Windowing.Cover
import SeriesPipeline.Proofs.Windowing.Panes
import SeriesPipeline.Proofs.Windowing.Placement
import SeriesPipeline.Proofs.Joining.Completion
import SeriesPipeline.Proofs.Joining.Streams
import SeriesPipeline.Proofs.Merging.Parts
import SeriesPipeline.Proofs.Merging.Streams
import SeriesPipeline.Proofs.Plan.Check
import SeriesPipeline.Proofs.Plan.Layout
import SeriesPipeline.Proofs.Plan.Outlets
import SeriesPipeline.Proofs.Plan.Wiring
import SeriesPipeline.Proofs.Plan.Cycles
import SeriesPipeline.Proofs.Plan.Acceptance
import SeriesPipeline.Proofs.Operator.Answers
import SeriesPipeline.Proofs.Windowing.Buckets
import SeriesPipeline.Proofs.Stage.Barriers
import SeriesPipeline.Proofs.Plan.Branches
import SeriesPipeline.Proofs.Alerting.Notifications
import SeriesPipeline.Proofs.Operator.Shape
import SeriesPipeline.Proofs.Plan.Shape
import SeriesPipeline.Proofs.Stage.Course
import SeriesPipeline.Proofs.Stage.Clock
import SeriesPipeline.Proofs.Stage.Origins
import SeriesPipeline.Proofs.Windowing.Chains
import SeriesPipeline.Proofs.Task.Execution
import SeriesPipeline.Proofs.Task.Logs
import SeriesPipeline.Proofs.Task.Histories
import SeriesPipeline.Proofs.Task.Cache
import SeriesPipeline.Proofs.Plan.Flow
import SeriesPipeline.Proofs.Plan.Names
import SeriesPipeline.Proofs.Plan.Schedules
import SeriesPipeline.Proofs.Operator.Pending
import SeriesPipeline.Proofs.Stage.Rows
import SeriesPipeline.Proofs.Plan.Promises
import SeriesPipeline.Proofs.Plan.Progress
import SeriesPipeline.Proofs.Stage.Protocol
import SeriesPipeline.Proofs.Task.Settle
import SeriesPipeline.Proofs.Windowing.Lateness
import SeriesPipeline.Proofs.Replay.Calls
import SeriesPipeline.Proofs.Replay.Drive
import SeriesPipeline.Proofs.Replay.Reading
import SeriesPipeline.Proofs.Replay.Deliveries
import SeriesPipeline.Proofs.Replay.Advance
import SeriesPipeline.Proofs.Replay.Sequence
import SeriesPipeline.Proofs.Replay.Lateness
import SeriesPipeline.Proofs.Task.Moves
import SeriesPipeline.Proofs.Task.Traffic
import SeriesPipeline.Proofs.Task.Clients
import SeriesPipeline.Proofs.Task.Rejections
import SeriesPipeline.Proofs.Task.Sources
import SeriesPipeline.Proofs.Task.Acknowledgements
import SeriesPipeline.Proofs.Replay.Alone
import SeriesPipeline.Proofs.Replay.Reports
import SeriesPipeline.Proofs.Registry.Handles
import SeriesPipeline.Proofs.Registry.Stops
import SeriesPipeline.Proofs.Text.Digits
import SeriesPipeline.Proofs.Time.Calendar
import SeriesPipeline.Proofs.Time.Rfc3339
import SeriesPipeline.Proofs.Time.Reading
import SeriesPipeline.Proofs.Text.Blank
import SeriesPipeline.Proofs.Time.Span
import SeriesPipeline.Proofs.Data.Series
import SeriesPipeline.Proofs.Data.Widening
import SeriesPipeline.Proofs.Json.Reading
import SeriesPipeline.Proofs.Data.Lines
import SeriesPipeline.Proofs.Task.Rest
import SeriesPipeline.Proofs.Registry.Isolation
import SeriesPipeline.Proofs.Data.Guarded
import SeriesPipeline.Proofs.Operator.Guarded
import SeriesPipeline.Proofs.Stage.Guarded
import SeriesPipeline.Proofs.Plan.Guarded
import SeriesPipeline.Proofs.Stage.LowWatermark
import SeriesPipeline.Proofs.Windowing.Starts
import SeriesPipeline.Proofs.Windowing.Accounting
import SeriesPipeline.Proofs.Joining.Bookkeeping
import SeriesPipeline.Proofs.Joining.Horizon
import SeriesPipeline.Proofs.Joining.Columns
import SeriesPipeline.Proofs.Merging.Conservation
import SeriesPipeline.Proofs.Alerting.Failures
import SeriesPipeline.Proofs.Expr.Reading
import SeriesPipeline.Proofs.Expr.Integers
import SeriesPipeline.Proofs.Alerting.Hysteresis
import SeriesPipeline.Proofs.Decimal.Sign
import SeriesPipeline.Proofs.Operator.Percentile
