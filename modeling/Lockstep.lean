import Lockstep.Algorithm.ParticleSwarm
import Lockstep.Component.Candidates
import Lockstep.Component.Traced
import Lockstep.Component.Roles
import Lockstep.Component.Schema
import Lockstep.Component.Tree
import Lockstep.Control
import Lockstep.Decimal.Layout
import Lockstep.Error
import Lockstep.Exchange.Components
import Lockstep.Exchange.Decode
import Lockstep.Exchange.Encode
import Lockstep.Json.Basic
import Lockstep.Json.Parser
import Lockstep.Json.Reader
import Lockstep.Monitor.Evaluation
import Lockstep.Monitor.Fitness
import Lockstep.Pieces
import Lockstep.Placement
import Lockstep.Problem.Benchmark
import Lockstep.Random.ChaCha
import Lockstep.Random.Key
import Lockstep.Random.Range
import Lockstep.Sample
import Lockstep.State.Basic
import Lockstep.State.Checkpoint
import Lockstep.State.Lineage
import Lockstep.State.Stack
import Lockstep.Table
import Lockstep.Tensor.Basic
import Lockstep.Tensor.Matrix
import Lockstep.Text.Forms
import Lockstep.Text.Names
import Lockstep.Text.Printable
import Lockstep.Tuning.Codec
import Lockstep.Tuning.Problem
import Lockstep.Tuning.Space
import Lockstep.Tuning.Strategy
import Lockstep.Tuning.Trial
import Lockstep.Tuning.Tuner
import Lockstep.Workflow.Basic
import Lockstep.Workflow.Run
import Lockstep.Workflow.Step
import Lockstep.Proofs.Outcome
import Lockstep.Proofs.Table
import Lockstep.Proofs.State.Basic
import Lockstep.Proofs.Workflow.Schedule
import Lockstep.Proofs.Workflow.LaneByLane
import Lockstep.Proofs.State.Stack
import Lockstep.Proofs.State.Everywhere
import Lockstep.Proofs.State.Ordered
import Lockstep.Proofs.State.Arrays
import Lockstep.Proofs.State.Restack
import Lockstep.Proofs.State.Inverse
import Lockstep.Proofs.State.Parts
import Lockstep.Proofs.State.Lanes
import Lockstep.Proofs.Workflow.Stages
import Lockstep.Proofs.Workflow.SideBySide
import Lockstep.Proofs.Workflow.Ordered
import Lockstep.Proofs.Workflow.Instances
import Lockstep.Proofs.Workflow.Metric
import Lockstep.Proofs.State.Leaf
import Lockstep.Proofs.Tuning.Instances
import Lockstep.Proofs.Component.Tree
import Lockstep.Proofs.Workflow.Build
import Lockstep.Proofs.Workflow.Monitors
import Lockstep.Proofs.Tuning.History
import Lockstep.Proofs.Json.Literal
import Lockstep.Proofs.Json.RoundTrip
import Lockstep.Proofs.Json.Reading
import Lockstep.Proofs.Decimal.Layout
import Lockstep.Proofs.State.Checkpoint
import Lockstep.Proofs.State.Shard
import Lockstep.Proofs.State.Placements
import Lockstep.Proofs.Workflow.Loop
import Lockstep.Proofs.Random.Key
import Lockstep.Proofs.Table.Matching
import Lockstep.Proofs.State.Plan
import Lockstep.Proofs.State.Structure
import Lockstep.Proofs.Component.Start
import Lockstep.Proofs.Tensor.Matrix
import Lockstep.Proofs.Workflow.Progress
import Lockstep.Proofs.Workflow.Start
import Lockstep.Proofs.Algorithm.ParticleSwarm
import Lockstep.Proofs.Monitor.Records
import Lockstep.Proofs.Workflow.Reference
import Lockstep.Proofs.Binary64.Order
import Lockstep.Proofs.Component.Paths
import Lockstep.Proofs.Workflow.Assembled
import Lockstep.Proofs.Workflow.Passage
import Lockstep.Proofs.Workflow.Frame
import Lockstep.Proofs.Workflow.Alike
import Lockstep.Proofs.Workflow.Devices
import Lockstep.Proofs.Tuning.Trials
import Lockstep.Proofs.Tuning.Requests
import Lockstep.Proofs.Tuning.Bookkeeping
import Lockstep.Proofs.Tuning.Slots
import Lockstep.Proofs.Tuning.Lifecycle
import Lockstep.Proofs.Tuning.Batches
import Lockstep.Proofs.Binary64.Lowest
import Lockstep.Proofs.Monitor.Best
import Lockstep.Proofs.Workflow.FirstState
import Lockstep.Proofs.Workflow.Trackers
import Lockstep.Proofs.State.Outline
import Lockstep.Proofs.Workflow.Notes
import Lockstep.Proofs.Workflow.OwnLoop
import Lockstep.Proofs.Workflow.Round
import Lockstep.Proofs.Workflow.FinishedLanes
import Lockstep.Proofs.Component.Preorder
import Lockstep.Proofs.State.LaneOrder
import Lockstep.Proofs.Binary64.Counting
import Lockstep.Proofs.Binary64.FirstLowest
import Lockstep.Proofs.Monitor.Summary
import Lockstep.Proofs.Algorithm.Bests
import Lockstep.Proofs.Random.Streams
import Lockstep.Proofs.Component.Initial
import Lockstep.Proofs.State.Sharding
import Lockstep.Proofs.State.Requests
import Lockstep.Proofs.Control
import Lockstep.Proofs.Workflow.Resuming
import Lockstep.Proofs.State.Homogeneous
import Lockstep.Proofs.Tuning.Codec
import Lockstep.Proofs.State.Selection
import Lockstep.Proofs.Tuning.Grid
import Lockstep.Proofs.Component.Candidates
import Lockstep.Proofs.Binary64.Rounding
import Lockstep.Proofs.Random.Range
import Lockstep.Proofs.Tuning.Parameters
import Lockstep.Proofs.Tuning.Defaults
import Lockstep.Proofs.Tuning.Drawing
import Lockstep.Proofs.Tuning.Filling
import Lockstep.Proofs.Binary64.Value
import Lockstep.Proofs.Random.Encoding
import Lockstep.Proofs.Binary64.Sign
import Lockstep.Proofs.Monitor.Distance
import Lockstep.Proofs.Monitor.Reduction
import Lockstep.Proofs.Monitor.Events
import Lockstep.Proofs.Workflow.Slots
import Lockstep.Proofs.Workflow.External
import Lockstep.Proofs.Workflow.Blame
import Lockstep.Proofs.Placement
