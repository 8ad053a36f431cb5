import FlowSketch.Lib.AssocMap
import FlowSketch.Lib.BinaryHeap
import FlowSketch.Lib.CounterGuarantee
import FlowSketch.Lib.CounterSummary
import FlowSketch.Lib.Gather
import FlowSketch.Lib.Grid
import FlowSketch.Lib.Latest
import FlowSketch.Lib.Lists
import FlowSketch.Lib.Octets
import FlowSketch.Lib.Outcome
import FlowSketch.Lib.Ranking
import FlowSketch.Lib.Restart
import FlowSketch.Lib.SlidingLog
import FlowSketch.Lib.SortedMap
import FlowSketch.Lib.Spread
import FlowSketch.Lib.Tally
import FlowSketch.Lib.TreeMap
import FlowSketch.Lib.UpdateTree
import FlowSketch.Lib.Word64
import FlowSketch.Source.Agent.Barrier
import FlowSketch.Source.Agent.DirectRuntime
import FlowSketch.Source.Agent.Publication
import FlowSketch.Source.Agent.Reports
import FlowSketch.Source.Agent.Safety
import FlowSketch.Source.Core.Allocation
import FlowSketch.Source.Core.Envelope
import FlowSketch.Source.Core.Event
import FlowSketch.Source.Core.Sketch
import FlowSketch.Source.Core.Snapshot
import FlowSketch.Source.Core.Wire
import FlowSketch.Source.CountMin
import FlowSketch.Source.CountMin.Cells
import FlowSketch.Source.CountMin.Conservative
import FlowSketch.Source.CountSketch
import FlowSketch.Source.CountSketch.Linear
import FlowSketch.Source.Gateway.Accounting
import FlowSketch.Source.Gateway.Batch
import FlowSketch.Source.Gateway.Cache
import FlowSketch.Source.Gateway.Complete
import FlowSketch.Source.Gateway.Deliveries
import FlowSketch.Source.Gateway.Pushes
import FlowSketch.Source.Gateway.Refresh
import FlowSketch.Source.Gateway.Reports
import FlowSketch.Source.Gateway.State
import FlowSketch.Source.Gateway.Windows
import FlowSketch.Source.HllMap
import FlowSketch.Source.HllMap.Contents
import FlowSketch.Source.HllMap.Eviction
import FlowSketch.Source.HllMap.Joining
import FlowSketch.Source.HllMap.Layout
import FlowSketch.Source.HllMap.Least
import FlowSketch.Source.HllMap.Partial
import FlowSketch.Source.HllMap.Runs
import FlowSketch.Source.HyperLogLog
import FlowSketch.Source.HyperLogLog.Canonical
import FlowSketch.Source.HyperLogLog.Forms
import FlowSketch.Source.Ir.Logical
import FlowSketch.Source.Ir.Units
import FlowSketch.Source.Kll
import FlowSketch.Source.Kll.Capacities
import FlowSketch.Source.Kll.Depth
import FlowSketch.Source.Kll.Drift
import FlowSketch.Source.Kll.Levels
import FlowSketch.Source.Kll.Memory
import FlowSketch.Source.Kll.Runs
import FlowSketch.Source.Kll.Selection
import FlowSketch.Source.MisraGries
import FlowSketch.Source.MisraGries.Decrement
import FlowSketch.Source.MisraGries.Guarantee
import FlowSketch.Source.Pcap.Checked
import FlowSketch.Source.Pcap.Headers
import FlowSketch.Source.Pcap.Parse
import FlowSketch.Source.Pcap.Reader
import FlowSketch.Source.Pcap.Truncation
import FlowSketch.Source.Pcap.Writer
import FlowSketch.Source.Planner
import FlowSketch.Source.Planner.Budget
import FlowSketch.Source.Planner.GroupKeys
import FlowSketch.Source.Resets
import FlowSketch.Source.Runtime.Advance
import FlowSketch.Source.Runtime.Backpressure
import FlowSketch.Source.Runtime.Calls
import FlowSketch.Source.Runtime.Closing
import FlowSketch.Source.Runtime.Contents
import FlowSketch.Source.Runtime.Engine
import FlowSketch.Source.Runtime.Estimates
import FlowSketch.Source.Runtime.FastForward
import FlowSketch.Source.Runtime.Guarantees
import FlowSketch.Source.Runtime.Halves
import FlowSketch.Source.Runtime.Lanes
import FlowSketch.Source.Runtime.Ledger
import FlowSketch.Source.Runtime.Levels
import FlowSketch.Source.Runtime.Lockstep
import FlowSketch.Source.Runtime.Mergeable
import FlowSketch.Source.Runtime.Merging
import FlowSketch.Source.Runtime.Observer
import FlowSketch.Source.Runtime.Overflow
import FlowSketch.Source.Runtime.Quantiles
import FlowSketch.Source.Runtime.Rejoin
import FlowSketch.Source.Runtime.Ring
import FlowSketch.Source.Runtime.Sharded
import FlowSketch.Source.Runtime.Shipping
import FlowSketch.Source.Runtime.Simulation
import FlowSketch.Source.Runtime.State
import FlowSketch.Source.Runtime.StateInvariant
import FlowSketch.Source.Runtime.Stored
import FlowSketch.Source.Runtime.Timeline
import FlowSketch.Source.Runtime.Transfer
import FlowSketch.Source.Runtime.Windows
import FlowSketch.Source.Snapshots.Allocations
import FlowSketch.Source.Snapshots.Counters
import FlowSketch.Source.Snapshots.Keyed
import FlowSketch.Source.Snapshots.Levels
import FlowSketch.Source.Snapshots.Registers
import FlowSketch.Source.Snapshots.RoundTrip
import FlowSketch.Source.Snapshots.Summaries
import FlowSketch.Source.Snapshots.Tables
import FlowSketch.Source.SpaceSaving
import FlowSketch.Source.SpaceSaving.Decode
import FlowSketch.Source.SpaceSaving.Heap
import FlowSketch.Source.SpaceSaving.Idle
import FlowSketch.Source.SpaceSaving.Index
import FlowSketch.Source.SpaceSaving.Machine
import FlowSketch.Source.SpaceSaving.Merge
import FlowSketch.Source.SpaceSaving.MergeTree
import FlowSketch.Source.SpaceSaving.Operations
import FlowSketch.Source.SpaceSaving.Refinement
