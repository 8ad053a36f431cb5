import FlowSketch.Lib.TreeMap
import FlowSketch.Source.Runtime.Observer
import FlowSketch.Source.Runtime.Sharded

/-!
# The queue-local runtime

`crates/flowsketch-agent/src/direct_runtime.rs`: one engine for each capture lane, owned by a worker, and
a coordinator that pauses the workers, moves all engines to one watermark and takes their windows. They
talk over channels, so that any of them may act next. The runs here are those in which no engine call
fails and nobody disconnects a control channel. Thread pinning, `Shutdown`, memory figures and counters
are left out. `processed` and `accepted` are notes on a lane that the code does not keep.
-/

namespace FlowSketch.Source.Runtime
open Lib.Word64 Source.Core

variable {σ : Type}

/-- `current_window_states`. -/
def currentWindowStates (backend : Backend σ) :
    List (RunningQuery σ) → Except SketchError (List (QueryWindowState σ))
  | [] => .ok []
  | q :: rest =>
    match q.buckets with
    | [] => currentWindowStates backend rest
    | front :: others => do
      let state ← RunningQuery.mergeBuckets backend front.state others
      let out ← currentWindowStates backend rest
      return { queryName := q.plan.query.name
               state := { state, windowStartNanos := front.startNanos
                          windowEndNanos := wrappingAdd (q.backStart.getD 0) q.slideNanos } } :: out

end FlowSketch.Source.Runtime

namespace FlowSketch.Source.Agent
open Lib Lib.Word64 Source.Core Source.Runtime

variable {σ : Type}

/-! ## Messages -/

inductive WorkerControl where
  | pause
  | checkpoint (watermark : Option UInt64) (includeCurrent finish : Bool)

structure PauseAck where
  lane : Nat
  maxTimestampNanos : Option UInt64

structure WorkerReport (σ : Type) where
  lane : Nat
  completed : List (QueryWindowState σ)
  current : List (QueryWindowState σ)
  lateEvents : Nat

inductive Message (σ : Type) where
  | drained (ack : PauseAck)
  | paused (ack : PauseAck)
  | report (report : WorkerReport σ)

/-! ## Workers -/

inductive WorkerPhase where
  /-- At the top of the loop. -/
  | head
  /-- In the loop over a batch, after this many events. -/
  | receiving (processed : Nat)
  | paused
  | stopped

structure Worker (σ : Type) where
  session : Session σ
  maxTimestampNanos : Option UInt64
  dataOpen : Bool
  phase : WorkerPhase
  control : List WorkerControl
  events : List FlowEvent
  /-- The capture lane still holds its sender. -/
  connected : Bool
  processed : List FlowEvent
  accepted : List FlowEvent

def observe (backend : Backend σ) (display : Ipv6Text) (call : Call) (s : Session σ) :
    Option (Session σ) :=
  match s.engine.call backend display call with
  | .done engine => some (s.after call engine)
  | .failed _ _ => none

/-- A call that is made or left out. -/
def observeIf (backend : Backend σ) (display : Ipv6Text) (call : Option Call) (s : Session σ) :
    Option (Session σ) :=
  match call with
  | some call => observe backend display call s
  | none => some s

/-- `build_report`. -/
def buildReport (backend : Backend σ) (display : Ipv6Text) (lane : Nat) (s : Session σ)
    (watermark : Option UInt64) (includeCurrent finish : Bool) : Option (WorkerReport σ × Session σ) := do
  let s ← observeIf backend display (watermark.map .advanceTo) s
  let s ← observeIf backend display (if finish then some .finish else none) s
  let completed := s.engine.takeWindowStates.1
  let s ← observe backend display .drain s
  let current ← (if includeCurrent then currentWindowStates backend s.engine.queries else .ok []).toOption
  return ({ lane, completed, current, lateEvents := s.engine.lateEvents }, s)

def laterOf (current : Option UInt64) (event : FlowEvent) : Option UInt64 :=
  some (current.elim event.tsNanos (fun ts => max ts event.tsNanos))

def Worker.ack (w : Worker σ) (lane : Nat) : PauseAck := { lane, maxTimestampNanos := w.maxTimestampNanos }

/-- What the worker of a lane does next, and what it sends. -/
inductive WorkerStep (backend : Backend σ) (display : Ipv6Text) (batchSize lane : Nat) :
    Worker σ → Worker σ → Option (Message σ) → Prop
  | poll {w : Worker σ} (head : w.phase = .head) (quiet : w.control = []) (isOpen : w.dataOpen = true) :
      WorkerStep backend display batchSize lane w { w with phase := .receiving 0 } none
  | receive {w : Worker σ} {processed : Nat} {event : FlowEvent} {rest : List FlowEvent}
      {session : Session σ} (receiving : w.phase = .receiving processed)
      (next : w.events = event :: rest)
      (done : observe backend display (.process event) w.session = some session) :
      WorkerStep backend display batchSize lane w
        { w with
          session
          events := rest
          processed := w.processed ++ [event]
          maxTimestampNanos := laterOf w.maxTimestampNanos event
          phase := if processed + 1 = batchSize then .head else .receiving (processed + 1) } none
  | empty {w : Worker σ} {processed : Nat} (receiving : w.phase = .receiving processed)
      (nothing : w.events = []) (connected : w.connected = true) :
      WorkerStep backend display batchSize lane w { w with phase := .head } none
  | disconnected {w : Worker σ} {processed : Nat} (receiving : w.phase = .receiving processed)
      (nothing : w.events = []) (disconnected : w.connected = false) :
      WorkerStep backend display batchSize lane w { w with phase := .head, dataOpen := false }
        (some (.drained (w.ack lane)))
  | pause {w : Worker σ} {rest : List WorkerControl} (head : w.phase = .head)
      (told : w.control = .pause :: rest) :
      WorkerStep backend display batchSize lane w { w with phase := .paused, control := rest }
        (some (.paused (w.ack lane)))
  | checkpoint {w : Worker σ} {rest : List WorkerControl} {watermark : Option UInt64}
      {includeCurrent finish : Bool} {report : WorkerReport σ} {session : Session σ}
      (paused : w.phase = .paused) (told : w.control = .checkpoint watermark includeCurrent finish :: rest)
      (built : buildReport backend display lane w.session watermark includeCurrent finish =
        some (report, session)) :
      WorkerStep backend display batchSize lane w
        { w with session, control := rest, phase := if finish then .stopped else .head }
        (some (.report report))

/-- What `handle_control` answers with an error. -/
def Worker.Confused (w : Worker σ) : Prop :=
  (∃ rest watermark includeCurrent finish, w.phase = .head ∧
    w.control = .checkpoint watermark includeCurrent finish :: rest) ∨
  ∃ rest, w.phase = .paused ∧ w.control = .pause :: rest

/-! ## The coordinator -/

def drainedError (lane expected : Nat) : String :=
  "queue-local final drain received duplicate or missing lane " ++ toString lane ++
    "; expected lane " ++ toString expected

def publicationError (lane expected : Nat) : String :=
  "queue-local publication received duplicate or missing lane " ++ toString lane ++
    "; expected lane " ++ toString expected

def checkpointError (lane expected : Nat) : String :=
  "queue-local checkpoint received duplicate or missing lane " ++ toString lane ++
    "; expected lane " ++ toString expected

/-- The loop over what was received, in the order of the lanes. -/
def checkLanes (message : Nat → Nat → String) : Nat → List Nat → Except String Unit
  | _, [] => .ok ()
  | expected, lane :: rest =>
    if lane ≠ expected then .error (message lane expected) else checkLanes message (expected + 1) rest

/-- `sort_by_key` by the lane. -/
def sortByLane {α : Type} (lane : α → Nat) (list : List α) : List α :=
  list.mergeSort (fun a b => lane a ≤ lane b)

/-- What is published of a checkpoint. -/
structure Publication (σ : Type) where
  completed : List (WindowKey × WindowState σ)
  current : List (WindowKey × WindowState σ)
  currentBounds : TreeMap String (Nat × Nat)

def mergeWindows (backend : Backend σ) (merged : List (WindowKey × WindowState σ))
    (windows : List (QueryWindowState σ)) : Except SketchError (List (WindowKey × WindowState σ)) :=
  windows.foldlM (fun merged output => mergeOutput backend output merged) merged

def boundsOf (window : QueryWindowState σ) : Nat × Nat :=
  (window.state.windowStartNanos, window.state.windowEndNanos)

def boundsText (bounds : Nat × Nat) : String :=
  "(" ++ toString bounds.1 ++ ", " ++ toString bounds.2 ++ ")"

/-- The bounds of the current windows, as long as they agree. -/
def alignCurrent : TreeMap String (Nat × Nat) → List (QueryWindowState σ) →
    Except SketchError (TreeMap String (Nat × Nat))
  | bounds, [] => .ok bounds
  | bounds, window :: rest =>
    match bounds.get window.queryName with
    | some existing =>
      if existing ≠ boundsOf window then
        .error (.incompatibleMerge ("queue-local query " ++ window.queryName.quote ++
          " has unaligned current windows " ++ boundsText existing ++ " and " ++
          boundsText (boundsOf window)))
      else alignCurrent bounds rest
    | none => alignCurrent (bounds.insert window.queryName (boundsOf window)) rest

def publishReport (backend : Backend σ) (includeCurrent : Bool) (so : Publication σ)
    (report : WorkerReport σ) : Except SketchError (Publication σ) := do
  let completed ← mergeWindows backend so.completed report.completed
  if includeCurrent then
    let currentBounds ← alignCurrent so.currentBounds report.current
    let current ← mergeWindows backend so.current report.current
    return { completed, current, currentBounds }
  else return { so with completed }

/-- The look-up of a window's plan. -/
def knownQuery (plans : List Plan) (entry : WindowKey × WindowState σ) : Except SketchError Unit :=
  if entry.1.queryName ∈ plans.map (fun plan => plan.query.name) then .ok ()
  else .error (.invalidParam ("queue-local runtime produced unknown query " ++ entry.1.queryName.quote))

/-- `publish_reports` up to the estimates, which it makes of known queries only. -/
def publishReports (backend : Backend σ) (plans : List Plan) (includeCurrent : Bool)
    (reports : List (WorkerReport σ)) : Except SketchError (Publication σ) := do
  let publication ← reports.foldlM (publishReport backend includeCurrent)
    { completed := [], current := [], currentBounds := .empty }
  publication.completed.forM (knownQuery plans)
  return publication

inductive AgentError where
  | source (detail : String)
  | engine (error : SketchError)

/-- Where `checkpoint` is. -/
inductive Phase (σ : Type) where
  | idle
  | draining (drained : List PauseAck)
  | pausing (finish : Bool) (sent : Nat) (acknowledgements : List PauseAck)
  | reporting (finish includeCurrent : Bool) (watermark : Option UInt64) (sent : Nat)
      (reports : List (WorkerReport σ))
  | finished
  | failed (error : AgentError)

structure System (σ : Type) where
  workers : List (Worker σ)
  phase : Phase σ
  drained : List PauseAck
  acks : List PauseAck
  reports : List (WorkerReport σ)
  /-- What the checkpoints have published, one after the other. -/
  published : List (List (WindowKey × WindowState σ))

def System.set (s : System σ) (lane : Nat) (w : Worker σ) : System σ :=
  { s with workers := s.workers.set lane w }

def System.send (s : System σ) : Option (Message σ) → System σ
  | none => s
  | some (.drained ack) => { s with drained := s.drained ++ [ack] }
  | some (.paused ack) => { s with acks := s.acks ++ [ack] }
  | some (.report report) => { s with reports := s.reports ++ [report] }

/-- The greatest timestamp that was acknowledged. -/
def watermarkOf (acknowledgements : List PauseAck) : Option UInt64 :=
  (acknowledgements.filterMap PauseAck.maxTimestampNanos).max?

def tell (control : WorkerControl) (w : Worker σ) : Worker σ := { w with control := w.control ++ [control] }

/-- After all drained lanes have been heard of. -/
def afterDrain (drained : List PauseAck) : Phase σ :=
  match checkLanes drainedError 0 ((sortByLane PauseAck.lane drained).map PauseAck.lane) with
  | .ok () => .pausing true 0 []
  | .error detail => .failed (.source detail)

/-- After all lanes have acknowledged the pause. -/
def afterPause (finish includeCurrent : Bool) (acknowledgements : List PauseAck) : Phase σ :=
  match checkLanes publicationError 0 ((sortByLane PauseAck.lane acknowledgements).map PauseAck.lane) with
  | .ok () => .reporting finish includeCurrent (watermarkOf acknowledgements) 0 []
  | .error detail => .failed (.source detail)

/-- After all lanes have reported. -/
def afterReports (backend : Backend σ) (plans : List Plan) (s : System σ) (finish includeCurrent : Bool)
    (reports : List (WorkerReport σ)) : System σ :=
  let reports := sortByLane WorkerReport.lane reports
  match checkLanes checkpointError 0 (reports.map WorkerReport.lane) with
  | .error detail => { s with phase := .failed (.source detail) }
  | .ok () =>
    match publishReports backend plans includeCurrent reports with
    | .error e => { s with phase := .failed (.engine e) }
    | .ok publication =>
      { s with phase := if finish then .finished else .idle
               published := s.published ++ [publication.completed] }

/-! ## Interleavings -/

/-- What may happen next: an event arrives or a capture lane ends, a worker acts, or the coordinator
does. -/
inductive Step (backend : Backend σ) (display : Ipv6Text) (plans : List Plan) (batchSize : Nat)
    (capacities : List Nat) : System σ → System σ → Prop
  | arrive {s : System σ} {lane capacity : Nat} {w : Worker σ} (event : FlowEvent)
      (worker : s.workers[lane]? = some w) (room : capacities[lane]? = some capacity)
      (connected : w.connected = true) (space : w.events.length < capacity) :
      Step backend display plans batchSize capacities s
        (s.set lane { w with events := w.events ++ [event], accepted := w.accepted ++ [event] })
  | hangUp {s : System σ} {lane : Nat} {w : Worker σ} (worker : s.workers[lane]? = some w) :
      Step backend display plans batchSize capacities s
        (s.set lane { w with connected := false })
  | work {s : System σ} {lane : Nat} {w w' : Worker σ} {message : Option (Message σ)}
      (worker : s.workers[lane]? = some w)
      (step : WorkerStep backend display batchSize lane w w' message) :
      Step backend display plans batchSize capacities s
        ((s.set lane w').send message)
  | begin {s : System σ} (idle : s.phase = .idle) (finish : Bool) :
      Step backend display plans batchSize capacities s
        { s with phase := if finish then .draining [] else .pausing false 0 [] }
  | hearDrained {s : System σ} {drained rest : List PauseAck} {ack : PauseAck}
      (draining : s.phase = .draining drained) (short : drained.length < s.workers.length)
      (next : s.drained = ack :: rest) :
      Step backend display plans batchSize capacities s
        { s with phase := .draining (drained ++ [ack]), drained := rest }
  | allDrained {s : System σ} {drained : List PauseAck} (draining : s.phase = .draining drained)
      (all : drained.length = s.workers.length) :
      Step backend display plans batchSize capacities s { s with phase := afterDrain drained }
  | sendPause {s : System σ} {finish : Bool} {sent : Nat} {acknowledgements : List PauseAck}
      {w : Worker σ} (pausing : s.phase = .pausing finish sent acknowledgements)
      (worker : s.workers[sent]? = some w) :
      Step backend display plans batchSize capacities s
        { s.set sent (tell .pause w) with phase := .pausing finish (sent + 1) acknowledgements }
  | hearPause {s : System σ} {finish : Bool} {sent : Nat} {acknowledgements rest : List PauseAck}
      {ack : PauseAck} (pausing : s.phase = .pausing finish sent acknowledgements)
      (all : sent = s.workers.length) (short : acknowledgements.length < s.workers.length)
      (next : s.acks = ack :: rest) :
      Step backend display plans batchSize capacities s
        { s with phase := .pausing finish sent (acknowledgements ++ [ack]), acks := rest }
  | allPaused {s : System σ} {finish : Bool} {sent : Nat} {acknowledgements : List PauseAck}
      (includeCurrent : Bool) (pausing : s.phase = .pausing finish sent acknowledgements)
      (all : acknowledgements.length = s.workers.length) :
      Step backend display plans batchSize capacities s
        { s with phase := afterPause finish includeCurrent acknowledgements }
  | sendCheckpoint {s : System σ} {finish includeCurrent : Bool} {watermark : Option UInt64} {sent : Nat}
      {reports : List (WorkerReport σ)} {w : Worker σ}
      (reporting : s.phase = .reporting finish includeCurrent watermark sent reports)
      (worker : s.workers[sent]? = some w) :
      Step backend display plans batchSize capacities s
        { s.set sent (tell (.checkpoint watermark includeCurrent finish) w) with
            phase := .reporting finish includeCurrent watermark (sent + 1) reports }
  | hearReport {s : System σ} {finish includeCurrent : Bool} {watermark : Option UInt64} {sent : Nat}
      {reports rest : List (WorkerReport σ)} {report : WorkerReport σ}
      (reporting : s.phase = .reporting finish includeCurrent watermark sent reports)
      (all : sent = s.workers.length) (short : reports.length < s.workers.length)
      (next : s.reports = report :: rest) :
      Step backend display plans batchSize capacities s
        { s with phase := .reporting finish includeCurrent watermark sent (reports ++ [report])
                 reports := rest }
  | allReported {s : System σ} {finish includeCurrent : Bool} {watermark : Option UInt64} {sent : Nat}
      {reports : List (WorkerReport σ)}
      (reporting : s.phase = .reporting finish includeCurrent watermark sent reports)
      (all : reports.length = s.workers.length) :
      Step backend display plans batchSize capacities s
        (afterReports backend plans s finish includeCurrent reports)

/-! ## The start -/

def freshWorker (session : Session σ) : Worker σ where
  session
  maxTimestampNanos := none
  dataOpen := true
  phase := .head
  control := []
  events := []
  connected := true
  processed := []
  accepted := []

/-- The engines of `new_with_options`, all moved to the initial watermark. -/
def newWorker (backend : Backend σ) (display : Ipv6Text) (plans : List Plan) (initialWatermark : UInt64) :
    Option (Worker σ) :=
  match QueryEngine.new backend plans with
  | .ok engine => (observe backend display (.advanceTo initialWatermark) (Session.start engine)).map freshWorker
  | .error _ => none

/-- The slots of each lane's queue. -/
def laneCapacities (laneCount totalChannelCapacity : Nat) : List Nat :=
  (List.range laneCount).map (fun lane =>
    totalChannelCapacity / laneCount + if lane < totalChannelCapacity % laneCount then 1 else 0)

/-- `new_with_options`, where every check passes. -/
def newSystem (backend : Backend σ) (display : Ipv6Text) (plans : List Plan)
    (laneCount batchSize totalChannelCapacity : Nat) (initialWatermark : UInt64) : Option (System σ) :=
  if laneCount = 0 ∨ totalChannelCapacity < laneCount ∨ batchSize = 0 then none
  else (newWorker backend display plans initialWatermark).map (fun worker =>
    { workers := List.replicate laneCount worker
      phase := .idle
      drained := []
      acks := []
      reports := []
      published := [] })

/-- Every order of events, messages and checkpoints. -/
inductive Reached (backend : Backend σ) (display : Ipv6Text) (plans : List Plan)
    (laneCount batchSize totalChannelCapacity : Nat) (initialWatermark : UInt64) : System σ → Prop
  | start {s : System σ} (built : newSystem backend display plans laneCount batchSize
      totalChannelCapacity initialWatermark = some s) :
      Reached backend display plans laneCount batchSize totalChannelCapacity initialWatermark s
  | step {s s' : System σ} (before : Reached backend display plans laneCount batchSize
      totalChannelCapacity initialWatermark s)
      (step : Step backend display plans batchSize (laneCapacities laneCount totalChannelCapacity) s s') :
      Reached backend display plans laneCount batchSize totalChannelCapacity initialWatermark s'

end FlowSketch.Source.Agent
