import FlowSketch.Source.Core.Sketch
import FlowSketch.Source.Ir.Logical

/-!
# The query engine

`crates/flowsketch-runtime/src/lib.rs`. A running query keeps a ring of tumbling buckets and the
windows it has closed but not handed out. The sketch held by a bucket is a parameter: the engine only
builds, updates, merges and counts it, and `Backend` is that interface.

A call either finishes or stops at its first fault; both ways it leaves a state behind, since the
code mutates in place. The scratch buffers for encoded keys are left out: they are cleared before
they are filled.
-/

namespace FlowSketch.Source.Runtime
open Lib.Octets Lib.Word64 Source.Core

inductive Fault where
  | sketch (error : SketchError)
  | panic
  deriving DecidableEq, Repr

inductive Run (S : Type) where
  | done (state : S)
  | failed (fault : Fault) (state : S)

namespace Run

variable {S T : Type}

def bind (first : Run S) (next : S → Run S) : Run S :=
  match first with
  | done s => next s
  | failed fault s => failed fault s

def map (f : S → T) : Run S → Run T
  | done s => done (f s)
  | failed fault s => failed fault (f s)

def state : Run S → S
  | done s => s
  | failed _ s => s

/-- `?` on a value computed without touching the state. -/
def attempt {α : Type} (result : Except SketchError α) (s : S) (next : α → Run S) : Run S :=
  match result with
  | .ok value => next value
  | .error e => failed (.sketch e) s

@[simp] theorem bind_done (s : S) (next : S → Run S) : (done s).bind next = next s := rfl

@[simp] theorem bind_failed (fault : Fault) (s : S) (next : S → Run S) :
    (failed fault s).bind next = failed fault s := rfl

@[simp] theorem attempt_ok {α : Type} (value : α) (s : S) (next : α → Run S) :
    Run.attempt (.ok value) s next = next value := rfl

@[simp] theorem attempt_error {α : Type} (e : SketchError) (s : S) (next : α → Run S) :
    Run.attempt (.error e) s next = failed (.sketch e) s := rfl

/-- Run `step` on the elements in order, stopping at the first fault. -/
def forEach (step : S → Run S) : List S → Run (List S)
  | [] => done []
  | s :: rest =>
    match step s with
    | done s => (forEach step rest).map (s :: ·)
    | failed fault s => failed fault (s :: rest)

end Run

/-- One observation as a bucket's sketch receives it. -/
structure Update where
  key : Bytes
  weight : Nat
  distinct : Bytes
  deriving DecidableEq, Repr

structure Backend (σ : Type) where
  build : PhysicalSketch → Except SketchError σ
  /-- `none` is a panic. -/
  apply : σ → Update → Option σ
  mergeFrom : σ → σ → Except SketchError σ
  updateCount : σ → Nat

structure Bucket (σ : Type) where
  startNanos : Nat
  state : σ

structure WindowState (σ : Type) where
  state : σ
  windowStartNanos : Nat
  windowEndNanos : Nat

structure RunningQuery (σ : Type) where
  plan : Plan
  buckets : List (Bucket σ)
  emitted : List (WindowState σ)
  lateEvents : Nat

/-! ## What an event contributes -/

def distinctField : Measure → Option Field
  | .distinctCount field => some field
  | .entropy field => some field
  | _ => none

def valueField : Measure → Option Field
  | .sum value => some value
  | .heavyHitters value _ => some value
  | .quantile field _ => some field
  | _ => none

def weightOf (plan : Plan) (event : FlowEvent) : Nat :=
  match valueField plan.query.measure with
  | some field => field.extractValue event
  | none => 1

def updateOf (display : Ipv6Text) (plan : Plan) (event : FlowEvent) : Update where
  key := groupKey display plan.query.groupBy event
  weight := weightOf plan event
  distinct :=
    match distinctField plan.query.measure with
    | some field => fieldValue display field event
    | none => []

/-! ## One query -/

namespace RunningQuery

variable {σ : Type}

def new (plan : Plan) : RunningQuery σ := { plan, buckets := [], emitted := [], lateEvents := 0 }

def slideNanos (q : RunningQuery σ) : Nat := q.plan.slide

def bucketCount (q : RunningQuery σ) : Nat := q.plan.windowBuckets

def bucketStartFor (q : RunningQuery σ) (ts : Nat) : Nat := ts - ts % q.slideNanos

def backStart (q : RunningQuery σ) : Option Nat := q.buckets.getLast?.map Bucket.startNanos

def windowsClosedByAdvance (q : RunningQuery σ) (target : Nat) : Nat :=
  match q.backStart with
  | none => 0
  | some back =>
    if target ≤ back then 0
    else
      let slides := (target - back) / q.slideNanos
      if slides > q.bucketCount then q.bucketCount else slides

def backpressure (name : String) (pending additional capacity : Nat) : SketchError :=
  .backpressure ("query " ++ name.quote ++ " has " ++ toString pending ++
    " completed window(s) pending and needs room for " ++ toString additional ++
    " more (capacity " ++ toString capacity ++
    "); drain estimates or window states and retry")

def ensureEmitCapacity (q : RunningQuery σ) (additional : Nat) : Except SketchError Unit :=
  let pending := q.emitted.length
  let capacity := q.plan.pendingWindowCapacity
  if saturatingAdd pending additional > capacity then
    .error (backpressure q.plan.query.name pending additional capacity)
  else .ok ()

def ensureCanAdvance (q : RunningQuery σ) (target : Nat) : Except SketchError Unit :=
  q.ensureEmitCapacity (q.windowsClosedByAdvance target)

def ensureCanProcess (q : RunningQuery σ) (event : FlowEvent) : Except SketchError Unit :=
  if q.plan.query.filter.matches event then q.ensureCanAdvance (q.bucketStartFor event.ts)
  else .ok ()

variable (backend : Backend σ)

def newBucket (q : RunningQuery σ) (startNanos : Nat) : Except SketchError (Bucket σ) :=
  (backend.build q.plan.sketch).map (fun state => { startNanos, state })

/-- `merged.merge_from` over the remaining buckets. -/
def mergeBuckets (merged : σ) (rest : List (Bucket σ)) : Except SketchError σ :=
  rest.foldlM (fun merged b => backend.mergeFrom merged b.state) merged

/-- Merge all open buckets and emit the window ending at `windowEnd`. -/
def flushWindow (q : RunningQuery σ) (windowEnd : Nat) : Run (RunningQuery σ) :=
  match q.buckets with
  | [] => .done q
  | front :: rest =>
    .attempt (q.ensureEmitCapacity 1) q fun _ =>
    .attempt (mergeBuckets backend front.state rest) q fun merged =>
    .done { q with emitted := q.emitted ++
      [{ state := merged, windowStartNanos := front.startNanos, windowEndNanos := windowEnd }] }

/-- One iteration of either advance loop: close the window ending at the next bucket, open that
bucket, pop the front while the ring is too long. -/
def slideOnce (q : RunningQuery σ) : Run (RunningQuery σ) :=
  match q.backStart with
  | none => .failed .panic q
  | some back =>
    let next := wrappingAdd back q.slideNanos
    (q.flushWindow backend next).bind fun q =>
    .attempt (q.newBucket backend next) q fun bucket =>
    let buckets := q.buckets ++ [bucket]
    .done { q with buckets := buckets.drop (buckets.length - q.bucketCount) }

def slideTimes : Nat → RunningQuery σ → Run (RunningQuery σ)
  | 0, q => .done q
  | n + 1, q => (q.slideOnce backend).bind (slideTimes n)

/-- `while back < target`; every round moves the back by at least one, so `target - back` rounds
suffice. -/
def slideUntil (target : Nat) : Nat → RunningQuery σ → Run (RunningQuery σ)
  | 0, q => .done q
  | rounds + 1, q =>
    match q.backStart with
    | none => .failed .panic q
    | some back =>
      if back < target then (q.slideOnce backend).bind (slideUntil target rounds) else .done q

/-- Pushes fresh buckets from `start` up to `target`; the ring bounds the number of rounds. -/
def pushRing (target : Nat) : Nat → Nat → RunningQuery σ → Run (RunningQuery σ)
  | 0, _, q => .done q
  | rounds + 1, start, q =>
    .attempt (q.newBucket backend start) q fun bucket =>
    let q := { q with buckets := q.buckets ++ [bucket] }
    if start = target then .done q
    else pushRing target rounds (wrappingAdd start q.slideNanos) q

def rebuildTrailingRing (q : RunningQuery σ) (target : Nat) : Run (RunningQuery σ) :=
  let slide := q.slideNanos
  let ring := q.bucketCount
  let first := target - slide * min (ring - 1) (target / slide)
  pushRing backend target ring first { q with buckets := [] }

/-- Advance time to `target`, closing any windows that end at or before it. -/
def advanceToBucket (q : RunningQuery σ) (target : Nat) : Run (RunningQuery σ) :=
  .attempt (q.ensureCanAdvance target) q fun _ =>
  match q.backStart with
  | none =>
    .attempt (q.newBucket backend target) q fun bucket =>
    .done { q with buckets := q.buckets ++ [bucket] }
  | some back =>
    if target > back ∧ (target - back) / q.slideNanos > q.bucketCount then
      -- far future: let the open buckets decay, then restart at the target time
      (slideTimes backend q.bucketCount q).bind fun q => q.rebuildTrailingRing backend target
    else slideUntil backend target (target - back) q

def applyAt (q : RunningQuery σ) (index : Nat) (update : Update) : Run (RunningQuery σ) :=
  match q.buckets[index]? with
  | none => .failed .panic q
  | some bucket =>
    match backend.apply bucket.state update with
    | none => .failed .panic q
    | some state => .done { q with buckets := q.buckets.set index { bucket with state } }

def process (display : Ipv6Text) (q : RunningQuery σ) (event : FlowEvent) : Run (RunningQuery σ) :=
  if ¬q.plan.query.filter.matches event then .done q
  else
    let bucketStart := q.bucketStartFor event.ts
    let update := updateOf display q.plan event
    if q.backStart = some bucketStart then q.applyAt backend (q.buckets.length - 1) update
    else
      (q.advanceToBucket backend bucketStart).bind fun q =>
      match q.buckets.findIdx? (fun bucket => bucket.startNanos = bucketStart) with
      | none => .done { q with lateEvents := wrappingAdd q.lateEvents 1 }
      | some index => q.applyAt backend index update

/-- Final flush for offline replay: close the trailing partial window. -/
def finish (q : RunningQuery σ) : Run (RunningQuery σ) :=
  match q.backStart with
  | none => .done q
  | some last =>
    .attempt (q.ensureEmitCapacity 1) q fun _ =>
    q.flushWindow backend (wrappingAdd last q.slideNanos)

end RunningQuery

/-! ## The engine -/

structure QueryEngine (σ : Type) where
  queries : List (RunningQuery σ)
  eventsProcessed : Nat

structure QueryWindowState (σ : Type) where
  queryName : String
  state : WindowState σ

namespace QueryEngine

variable {σ : Type}

/-- One iteration of the constructor's loop: a fresh name, and a sketch that can be built. -/
def addQuery (backend : Backend σ) (queries : List (RunningQuery σ)) (plan : Plan) :
    Except SketchError (List (RunningQuery σ)) :=
  if plan.query.name ∈ queries.map (fun q => q.plan.query.name) then
    .error (.invalidParam ("duplicate query name " ++ plan.query.name.quote ++ " in runtime"))
  else (backend.build plan.sketch).map (fun _ => queries ++ [RunningQuery.new plan])

def new (backend : Backend σ) (plans : List Plan) : Except SketchError (QueryEngine σ) :=
  (plans.foldlM (addQuery backend) []).map (fun queries => { queries, eventsProcessed := 0 })

/-- The first error a check reports over the queries. -/
def preflight (e : QueryEngine σ) (check : RunningQuery σ → Except SketchError Unit) :
    Except SketchError Unit :=
  e.queries.forM check

variable (backend : Backend σ)

def process (display : Ipv6Text) (e : QueryEngine σ) (event : FlowEvent) : Run (QueryEngine σ) :=
  .attempt (e.preflight (fun q => q.ensureCanProcess event)) e fun _ =>
  (Run.forEach (fun q => q.process backend display event) e.queries).map
    (fun queries => { queries, eventsProcessed := wrappingAdd e.eventsProcessed 1 })

/-- Advance every query to a shared event-time watermark. -/
def advanceTo (e : QueryEngine σ) (ts : Nat) : Run (QueryEngine σ) :=
  .attempt (e.preflight (fun q => q.ensureCanAdvance (q.bucketStartFor ts))) e fun _ =>
  (Run.forEach (fun q => q.advanceToBucket backend (q.bucketStartFor ts)) e.queries).map
    (fun queries => { e with queries })

/-- Close trailing windows (offline replay end-of-stream). -/
def finish (e : QueryEngine σ) : Run (QueryEngine σ) :=
  .attempt (e.preflight (fun q => if q.buckets.isEmpty then .ok () else q.ensureEmitCapacity 1)) e
    fun _ =>
  (Run.forEach (fun q => q.finish backend) e.queries).map (fun queries => { e with queries })

/-- Drain completed windows as mergeable sketch states. -/
def takeWindowStates (e : QueryEngine σ) : List (QueryWindowState σ) × QueryEngine σ :=
  (e.queries.flatMap (fun q => q.emitted.map (fun state =>
      { queryName := q.plan.query.name, state })),
    { e with queries := e.queries.map (fun q => { q with emitted := [] }) })

/-- What is left after any drain, of estimates or of states. -/
def drained (e : QueryEngine σ) : QueryEngine σ := e.takeWindowStates.2

def lateEvents (e : QueryEngine σ) : Nat :=
  e.queries.foldl (fun total q => wrappingAdd total q.lateEvents) 0

end QueryEngine

end FlowSketch.Source.Runtime
