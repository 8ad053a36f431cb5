import Mathlib
import FlowSketch.Lib.SortedMap
import FlowSketch.Source.Runtime.Calls

/-!
# The sharded engine

`ShardedQueryEngine` of `crates/flowsketch-runtime/src/lib.rs`: one engine per shard, fed by batches
that are split over the shards, each shard first moved to the earliest and finally to the latest
timestamp of the whole batch. The thread pool runs the shards in any order and stops starting new
ones once a shard has failed, so a failed batch has several outcomes.
-/

namespace FlowSketch.Source.Runtime
open Lib.Octets Lib.Word64 Lib.SortedMap Source.Core

variable {σ : Type}

inductive ShardStrategy where
  | flow
  | roundRobin
  deriving DecidableEq, Repr

structure ShardedQueryEngine (σ : Type) where
  shards : List (QueryEngine σ)
  plans : List Plan
  hash : HashSpec
  nextBalancedShard : Nat

/-! ## Running the shards -/

/-- The calls one after the other, up to the first fault. -/
def QueryEngine.calls (backend : Backend σ) (display : Ipv6Text) :
    List Call → QueryEngine σ → Run (QueryEngine σ)
  | [], e => .done e
  | call :: rest, e => (e.call backend display call).bind (QueryEngine.calls backend display rest)

/-- `try_for_each` over the shards. A lane is the state of a shard and what running it would give;
once a shard has failed the others may or may not have run. -/
inductive TryForEach {S : Type} (lanes : List (S × Run S)) : List S → Except Fault Unit → Prop
  | ok {after : List S} (all : List.Forall₂ (fun lane s => lane.2 = .done s) lanes after) :
      TryForEach lanes after (.ok ())
  | error {after : List S} {fault : Fault} {stopped : S} {i : Nat} {before : S}
      (ran : List.Forall₂ (fun lane s => s = lane.1 ∨ s = lane.2.state) lanes after)
      (lane : lanes[i]? = some (before, .failed fault stopped)) (left : after[i]? = some stopped) :
      TryForEach lanes after (.error fault)

def batchStart (batches : List (List FlowEvent)) : Option UInt64 :=
  (batches.flatten.map FlowEvent.tsNanos).min?

def watermark (batches : List (List FlowEvent)) : Option UInt64 :=
  (batches.flatten.map FlowEvent.tsNanos).max?

/-- What the closure of `process_shard_refs` calls on the shard that gets `batch`. -/
def laneCalls (batches : List (List FlowEvent)) (batch : List FlowEvent) : List Call :=
  ((batchStart batches).map Call.advanceTo).toList ++ batch.map Call.process ++
    ((watermark batches).map Call.advanceTo).toList

namespace ShardedQueryEngine

variable (backend : Backend σ) (display : Ipv6Text)

/-- The first name that was seen before. -/
def duplicateName (seen : List String) : List String → Option String
  | [] => none
  | name :: rest => if name ∈ seen then some name else duplicateName (name :: seen) rest

def new (plans : List Plan) (hash : HashSpec) (shardCount : Nat) :
    Except SketchError (ShardedQueryEngine σ) :=
  if shardCount = 0 then .error (.invalidParam "runtime shard count must be at least 1")
  else
    match duplicateName [] (plans.map (fun plan => plan.query.name)) with
    | some name =>
      .error (.invalidParam ("duplicate query name " ++ name.quote ++ " in sharded runtime"))
    | none => do
      let shards ← (List.range shardCount).mapM (fun _ => QueryEngine.new backend plans)
      return { shards, plans, hash, nextBalancedShard := 0 }

def processShardRefs (s : ShardedQueryEngine σ) (batches : List (List FlowEvent))
    (shards : List (QueryEngine σ)) (result : Except Fault Unit) : Prop :=
  TryForEach ((s.shards.zip batches).map (fun lane =>
    (lane.1, lane.1.calls backend display (laneCalls batches lane.2)))) shards result

/-- Process already partitioned receive-queue batches. -/
inductive ProcessShardBatches (s : ShardedQueryEngine σ) (batches : List (List FlowEvent)) :
    ShardedQueryEngine σ → Except Fault Unit → Prop
  | mismatch (different : batches.length ≠ s.shards.length) :
      ProcessShardBatches s batches s (.error (.sketch (.invalidParam
        ("received " ++ toString batches.length ++ " shard batches for " ++
          toString s.shards.length ++ " runtime shards"))))
  | run {shards : List (QueryEngine σ)} {result : Except Fault Unit}
      (same : batches.length = s.shards.length)
      (ran : s.processShardRefs backend display batches shards result) :
      ProcessShardBatches s batches { s with shards } result

/-! ## Dispatch -/

/-- The sixteen octets of an address, IPv4 mapped. -/
def octets : IpAddr → Bytes
  | .v4 a b c d => List.replicate 10 0 ++ [0xFF, 0xFF, a, b, c, d]
  | .v6 address => (List.range 16).map (fun i => UInt8.ofNat (address.toNat / 256 ^ (15 - i) % 256))

def bigEndian (port : UInt16) : Bytes :=
  [UInt8.ofNat (port.toNat / 256), UInt8.ofNat (port.toNat % 256)]

/-- The directional 5-tuple, led by the address family. -/
def flowKey (event : FlowEvent) : Bytes :=
  let family : UInt8 := match event.srcIp, event.dstIp with
    | .v4 _ _ _ _, .v4 _ _ _ _ => 4
    | _, _ => 6
  family :: octets event.srcIp ++ octets event.dstIp ++ bigEndian event.srcPort ++
    bigEndian event.dstPort ++ [event.protocol]

def shardFor (hashing : Hashing) (s : ShardedQueryEngine σ) (event : FlowEvent) : Nat :=
  (hashing.hash64 (flowKey event) s.hash.seed).toNat % s.shards.length

/-- One iteration of the dispatch loop: the cursor and the batches so far. -/
def dispatchOne (hashing : Hashing) (s : ShardedQueryEngine σ) (strategy : ShardStrategy)
    (state : Nat × List (List FlowEvent)) (event : FlowEvent) : Nat × List (List FlowEvent) :=
  match strategy with
  | .flow => (state.1, state.2.modify (s.shardFor hashing event) (· ++ [event]))
  | .roundRobin => ((state.1 + 1) % s.shards.length, state.2.modify state.1 (· ++ [event]))

def dispatch (hashing : Hashing) (s : ShardedQueryEngine σ) (strategy : ShardStrategy)
    (events : List FlowEvent) : Nat × List (List FlowEvent) :=
  events.foldl (s.dispatchOne hashing strategy)
    (s.nextBalancedShard, List.replicate s.shards.length [])

/-- The cursor has moved before any shard runs. -/
def ProcessBatchWithStrategy (hashing : Hashing) (s : ShardedQueryEngine σ) (events : List FlowEvent)
    (strategy : ShardStrategy) (s' : ShardedQueryEngine σ) (result : Except Fault Unit) : Prop :=
  ∃ shards, s' = { s with shards, nextBalancedShard := (s.dispatch hashing strategy events).1 } ∧
    s.processShardRefs backend display (s.dispatch hashing strategy events).2 shards result

def Finish (s s' : ShardedQueryEngine σ) (result : Except Fault Unit) : Prop :=
  ∃ shards, s' = { s with shards } ∧
    TryForEach (s.shards.map (fun e => (e, e.finish backend))) shards result

end ShardedQueryEngine

/-! ## Merging the shards' windows -/

/-- The key of the merge map, ordered as the tuple of its parts. -/
structure WindowKey where
  queryName : String
  start : Nat
  stop : Nat
  deriving DecidableEq, Repr

def WindowKey.parts (key : WindowKey) : String ×ₗ Nat ×ₗ Nat :=
  toLex (key.queryName, toLex (key.start, key.stop))

theorem WindowKey.parts_injective : Function.Injective WindowKey.parts := by
  rintro ⟨_, _, _⟩ ⟨_, _, _⟩ same
  simp only [parts, EmbeddingLike.apply_eq_iff_eq, Prod.mk.injEq] at same
  obtain ⟨rfl, rfl, rfl⟩ := same
  rfl

instance : LinearOrder WindowKey := LinearOrder.lift' WindowKey.parts WindowKey.parts_injective

def QueryWindowState.key (output : QueryWindowState σ) : WindowKey where
  queryName := output.queryName
  start := output.state.windowStartNanos
  stop := output.state.windowEndNanos

/-- `WindowState::merge_from`. -/
def WindowState.mergeFrom (backend : Backend σ) (self other : WindowState σ) :
    Except SketchError (WindowState σ) :=
  if (self.windowStartNanos, self.windowEndNanos) ≠ (other.windowStartNanos, other.windowEndNanos) then
    .error (.incompatibleMerge ("window mismatch: [" ++ toString self.windowStartNanos ++ ", " ++
      toString self.windowEndNanos ++ ") vs [" ++ toString other.windowStartNanos ++ ", " ++
      toString other.windowEndNanos ++ ")"))
  else (backend.mergeFrom self.state other.state).map (fun state => { self with state })

/-- One output into the merge map. -/
def mergeOutput (backend : Backend σ) (output : QueryWindowState σ)
    (merged : List (WindowKey × WindowState σ)) :
    Except SketchError (List (WindowKey × WindowState σ)) :=
  upsert output.key output.state (fun state => state.mergeFrom backend output.state) merged

namespace ShardedQueryEngine

/-- The merged states `take_estimates` turns into estimates, and the drained engine. -/
def takeMerged (backend : Backend σ) (s : ShardedQueryEngine σ) :
    Except SketchError (List (WindowKey × WindowState σ) × ShardedQueryEngine σ) := do
  let merged ← (s.shards.flatMap (fun e => e.takeWindowStates.1)).foldlM
    (fun merged output => mergeOutput backend output merged) []
  return (merged, { s with shards := s.shards.map QueryEngine.drained })

def lateEvents (s : ShardedQueryEngine σ) : Nat :=
  s.shards.foldl (fun total e => wrappingAdd total e.lateEvents) 0

end ShardedQueryEngine

end FlowSketch.Source.Runtime
