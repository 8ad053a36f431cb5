import FlowSketch.Lib.TreeMap
import FlowSketch.Source.Gateway.Batch
import FlowSketch.Source.Runtime.Estimates
import FlowSketch.Source.Runtime.Halves

/-!
# Gateway state

`crates/flowsketch-gateway/src/state.rs`: the latest validated window of each node for each query, and a
cache of their merge that is refreshed shard by shard. A call holds the lock from its first read to its
last write, so calls follow one another. What it reads of the clock comes with the call, in nanoseconds.
The counters and gauges of `/metrics` and its text are left out.
-/

namespace FlowSketch.Source.Gateway
open Lib Lib.Octets Lib.Word64 Source.Core Source.Runtime

/-- What a gateway uses of its platform: floating point, the text of a key, and the bytes that a state
built from these components has allocated. -/
structure Platform (F : Type) [LinearOrder F] where
  cardinality : Cardinality F
  hashing : Hashing
  asFloat : F → Float
  lossy : Bytes → String
  memoryBytes : PhysicalSketch → HashSpec → List (String × Bytes) → Nat

/-- The newest validated snapshot from one node for one query. -/
structure NodeWindow (F : Type) where
  received : Nat
  state : WindowState (QueryState F)
  memoryBytes : Nat

def mergeCacheShards : Nat := 16

structure QueryMergeCache (F : Type) where
  target : Option (Nat × Nat)
  shardStates : List (Option (WindowState (QueryState F)))
  shardNodes : List Nat
  /-- Lazily merged from at most `mergeCacheShards` shard summaries. Any node update invalidates it. -/
  finalState : Option (WindowState (QueryState F))

def QueryMergeCache.default {F : Type} : QueryMergeCache F :=
  { target := none, shardStates := [], shardNodes := [], finalState := none }

structure GatewayData (F : Type) where
  /-- Query name, then node name, to the latest window. -/
  nodes : TreeMap String (TreeMap String (NodeWindow F))
  mergeCache : TreeMap String (QueryMergeCache F)
  retainedSketchBytes : Nat

/-- The part of `GatewayState` that does not change. -/
structure GatewayState where
  plans : List Plan
  hash : HashSpec
  staleAfter : Nat
  maxNodes : Nat
  maxRetainedSketchBytes : Nat

/-- Why a query state was rejected. -/
inductive Refusal where
  | unknown
  | invalid (e : SketchError)
  | nodesFull (maxNodes : Nat)
  | overflowed (retained replacing incoming : Nat)
  | overBudget (projected budget retained replacing incoming : Nat)

structure Rejection where
  query : String
  node : String
  refusal : Refusal

structure ApplyResult where
  accepted : Nat
  rejected : List Rejection

/-! ## Texts -/

def errorText : SketchError → String
  | .invalidParam message => "invalid sketch parameter: " ++ message
  | .incompatibleMerge message => "incompatible merge: " ++ message
  | .snapshot message => "snapshot decode error: " ++ message
  | .backpressure message => "runtime output backpressure: " ++ message

def Rejection.text (r : Rejection) : String :=
  let from_node := "query " ++ r.query.quote ++ " from node " ++ r.node.quote ++ ": "
  match r.refusal with
  | .unknown => "query " ++ r.query.quote ++ " is not configured on this gateway"
  | .invalid e => from_node ++ errorText e
  | .nodesFull maxNodes => from_node ++ "gateway node capacity " ++ toString maxNodes ++ " is full"
  | .overflowed retained replacing incoming =>
    from_node ++ "retained sketch-byte accounting overflowed (currently " ++ toString retained ++
      ", replacing " ++ toString replacing ++ ", incoming " ++ toString incoming ++ ")"
  | .overBudget projected budget retained replacing incoming =>
    from_node ++ "retaining this state would use " ++ toString projected ++
      " bytes, exceeding gateway.maxRetainedSketchBytes=" ++ toString budget ++ " (currently " ++
      toString retained ++ ", replacing " ++ toString replacing ++ ", incoming " ++
      toString incoming ++ ")"

namespace GatewayData

variable {F : Type}

def empty : GatewayData F :=
  { nodes := .empty, mergeCache := .empty, retainedSketchBytes := 0 }

def stored (data : GatewayData F) (query node : String) : Option (NodeWindow F) :=
  (data.nodes.get query).bind (fun perNode => perNode.get node)

/-- `data.nodes.entry(query).or_default().insert(node, window)`. -/
def put (data : GatewayData F) (query node : String) (window : NodeWindow F) : GatewayData F :=
  { data with nodes := data.nodes.insert query (((data.nodes.get query).getD .empty).insert node window) }

def uniqueNodes (data : GatewayData F) : Finset String :=
  (data.nodes.entries.flatMap (fun entry => AssocMap.keys entry.2.entries)).toFinset

def uniqueNodeCount (data : GatewayData F) : Nat := data.uniqueNodes.card

end GatewayData

/-- Query name to the shards that changed. -/
abbrev Changed := TreeMap String (Finset Nat)

def mark (changed : Changed) (query : String) (shard : Nat) : Changed :=
  changed.insert query (Insert.insert shard ((changed.get query).getD ∅))

/-- What the clock says when the window of this query and node is looked at. -/
abbrev Readings := String → String → Nat

/-! ## The cluster window -/

section

variable {F : Type}

/-- A vote for the start of a window with the latest end. -/
def vote (maxEnd : Nat) (votes : TreeMap Nat Nat) (state : WindowState (QueryState F)) :
    TreeMap Nat Nat :=
  if state.windowEndNanos = maxEnd then
    votes.insert state.windowStartNanos ((votes.get state.windowStartNanos).getD 0 + 1)
  else votes

/-- `max_by`, most votes first and then the smallest start: the later of two elements is kept unless it
compares less. -/
def keepGreater (best next : Nat × Nat) : Nat × Nat :=
  if best.2 < next.2 ∨ best.2 = next.2 ∧ next.1 ≤ best.1 then next else best

def selectedWindow (perNode : TreeMap String (NodeWindow F)) : Option (Nat × Nat) := do
  let windows := perNode.entries.map (fun entry => entry.2.state)
  let maxEnd ← (windows.map WindowState.windowEndNanos).max?
  match (windows.foldl (vote maxEnd) .empty).entries with
  | [] => none
  | first :: rest => some ((rest.foldl keepGreater first).1, maxEnd)

def bounds (w : WindowState (QueryState F)) : Nat × Nat := (w.windowStartNanos, w.windowEndNanos)

variable [LinearOrder F] (platform : Platform F)

def mergeShard (node : String) : Nat :=
  (platform.hashing.hash64 (asBytes node) 0).toNat % mergeCacheShards

/-- One round of `merge_cache_shard` over a window of the shard. `none` is a panic. -/
def joinWindow (so : Option (WindowState (QueryState F)) × Nat) (state : WindowState (QueryState F)) :
    Option (Option (WindowState (QueryState F)) × Nat) :=
  match so.1 with
  | none => some (some state, 1)
  | some merged => do
    let (result, merged) ← merged.mergeInto platform.cardinality platform.hashing state
    return (some merged, if result.isOk then so.2 + 1 else so.2)

def mergeCacheShard (perNode : TreeMap String (NodeWindow F)) (target : Nat × Nat) (shard : Nat) :
    Option (Option (WindowState (QueryState F)) × Nat) :=
  perNode.entries.foldlM (fun so (node, window) =>
    if mergeShard platform node ≠ shard ∨ bounds window.state ≠ target then some so
    else joinWindow platform so window.state) (none, 0)

def rebuildShard (perNode : TreeMap String (NodeWindow F)) (target : Nat × Nat)
    (cache : QueryMergeCache F) (shard : Nat) : Option (QueryMergeCache F) := do
  let (state, count) ← mergeCacheShard platform perNode target shard
  return { cache with shardStates := cache.shardStates.set shard state
                      shardNodes := cache.shardNodes.set shard count }

/-- The cache of a query with windows. -/
def refreshCache (perNode : TreeMap String (NodeWindow F)) (target : Nat × Nat)
    (cache : QueryMergeCache F) (changedShards : Finset Nat) : Option (QueryMergeCache F) := do
  let rebuildAll := cache.target ≠ some target ∨ cache.shardStates.length ≠ mergeCacheShards ∨
    cache.shardNodes.length ≠ mergeCacheShards
  let cache := if rebuildAll then
      { cache with target := some target, shardStates := List.replicate mergeCacheShards none
                   shardNodes := List.replicate mergeCacheShards 0 }
    else cache
  let shards := if rebuildAll then List.range mergeCacheShards else changedShards.sort (· ≤ ·)
  let cache ← shards.foldlM (rebuildShard platform perNode target) cache
  return if shards.isEmpty then cache else { cache with finalState := none }

def refreshQueryCache (data : GatewayData F) (query : String) (changedShards : Finset Nat) :
    Option (GatewayData F) :=
  match data.nodes.get query with
  | none => some { data with mergeCache := data.mergeCache.erase query }
  | some perNode =>
    match selectedWindow perNode with
    | none => some { data with mergeCache := data.mergeCache.erase query }
    | some target => do
      let cache := (data.mergeCache.get query).getD .default
      let cache ← refreshCache platform perNode target cache changedShards
      return { data with mergeCache := data.mergeCache.insert query cache }

def refreshChangedCaches (data : GatewayData F) (changed : Changed) : Option (GatewayData F) :=
  changed.entries.foldlM (fun data (query, shards) => refreshQueryCache platform data query shards) data

/-! ## Staleness -/

def isStale (g : GatewayState) (readings : Readings) (query node : String) (window : NodeWindow F) :
    Bool :=
  g.staleAfter ≤ readings query node - window.received

/-- The windows that are dropped, in the order they are dropped in. -/
def staleWindows (g : GatewayState) (readings : Readings) (data : GatewayData F) :
    List (NodeWindow F) :=
  data.nodes.entries.flatMap (fun (query, perNode) =>
    (perNode.filter (isStale g readings query)).entries.map Prod.snd)

/-- `saturating_sub` is the subtraction of natural numbers. -/
def evictStale (g : GatewayState) (readings : Readings) (data : GatewayData F) :
    GatewayData F × Changed :=
  let fresh := data.nodes.mapValues (fun query perNode =>
    perNode.filter (fun node window => !isStale g readings query node window))
  let stale := data.nodes.mapValues (fun query perNode =>
    ((perNode.filter (isStale g readings query)).entries.map
      (fun entry => mergeShard platform entry.1)).toFinset)
  ({ data with
      nodes := fresh.filter (fun _ perNode => !perNode.isEmpty)
      retainedSketchBytes := (staleWindows g readings data).foldl
        (fun bytes window => bytes - window.memoryBytes) data.retainedSketchBytes },
    stale.filter (fun _ shards => shards ≠ ∅))

def evict (g : GatewayState) (readings : Readings) (data : GatewayData F) : GatewayData F :=
  (evictStale platform g readings data).1

/-- The two lines that `apply_batch`, `merged` and `nodes_json` begin with. -/
def evictAndRefresh (g : GatewayState) (readings : Readings) (data : GatewayData F) :
    Option (GatewayData F) :=
  let (data, changed) := evictStale platform g readings data
  refreshChangedCaches platform data changed

/-! ## Pushes -/

/-- The component snapshots of a batch by query. -/
def groupByQuery (entries : List PushEntry) : TreeMap String (List (String × Bytes)) :=
  entries.foldl (fun byQuery e =>
    byQuery.insert e.queryName ((byQuery.get e.queryName).getD [] ++ [(e.component, e.snapshot)])) .empty

structure Validated (F : Type) where
  query : String
  state : WindowState (QueryState F)
  memoryBytes : Nat

def findPlan (g : GatewayState) (query : String) : Option Plan :=
  g.plans.find? (fun plan => plan.query.name = query)

def validate (g : GatewayState) (query : String) (components : List (String × Bytes)) :
    Except Refusal (Validated F) :=
  match findPlan g query with
  | none => .error .unknown
  | some plan =>
    match WindowState.fromComponents platform.cardinality platform.hashing plan.sketch g.hash components
    with
    | .ok state =>
      .ok { query, state, memoryBytes := platform.memoryBytes plan.sketch g.hash components }
    | .error e => .error (.invalid e)

/-- The first loop of `apply_batch`. -/
def validateAll (g : GatewayState) (node : String) :
    List (String × List (String × Bytes)) → List Rejection × List (Validated F)
  | [] => ([], [])
  | (query, components) :: rest =>
    let (rejected, validated) := validateAll g node rest
    match validate platform g query components with
    | .ok v => (rejected, v :: validated)
    | .error refusal => ({ query, node, refusal } :: rejected, validated)

structure Admission (F : Type) where
  data : GatewayData F
  changed : Changed
  accepted : Nat
  rejected : List Rejection

def Admission.reject (so : Admission F) (query node : String) (refusal : Refusal) : Admission F :=
  { so with rejected := so.rejected ++ [{ query, node, refusal }] }

/-- `data.retained_sketch_bytes` with one state exchanged for another. -/
def projected (retained oldBytes newBytes : Nat) : Option Nat := do
  let bytes ← checkedSub retained oldBytes
  checkedAdd bytes newBytes

/-- One round of the second loop of `apply_batch`. -/
def admitState (g : GatewayState) (node : String) (now : Nat) (so : Admission F) (v : Validated F) :
    Admission F :=
  let previous := so.data.stored v.query node
  match previous.filter (fun window => v.state.windowEndNanos < window.state.windowEndNanos) with
  | some newer =>
    -- A stale push keeps the newer window and refreshes its liveness.
    { so with data := so.data.put v.query node { newer with received := now }
              accepted := so.accepted + 1 }
  | none =>
    let oldBytes := previous.elim 0 NodeWindow.memoryBytes
    let retained := so.data.retainedSketchBytes
    match projected retained oldBytes v.memoryBytes with
    | none => so.reject v.query node (.overflowed retained oldBytes v.memoryBytes)
    | some bytes =>
      if bytes > g.maxRetainedSketchBytes then
        so.reject v.query node
          (.overBudget bytes g.maxRetainedSketchBytes retained oldBytes v.memoryBytes)
      else
        let window := { received := now, state := v.state, memoryBytes := v.memoryBytes }
        { so with data := { so.data.put v.query node window with retainedSketchBytes := bytes }
                  changed := mark so.changed v.query (mergeShard platform node)
                  accepted := so.accepted + 1 }

/-- The second half of `apply_batch`, once the stale windows are gone. -/
def admitAll (g : GatewayState) (node : String) (now : Nat) (rejected : List Rejection)
    (validated : List (Validated F)) (data : GatewayData F) : Option (ApplyResult × GatewayData F) :=
  if node ∉ data.uniqueNodes ∧ g.maxNodes ≤ data.uniqueNodeCount then
    some ({ accepted := 0, rejected := rejected ++ validated.map (fun v =>
      { query := v.query, node, refusal := .nodesFull g.maxNodes }) }, data)
  else do
    let so := validated.foldl (admitState platform g node now)
      { data, changed := .empty, accepted := 0, rejected }
    let data ← refreshChangedCaches platform so.data so.changed
    return ({ accepted := so.accepted, rejected := so.rejected }, data)

def applyBatch (g : GatewayState) (readings : Readings) (now : Nat) (batch : PushBatch)
    (data : GatewayData F) : Option (ApplyResult × GatewayData F) :=
  let (rejected, validated) := validateAll platform g batch.node (groupByQuery batch.entries).entries
  if validated.isEmpty then some ({ accepted := 0, rejected }, data)
  else do
    let data ← evictAndRefresh platform g readings data
    admitAll platform g batch.node now rejected validated data

/-! ## Reports -/

structure MergedQuery where
  queryName : String
  nodesKnown : Nat
  nodesMerged : Nat
  windowEndNanos : Nat
  estimates : List SketchEstimate

/-- The loop that merges the shards. -/
def mergeFinal : Option (WindowState (QueryState F)) → List (WindowState (QueryState F)) →
    Option (Option (WindowState (QueryState F)))
  | final, [] => some final
  | none, shard :: rest => mergeFinal (some shard) rest
  | some state, shard :: rest => do
    let (result, state) ← state.mergeInto platform.cardinality platform.hashing shard
    match result with
    | .ok () => mergeFinal (some state) rest
    | .error _ => return none

def QueryMergeCache.shardSummaries (cache : QueryMergeCache F) : List (WindowState (QueryState F)) :=
  cache.shardStates.filterMap id

/-- A subset of the nodes is never merged. -/
def refreshFinal (nodesKnown : Nat) (cache : QueryMergeCache F) : Option (QueryMergeCache F) :=
  if cache.shardNodes.sum = nodesKnown ∧ cache.finalState.isNone then do
    let finalState ← mergeFinal platform none cache.shardSummaries
    return { cache with finalState }
  else some cache

def clusterEstimates (plan : Plan) (nodesKnown : Nat) (cache : QueryMergeCache F) :
    List SketchEstimate :=
  if cache.shardNodes.sum = nodesKnown then
    cache.finalState.elim []
      (WindowState.estimates platform.cardinality platform.asFloat platform.hashing platform.lossy plan)
  else []

/-- One round of the loop of `merged`. -/
def mergedQuery (plan : Plan) (data : GatewayData F) : Option (Option MergedQuery × GatewayData F) :=
  match data.nodes.get plan.query.name, data.mergeCache.get plan.query.name with
  | some perNode, some cache =>
    match cache.target with
    | none => some (none, data)
    | some (_, windowEndNanos) => do
      let cache ← refreshFinal platform perNode.size cache
      return (some { queryName := plan.query.name, nodesKnown := perNode.size
                     nodesMerged := cache.shardNodes.sum, windowEndNanos
                     estimates := clusterEstimates platform plan perNode.size cache },
        { data with mergeCache := data.mergeCache.insert plan.query.name cache })
  | _, _ => some (none, data)

def mergedQueries : List Plan → GatewayData F → Option (List MergedQuery × GatewayData F)
  | [], data => some ([], data)
  | plan :: rest, data => do
    let (found, data) ← mergedQuery platform plan data
    let (others, data) ← mergedQueries rest data
    return (found.toList ++ others, data)

def merged (g : GatewayState) (readings : Readings) (data : GatewayData F) :
    Option (List MergedQuery × GatewayData F) := do
  let data ← evictAndRefresh platform g readings data
  mergedQueries platform g.plans data

/-- What `render_metrics` prints of the merge. -/
structure Metrics where
  estimates : List SketchEstimate
  queries : List MergedQuery

def renderMetrics (g : GatewayState) (readings : Readings) (data : GatewayData F) :
    Option (Metrics × GatewayData F) := do
  let (queries, data) ← merged platform g readings data
  let complete := queries.filter (fun m => m.nodesMerged = m.nodesKnown)
  return ({ estimates := complete.flatMap MergedQuery.estimates, queries }, data)

structure NodeReport where
  node : String
  windowStartNanos : Nat
  windowEndNanos : Nat
  sketchBytes : Nat
  updateCount : Nat
  ageSeconds : Nat

/-- `ages` are the readings for the age, taken after those for staleness. -/
def nodesJson (g : GatewayState) (readings ages : Readings) (data : GatewayData F) :
    Option (List (String × List NodeReport) × GatewayData F) := do
  let data ← evictAndRefresh platform g readings data
  let report (query : String) (entry : String × NodeWindow F) : NodeReport :=
    { node := entry.1
      windowStartNanos := entry.2.state.windowStartNanos
      windowEndNanos := entry.2.state.windowEndNanos
      sketchBytes := entry.2.memoryBytes
      updateCount := entry.2.state.updateCount
      ageSeconds := (ages query entry.1 - entry.2.received) / 1000000000 }
  return (data.nodes.entries.map (fun (query, perNode) => (query, perNode.entries.map (report query))),
    data)

/-! ## Runs -/

inductive Call where
  | applyBatch (batch : PushBatch) (readings : Readings) (now : Nat)
  | merged (readings : Readings)
  | renderMetrics (readings : Readings)
  | nodesJson (readings ages : Readings)

def call (g : GatewayState) (data : GatewayData F) : Call → Option (GatewayData F)
  | .applyBatch batch readings now => (applyBatch platform g readings now batch data).map Prod.snd
  | .merged readings => (merged platform g readings data).map Prod.snd
  | .renderMetrics readings => (renderMetrics platform g readings data).map Prod.snd
  | .nodesJson readings ages => (nodesJson platform g readings ages data).map Prod.snd

/-- A gateway from its start on; `none` once a call has panicked. -/
def run (g : GatewayState) (calls : List Call) : Option (GatewayData F) :=
  calls.foldlM (call platform g) .empty

end

end FlowSketch.Source.Gateway
