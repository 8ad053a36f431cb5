import FlowSketch.Source.Gateway.Complete

/-!
# What the gateway reports

`merged` counts the nodes on the selected window, and shows estimates only when these are all nodes; then
they are the estimates of the merge of all stored windows.
-/

namespace FlowSketch.Source.Gateway
open Lib Lib.Octets Lib.Word64 Source.Core Source.Runtime

variable {F : Type} [LinearOrder F]

/-- What a report of the query says of the stored windows. -/
structure Reported (platform : Platform F) (data : GatewayData F) (plan : Plan) (m : MergedQuery)
    (perNode : TreeMap String (NodeWindow F)) (target : Nat × Nat) : Prop where
  queryName : m.queryName = plan.query.name
  stored : data.nodes.get plan.query.name = some perNode
  selected : selectedWindow perNode = some target
  windowEnd : m.windowEndNanos = target.2
  known : m.nodesKnown = perNode.size
  merged : m.nodesMerged = (onTarget perNode target).length
  estimates : m.estimates ≠ [] →
    (∀ node window, perNode.get node = some window → bounds window.state = target) ∧
    ∃ ws w, ws.Perm ((states perNode).entries.map Prod.snd) ∧ MergeOf platform ws w ∧
      m.estimates = WindowState.estimates platform.cardinality platform.asFloat platform.hashing
        platform.lossy plan w

section

variable {platform : Platform F} {g : GatewayState} {data : GatewayData F}
variable {perNode : TreeMap String (NodeWindow F)}

omit [LinearOrder F] in
theorem onTarget_all {target : Nat × Nat}
    (all : (onTarget perNode target).length = perNode.size) :
    onTarget perNode target = (states perNode).entries.map Prod.snd ∧
      ∀ node window, perNode.get node = some window → bounds window.state = target := by
  have size : (onTarget perNode target).length = ((states perNode).entries.map Prod.snd).length := by
    rw [all, states_size, List.length_map]
  have every := List.length_filter_eq_length_iff.mp size
  refine ⟨List.filter_eq_self.mpr every, fun node window found => ?_⟩
  have listed : (node, window.state) ∈ (states perNode).entries := by
    rw [← TreeMap.get_eq_some_iff, states_get, found]
    rfl
  exact of_decide_eq_true (every _ (List.mem_map_of_mem listed))

/-- The refresh of the final state, and the estimates of what it leaves. -/
theorem refreshFinal_spec {cache : QueryMergeCache F} (coherent : Coherent platform perNode cache)
    {plan : Plan} {sketch : PhysicalSketch} {target : Nat × Nat}
    (all : cache.shardNodes.sum = (onTarget perNode target).length)
    {final : Option (WindowState (QueryState F))}
    (done : mergeFinal platform none cache.shardSummaries = some final)
    (combines : Combines platform g.hash sketch target
      ((List.range mergeCacheShards).flatMap (shardWindows platform perNode target)) final) :
    ∃ cache', refreshFinal platform perNode.size cache = some cache' ∧
      cache'.shardNodes = cache.shardNodes ∧
      (clusterEstimates platform plan perNode.size cache' ≠ [] →
        (∀ node window, perNode.get node = some window → bounds window.state = target) ∧
        ∃ ws w, ws.Perm ((states perNode).entries.map Prod.snd) ∧ MergeOf platform ws w ∧
          clusterEstimates platform plan perNode.size cache' = WindowState.estimates
            platform.cardinality platform.asFloat platform.hashing platform.lossy plan w) := by
  have shown : ∀ cache' : QueryMergeCache F, cache'.shardNodes = cache.shardNodes →
      (∀ w, cache'.finalState = some w → final = some w) →
      clusterEstimates platform plan perNode.size cache' ≠ [] →
        (∀ node window, perNode.get node = some window → bounds window.state = target) ∧
        ∃ ws w, ws.Perm ((states perNode).entries.map Prod.snd) ∧ MergeOf platform ws w ∧
          clusterEstimates platform plan perNode.size cache' = WindowState.estimates
            platform.cardinality platform.asFloat platform.hashing platform.lossy plan w := by
    intro cache' nodes finals visible
    unfold clusterEstimates at visible ⊢
    split at visible
    next complete =>
      rw [if_pos complete]
      rw [nodes, all] at complete
      obtain ⟨everything, bounded⟩ := onTarget_all complete
      cases state : cache'.finalState with
      | none =>
        rw [state] at visible
        exact absurd rfl visible
      | some w =>
        rcases combines with ⟨_, absent⟩ | ⟨merged, present, made, _⟩
        · rw [finals w state] at absent
          cases absent
        · cases (finals w state).symm.trans present
          refine ⟨bounded, _, w, ?_, made, rfl⟩
          exact (shardWindows_perm perNode target).trans (List.Perm.of_eq everything)
    next => exact absurd rfl visible
  unfold refreshFinal
  split
  · refine ⟨{ cache with finalState := final }, Option.bind_eq_some_iff.mpr ⟨final, done, rfl⟩, rfl, ?_⟩
    exact shown _ rfl fun w same => same
  · refine ⟨cache, rfl, rfl, shown cache rfl fun w cached => ?_⟩
    exact Option.some.inj (done.symm.trans (coherent.final w cached))

theorem mergedQuery_spec (coherent : CacheCoherent platform data) (valid : Valid platform g data)
    (plan : Plan) :
    ∃ found data', mergedQuery platform plan data = some (found, data') ∧
      ∀ m, found = some m → ∃ perNode target, Reported platform data plan m perNode target := by
  unfold mergedQuery
  cases stored : data.nodes.get plan.query.name with
  | none => exact ⟨none, data, rfl, nofun⟩
  | some perNode =>
    obtain ⟨cache, cached, fresh⟩ := coherent.present _ perNode rfl stored
    have live := coherent.live _ perNode stored
    obtain ⟨start, maxEnd, selected, _⟩ := selectedWindow_some live
    obtain ⟨own, _, mergeable⟩ := valid.windows stored live
    have target := fresh.target.trans selected
    obtain ⟨_, counts, final, done, combines⟩ := fresh.shards_complete mergeable target
    obtain ⟨cache', refreshed, nodes, visible⟩ :=
      @refreshFinal_spec F _ platform g perNode cache fresh plan own.sketch _ counts final done combines
    rw [cached]
    dsimp only
    rw [target]
    refine ⟨_, _, Option.bind_eq_some_iff.mpr ⟨cache', refreshed, rfl⟩, fun m found => ?_⟩
    cases found
    exact ⟨perNode, (start, maxEnd), rfl, stored, selected, rfl, rfl,
      (congrArg List.sum nodes).trans counts, visible⟩

theorem Reported.same {data' : GatewayData F} {plan : Plan} {m : MergedQuery} {target : Nat × Nat}
    (same : SameWindows data data') (reported : Reported platform data' plan m perNode target) :
    Reported platform data plan m perNode target :=
  { reported with stored := same.nodes ▸ reported.stored }

theorem mergedQueries_spec (coherent : CacheCoherent platform data) (valid : Valid platform g data)
    (plans : List Plan) :
    ∃ found data', mergedQueries platform plans data = some (found, data') ∧
      ∀ m ∈ found, ∃ plan ∈ plans, ∃ perNode target, Reported platform data plan m perNode target := by
  induction plans generalizing data with
  | nil => exact ⟨[], data, rfl, nofun⟩
  | cons plan rest ih =>
    obtain ⟨first, next, step, reported⟩ := mergedQuery_spec coherent valid plan
    have same := mergedQuery_windows step
    obtain ⟨others, last, later, reports⟩ := ih (mergedQuery_coherent coherent step) (valid.same same)
    refine ⟨first.toList ++ others, last, ?_, fun m member => ?_⟩
    · exact Option.bind_eq_some_iff.mpr ⟨(first, next), step,
        Option.bind_eq_some_iff.mpr ⟨(others, last), later, rfl⟩⟩
    · rcases List.mem_append.mp member with here | there
      · obtain ⟨perNode, target, report⟩ := reported m (Option.mem_toList.mp here)
        exact ⟨plan, List.mem_cons_self, perNode, target, report⟩
      · obtain ⟨plan', planned, perNode, target, report⟩ := reports m there
        exact ⟨plan', List.mem_cons_of_mem _ planned, perNode, target, report.same same⟩

theorem merged_spec (coherent : CacheCoherent platform data) (valid : Valid platform g data)
    (readings : Readings) :
    ∃ found data', merged platform g readings data = some (found, data') ∧ Valid platform g data' ∧
      ∀ m ∈ found, ∃ plan ∈ g.plans, ∃ perNode target,
        Reported platform data' plan m perNode target := by
  obtain ⟨next, step, settled⟩ := @evictAndRefresh_total F _ platform g data valid readings
  obtain ⟨found, last, later, reports⟩ :=
    mergedQueries_spec (evictAndRefresh_coherent coherent step) settled g.plans
  have same := mergedQueries_windows later
  refine ⟨found, last, Option.bind_eq_some_iff.mpr ⟨next, step, later⟩, settled.same same,
    fun m member => ?_⟩
  obtain ⟨plan, planned, perNode, target, report⟩ := reports m member
  have back : SameWindows last next := ⟨same.nodes.symm, same.retained.symm⟩
  exact ⟨plan, planned, perNode, target, report.same back⟩

/-- Pushes without collisions never make a call panic. -/
theorem call_total (coherent : CacheCoherent platform data) (valid : Valid platform g data)
    (request : Call) (separated : ∀ batch readings now, request = .applyBatch batch readings now →
      Separated platform g batch) :
    ∃ data', call platform g data request = some data' ∧ Valid platform g data' := by
  cases request with
  | applyBatch batch readings now =>
    obtain ⟨result, data', done, settled⟩ := applyBatch_total valid (separated batch readings now rfl)
      readings now
    exact ⟨data', by rw [call, done]; rfl, settled⟩
  | merged readings =>
    obtain ⟨found, data', done, settled, _⟩ := merged_spec coherent valid readings
    exact ⟨data', by rw [call, done]; rfl, settled⟩
  | renderMetrics readings =>
    obtain ⟨found, data', done, settled, _⟩ := merged_spec coherent valid readings
    exact ⟨data', by rw [call, renderMetrics, done]; rfl, settled⟩
  | nodesJson readings ages =>
    obtain ⟨data', done, settled⟩ := evictAndRefresh_total valid readings
    exact ⟨data', by rw [call, nodesJson, done]; rfl, settled⟩

/-- Runs of pushes without collisions. -/
theorem run_total {calls : List Call} (separated : ∀ batch readings now,
      Call.applyBatch batch readings now ∈ calls → Separated platform g batch) :
    ∃ data, run platform g calls = some data ∧ CacheCoherent platform data ∧ Valid platform g data := by
  suffices total : ∀ (calls : List Call) (before : GatewayData F), CacheCoherent platform before →
      Valid platform g before → (∀ batch readings now, Call.applyBatch batch readings now ∈ calls →
        Separated platform g batch) →
      ∃ data, calls.foldlM (call platform g) before = some data ∧ CacheCoherent platform data ∧
        Valid platform g data from
    total calls .empty (.empty platform) (fun _ _ _ found => by cases found) separated
  intro calls
  induction calls with
  | nil => exact fun before coherent valid _ => ⟨before, rfl, coherent, valid⟩
  | cons request rest ih =>
    intro before coherent valid separated
    obtain ⟨next, step, settled⟩ := call_total coherent valid request fun batch readings now same =>
      separated batch readings now (same ▸ List.mem_cons_self)
    obtain ⟨data, done, result⟩ := ih next (call_coherent coherent step) settled
      fun batch readings now member => separated batch readings now (List.mem_cons_of_mem _ member)
    exact ⟨data, by rw [List.foldlM_cons, step]; exact done, result⟩

end

/-- In every run no merge in the cache fails or panics: each shard is the merge of all its windows, with
their number, and the cache is as from scratch. A report counts the nodes on the selected window, and
shows estimates only of the merge of all stored windows. -/
theorem merges_complete (platform : Platform F) (g : GatewayState) {calls : List Call}
    (separated : ∀ batch readings now, Call.applyBatch batch readings now ∈ calls →
      Separated platform g batch) :
    ∃ data, run platform g calls = some data ∧ CacheCoherent platform data ∧
      (∀ query perNode, data.nodes.get query = some perNode → ∃ cache target,
        data.mergeCache.get query = some cache ∧ selectedWindow perNode = some target ∧
        cache.target = some target ∧
        ∀ shard < mergeCacheShards, ∃ state, cache.shardStates[shard]? = some state ∧
          cache.shardNodes[shard]? = some (shardWindows platform perNode target shard).length ∧
          (shardWindows platform perNode target shard = [] ∧ state = none ∨
            ∃ w, state = some w ∧ MergeOf platform (shardWindows platform perNode target shard) w)) ∧
      ∀ readings, ∃ queries after, merged platform g readings data = some (queries, after) ∧
        ∀ m ∈ queries, ∃ plan ∈ g.plans, ∃ perNode target,
          Reported platform after plan m perNode target := by
  obtain ⟨data, ran, coherent, valid⟩ := run_total separated
  refine ⟨data, ran, coherent, fun query perNode stored => ?_, fun readings => ?_⟩
  · obtain ⟨cache, cached, fresh⟩ := coherent.present query perNode rfl stored
    have live := coherent.live query perNode stored
    obtain ⟨start, maxEnd, selected, _⟩ := selectedWindow_some live
    obtain ⟨plan, _, mergeable⟩ := valid.windows stored live
    obtain ⟨each, _⟩ := fresh.shards_complete mergeable (fresh.target.trans selected)
    refine ⟨cache, (start, maxEnd), cached, selected, fresh.target.trans selected, fun shard inside => ?_⟩
    obtain ⟨state, here, there, combines⟩ := each shard inside
    refine ⟨state, here, there, combines.imp_right ?_⟩
    rintro ⟨w, present, made, _⟩
    exact ⟨w, present, made⟩
  · obtain ⟨queries, after, done, _, reports⟩ := merged_spec coherent valid readings
    exact ⟨queries, after, done, reports⟩

/-! ## One node that pushes -/

def smallPlatform : Platform Nat where
  cardinality := noCardinality
  hashing := fsk1
  asFloat := Float.ofNat
  lossy := fun _ => ""
  memoryBytes := fun _ _ _ => 100

/-- The heaviest source over windows of ten nanoseconds. -/
def smallPlan : Plan where
  query := { name := "top", filter := Predicate.all, groupBy := [.srcIp],
             measure := .heavyHitters .bytes 1, window := { sizeNanos := 10, slideNanos := 10 },
             alert := { gt := none, lt := none }, maxSeries := 1 }
  sketch := .spaceSaving 1
  windowBuckets := 1
  pendingWindowCapacity := 1
  exportSeriesUpperBound := 1
  slide_pos := by decide
  slide_word := by decide
  size_word := by decide
  buckets_eq := by decide
  pending_eq := rfl
  serves := .heavyHitters .bytes 1 1

def smallGateway : GatewayState :=
  { plans := [smallPlan], hash := HashSpec.new 1, staleAfter := 60, maxNodes := 2
    maxRetainedSketchBytes := 1000 }

def smallSnapshot : Bytes := (loneEntry { count := 3, error := 0 }).toSnapshot fsk1 0 10

/-- The window from 0 to 10 with one source. -/
def smallPush : PushBatch :=
  { node := "a"
    entries := [{ queryName := "top", component := Component.spaceSaving, snapshot := smallSnapshot }] }

theorem smallGateway_separated (batch : PushBatch) : Separated smallPlatform smallGateway batch := by
  intro e _ plan planned own _ built
  rw [List.mem_singleton.mp planned] at built
  cases built

theorem smallPush_validates : ∃ w, validates smallPlatform smallGateway smallPush =
    ([], [{ query := "top", state := w, memoryBytes := 100 }]) := by
  obtain ⟨ss, accepted, _⟩ := @loneEntry_accepted { count := 3, error := 0 } (by decide) (by decide)
  refine ⟨{ state := .heavyHitters ss, windowStartNanos := 0, windowEndNanos := 10 }, ?_⟩
  have window : WindowState.fromComponents smallPlatform.cardinality smallPlatform.hashing
      smallPlan.sketch smallGateway.hash [(Component.spaceSaving, smallSnapshot)] = .ok _ := accepted
  have valid : validate smallPlatform smallGateway "top" [(Component.spaceSaving, smallSnapshot)] =
      .ok { query := "top", memoryBytes := 100
            state := { state := .heavyHitters ss, windowStartNanos := 0, windowEndNanos := 10 } } := by
    rw [validate, show findPlan smallGateway "top" = some smallPlan from rfl]
    dsimp only
    rw [window]
    rfl
  show validateAll _ _ "a" [("top", [_])] = _
  rw [validateAll, valid]
  rfl

theorem merges_complete_small : ∃ data, run smallPlatform smallGateway
      [.applyBatch smallPush (fun _ _ => 0) 0, .merged (fun _ _ => 1)] = some data ∧
    CacheCoherent smallPlatform data := by
  obtain ⟨data, ran, coherent, _⟩ := @merges_complete Nat _ smallPlatform smallGateway
    [.applyBatch smallPush (fun _ _ => 0) 0, .merged (fun _ _ => 1)]
    fun batch _ _ _ => smallGateway_separated batch
  exact ⟨data, ran, coherent⟩

end FlowSketch.Source.Gateway
