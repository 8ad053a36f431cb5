import FlowSketch.Lib.Latest
import FlowSketch.Source.Gateway.Reports

/-!
# Deliveries in any order

Seen through the windows alone, a gateway is one register for each query and node, and a push gives its
valid states to the registers of its node. So which windows are stored depends only on which batches were
delivered, and what `merged` returns only on the stored windows.
-/

namespace FlowSketch.Source.Gateway
open Lib Lib.Octets Lib.Word64 Lib.Latest Source.Core Source.Runtime

variable {F : Type}

/-- The window that is stored, without the time it was received at. -/
def GatewayData.window (data : GatewayData F) (query node : String) :
    Option (WindowState (QueryState F)) :=
  (data.stored query node).map NodeWindow.state

structure Delivery where
  batch : PushBatch
  readings : Readings
  now : Nat

def Delivery.call (d : Delivery) : Call := .applyBatch d.batch d.readings d.now

/-- Refused for what it is, not for want of room. -/
def Refusal.OfContent : Refusal → Prop
  | .unknown => True
  | .invalid _ => True
  | _ => False

theorem window_same {data data' : GatewayData F} (same : SameWindows data data') (query node : String) :
    data'.window query node = data.window query node := by
  rw [GatewayData.window, GatewayData.window, same.stored]

theorem window_put (data : GatewayData F) (query node : String) (window : NodeWindow F)
    (query' node' : String) :
    (data.put query node window).window query' node' =
      if query' = query ∧ node' = node then some window.state else data.window query' node' := by
  rw [GatewayData.window, GatewayData.stored_put]
  split <;> rfl

variable [LinearOrder F] (platform : Platform F) (g : GatewayState)

/-- What a batch has for the register of this query and node. -/
def gives (batch : PushBatch) (query node : String) : List (WindowState (QueryState F)) :=
  ((validates platform g batch).2.filter (fun v => v.query = query ∧ batch.node = node)).map
    Validated.state

def given (batches : List PushBatch) (query node : String) : List (WindowState (QueryState F)) :=
  batches.flatMap (fun batch => gives platform g batch query node)

/-- No window was stale at a delivery, and nothing was refused for want of room. -/
def Unhindered : GatewayData F → List Delivery → Prop
  | _, [] => True
  | data, d :: rest => staleWindows g d.readings data = [] ∧
    ∀ result after, applyBatch platform g d.readings d.now d.batch data = some (result, after) →
      (∀ r ∈ result.rejected, r.refusal.OfContent) ∧ Unhindered after rest

section

variable {platform g}

/-! ## One push -/

theorem evict_of_fresh {readings : Readings} {data : GatewayData F}
    (fresh : staleWindows g readings data = []) (query node : String) :
    (evict platform g readings data).stored query node = data.stored query node := by
  rw [stored_evict]
  cases found : data.stored query node with
  | none => rfl
  | some window =>
    obtain ⟨perNode, here, inside⟩ := Option.bind_eq_some_iff.mp found
    have kept : isStale g readings query node window = false := by
      by_contra stale
      have member : window ∈ staleWindows g readings data := by
        refine List.mem_flatMap.mpr ⟨(query, perNode), TreeMap.get_eq_some_iff.mp here, ?_⟩
        refine List.mem_map.mpr ⟨(node, window), List.mem_filter.mpr ⟨?_, ?_⟩, rfl⟩
        · exact TreeMap.get_eq_some_iff.mp inside
        · exact Bool.eq_true_of_not_eq_false stale
      rw [fresh] at member
      cases member
    rw [Option.filter_some, kept, Bool.not_false, if_pos rfl]

variable {node : String} {now : Nat}

theorem admitStates_keep (list : List (Validated F)) (so : Admission F) {r : Rejection}
    (rejected : r ∈ so.rejected) :
    r ∈ (list.foldl (admitState platform g node now) so).rejected := by
  induction list generalizing so with
  | nil => exact rejected
  | cons v rest ih =>
    refine ih _ ?_
    rcases @admitState_cases F _ platform g node now so v with ⟨_, _, _, step⟩ |
      ⟨_, ⟨refusal, step, _⟩ | ⟨bytes, _, _, step⟩⟩
    · rw [step]
      exact rejected
    · rw [step]
      exact List.mem_append_left _ rejected
    · rw [step]
      exact rejected

/-- A round that is not refused for want of room gives its state to the register. -/
theorem admitState_window {so : Admission F} {v : Validated F}
    (roomy : ∀ r ∈ (admitState platform g node now so v).rejected, r.refusal.OfContent) :
    (admitState platform g node now so v).data.window v.query node =
      newest WindowState.windowEndNanos (so.data.window v.query node) v.state := by
  have put : ∀ window : NodeWindow F, (so.data.put v.query node window).window v.query node =
      some window.state := fun window => by rw [window_put, if_pos ⟨rfl, rfl⟩]
  rcases @admitState_cases F _ platform g node now so v with ⟨newer, stored, later, step⟩ |
    ⟨older, ⟨refusal, step, full⟩ | ⟨bytes, _, _, step⟩⟩
  · rw [step]
    refine (put _).trans ?_
    rw [GatewayData.window, stored, Option.map_some, newest, if_pos later]
  · rw [step] at roomy
    have content := roomy _ (List.mem_append_right _ (List.mem_singleton_self _))
    rcases full with ⟨_, _, _, rfl⟩ | ⟨_, _, _, _, _, rfl⟩ <;> cases content
  · rw [step]
    refine (put { received := now, state := v.state, memoryBytes := v.memoryBytes }).trans ?_
    rw [GatewayData.window]
    cases stored : so.data.stored v.query node with
    | none => rfl
    | some window =>
      rw [Option.map_some, newest, if_neg (Nat.not_lt.mpr (older window stored))]

theorem admitStates_window (list : List (Validated F)) (so : Admission F)
    (roomy : ∀ r ∈ (list.foldl (admitState platform g node now) so).rejected, r.refusal.OfContent)
    (query other : String) :
    (list.foldl (admitState platform g node now) so).data.window query other =
      ((list.filter (fun v => v.query = query ∧ node = other)).map Validated.state).foldl
        (newest WindowState.windowEndNanos) (so.data.window query other) := by
  induction list generalizing so with
  | nil => rfl
  | cons v rest ih =>
    have first : ∀ r ∈ (admitState platform g node now so v).rejected, r.refusal.OfContent :=
      fun r member => roomy r (admitStates_keep rest _ member)
    rw [List.foldl_cons, ih _ roomy]
    by_cases here : v.query = query ∧ node = other
    · obtain ⟨rfl, rfl⟩ := here
      rw [admitState_window first, List.filter_cons_of_pos (by simp)]
      rfl
    · rw [List.filter_cons_of_neg (by simpa using here), GatewayData.window, GatewayData.window,
        admitState_stored so v fun same => here ⟨same.1.symm, same.2.symm⟩]

/-- A push without hindrance. -/
theorem push_window {readings : Readings} {batch : PushBatch} {data after : GatewayData F}
    {result : ApplyResult} (fresh : staleWindows g readings data = [])
    (pushed : Pushed platform g readings now batch data result after)
    (roomy : ∀ r ∈ result.rejected, r.refusal.OfContent) (query node : String) :
    after.window query node =
      (gives platform g batch query node).foldl (newest WindowState.windowEndNanos)
        (data.window query node) := by
  have kept : ∀ {mid}, evictAndRefresh platform g readings data = some mid →
      mid.window query node = data.window query node := by
    intro mid evicted
    rw [window_same (evictAndRefresh_windows evicted), GatewayData.window, GatewayData.window,
      evict_of_fresh fresh]
  cases pushed with
  | nothing none_valid =>
    rw [gives, none_valid]
    rfl
  | full evicted full =>
    have nobody : (validates platform g batch).2 = [] := by
      refine List.eq_nil_iff_forall_not_mem.mpr fun v valid => ?_
      have content := roomy _ (List.mem_append_right _ (List.mem_map_of_mem valid))
      cases content
    rw [gives, nobody]
    exact kept evicted
  | admitted evicted place refreshed =>
    rw [window_same (refreshChangedCaches_windows refreshed), rounds,
      admitStates_window _ _ roomy query node, kept evicted]
    rfl

/-! ## Runs -/

/-- The registers of a gateway after its deliveries. -/
theorem deliveries_window {ds : List Delivery} {before data : GatewayData F}
    (unhindered : Unhindered platform g before ds)
    (ran : (ds.map Delivery.call).foldlM (call platform g) before = some data) (query node : String) :
    data.window query node =
      (given platform g (ds.map Delivery.batch) query node).foldl (newest WindowState.windowEndNanos)
        (before.window query node) := by
  induction ds generalizing before with
  | nil =>
    cases ran
    rfl
  | cons d rest ih =>
    obtain ⟨next, step, ran⟩ := Option.bind_eq_some_iff.mp ran
    obtain ⟨⟨result, _⟩, applied, rfl⟩ := Option.map_eq_some_iff.mp step
    obtain ⟨fresh, others⟩ := unhindered
    obtain ⟨roomy, later⟩ := others result _ applied
    rw [ih later ran, push_window fresh (applyBatch_pushed applied) roomy, List.map_cons, given, given,
      List.flatMap_cons, List.foldl_append]

end

/-! ## Reports -/

section

variable {platform g}

/-- Two states of the data with the same windows. -/
def SameView (data data' : GatewayData F) : Prop :=
  ∀ query node, data.window query node = data'.window query node

omit [LinearOrder F] in
theorem window_eq_get {data : GatewayData F} {query : String}
    {perNode : TreeMap String (NodeWindow F)} (found : data.nodes.get query = some perNode)
    (node : String) : data.window query node = (states perNode).get node := by
  rw [GatewayData.window, GatewayData.stored, found, Option.bind_some, states_get]

/-- The windows of a query, seen from both sides. -/
theorem SameView.nodes {data data' : GatewayData F} (view : SameView data data')
    (left : CacheCoherent platform data) (right : CacheCoherent platform data') (query : String) :
    (data.nodes.get query).map states = (data'.nodes.get query).map states := by
  have nobody : ∀ {data : GatewayData F} {node}, data.nodes.get query = none →
      data.window query node = none := by
    intro data node absent
    rw [GatewayData.window, GatewayData.stored, absent]
    rfl
  have live : ∀ {data : GatewayData F} {perNode}, CacheCoherent platform data →
      data.nodes.get query = some perNode → ∃ node, data.window query node ≠ none := by
    intro data perNode coherent found
    by_contra none
    push Not at none
    have empty : perNode.isEmpty = true := TreeMap.isEmpty_iff.mpr fun node => by
      have gone := none node
      rw [window_eq_get found, states_get, Option.map_eq_none_iff] at gone
      exact gone
    rw [coherent.live query perNode found] at empty
    cases empty
  cases mine : data.nodes.get query with
  | none =>
    cases theirs : data'.nodes.get query with
    | none => rfl
    | some perNode =>
      obtain ⟨node, shown⟩ := live right theirs
      exact absurd ((view query node).symm.trans (nobody mine)) shown
  | some perNode =>
    cases theirs : data'.nodes.get query with
    | none =>
      obtain ⟨node, shown⟩ := live left mine
      exact absurd ((view query node).trans (nobody theirs)) shown
    | some perNode' =>
      refine congrArg some (TreeMap.ext_get fun node => ?_)
      rw [← window_eq_get mine, ← window_eq_get theirs, view]

/-- The cache of the same windows, up to the laziness of its final state. -/
structure SameCache (cache cache' : QueryMergeCache F) : Prop where
  target : cache.target = cache'.target
  states : cache.shardStates = cache'.shardStates
  nodes : cache.shardNodes = cache'.shardNodes

theorem Coherent.same {perNode perNode' : TreeMap String (NodeWindow F)}
    {cache cache' : QueryMergeCache F} (same : Gateway.states perNode = Gateway.states perNode')
    (left : Coherent platform perNode cache) (right : Coherent platform perNode' cache')
    (live : perNode.isEmpty = false) : SameCache cache cache' := by
  have target : cache.target = cache'.target :=
    left.target.trans ((selectedWindow_congr same).trans right.target.symm)
  obtain ⟨start, maxEnd, selected, _⟩ := selectedWindow_some live
  have chosen := left.target.trans selected
  have each : ∀ shard < mergeCacheShards, cache.shardStates[shard]? = cache'.shardStates[shard]? ∧
      cache.shardNodes[shard]? = cache'.shardNodes[shard]? := by
    intro shard inside
    obtain ⟨state, count, scratch, here, there⟩ := left.shards _ chosen shard inside
    obtain ⟨state', count', scratch', here', there'⟩ :=
      right.shards _ (target ▸ chosen) shard inside
    rw [mergeCacheShard_eq, shardWindows, same, ← shardWindows, ← mergeCacheShard_eq] at scratch
    cases scratch.symm.trans scratch'
    exact ⟨here.trans here'.symm, there.trans there'.symm⟩
  refine ⟨target, List.ext_getElem? fun shard => ?_, List.ext_getElem? fun shard => ?_⟩
  · by_cases inside : shard < mergeCacheShards
    · exact (each shard inside).1
    · rw [List.getElem?_eq_none (by rw [left.length]; omega),
        List.getElem?_eq_none (by rw [right.length]; omega)]
  · by_cases inside : shard < mergeCacheShards
    · exact (each shard inside).2
    · rw [List.getElem?_eq_none (by rw [left.counts]; omega),
        List.getElem?_eq_none (by rw [right.counts]; omega)]

/-- Refreshed, both caches have the same final state where one is shown. -/
theorem refreshFinal_estimates {perNode perNode' : TreeMap String (NodeWindow F)}
    {cache cache' last last' : QueryMergeCache F} (same : SameCache cache cache')
    (left : Coherent platform perNode cache) (right : Coherent platform perNode' cache') {known : Nat}
    (done : refreshFinal platform known cache = some last)
    (done' : refreshFinal platform known cache' = some last') (plan : Plan) :
    last.shardNodes = last'.shardNodes ∧
      clusterEstimates platform plan known last = clusterEstimates platform plan known last' := by
  have summaries : cache.shardSummaries = cache'.shardSummaries := by
    rw [QueryMergeCache.shardSummaries, same.states]
    rfl
  have spec : ∀ {perNode : TreeMap String (NodeWindow F)} {cache last : QueryMergeCache F},
      Coherent platform perNode cache → refreshFinal platform known cache = some last →
      last.shardNodes = cache.shardNodes ∧ (cache.shardNodes.sum = known →
        mergeFinal platform none cache.shardSummaries = some last.finalState) := by
    intro perNode cache last coherent done
    unfold refreshFinal at done
    split at done
    · obtain ⟨final, merged, result⟩ := Option.bind_eq_some_iff.mp done
      cases result
      exact ⟨rfl, fun _ => merged⟩
    next settled =>
      cases done
      refine ⟨rfl, fun complete => ?_⟩
      cases final : cache.finalState with
      | none => exact absurd ⟨complete, by rw [final]; rfl⟩ settled
      | some w => exact coherent.final w final
  obtain ⟨nodes, merged⟩ := spec left done
  obtain ⟨nodes', merged'⟩ := spec right done'
  have counts : last.shardNodes = last'.shardNodes :=
    nodes.trans (same.nodes.trans nodes'.symm)
  refine ⟨counts, ?_⟩
  unfold clusterEstimates
  rw [← counts]
  split
  next complete =>
    have here := merged (nodes ▸ complete)
    have there := merged' (nodes' ▸ counts ▸ complete)
    rw [summaries] at here
    rw [Option.some.inj (here.symm.trans there)]
  next => rfl

theorem mergedQuery_same {data data' last last' : GatewayData F} {plan : Plan}
    {found found' : Option MergedQuery} (view : SameView data data')
    (left : CacheCoherent platform data) (right : CacheCoherent platform data')
    (done : mergedQuery platform plan data = some (found, last))
    (done' : mergedQuery platform plan data' = some (found', last')) : found = found' := by
  have nodes := view.nodes left right plan.query.name
  unfold mergedQuery at done done'
  cases mine : data.nodes.get plan.query.name with
  | none =>
    rw [mine, Option.map_none, eq_comm, Option.map_eq_none_iff] at nodes
    rw [mine] at done
    rw [nodes] at done'
    cases done
    cases done'
    rfl
  | some perNode =>
    cases theirs : data'.nodes.get plan.query.name with
    | none =>
      rw [mine, theirs] at nodes
      cases nodes
    | some perNode' =>
      rw [mine, theirs, Option.map_some, Option.map_some, Option.some.injEq] at nodes
      obtain ⟨cache, cached, fresh⟩ := left.present _ perNode rfl mine
      obtain ⟨cache', cached', fresh'⟩ := right.present _ perNode' rfl theirs
      have live := left.live _ perNode mine
      obtain ⟨start, maxEnd, selected, _⟩ := selectedWindow_some live
      have same := fresh.same nodes fresh' live
      have chosen := fresh.target.trans selected
      have chosen' := same.target.symm.trans chosen
      have size : perNode.size = perNode'.size := by rw [states_size, nodes, ← states_size]
      rw [mine, cached] at done
      rw [theirs, cached'] at done'
      dsimp only at done done'
      rw [chosen] at done
      rw [chosen', ← size] at done'
      obtain ⟨last, refreshed, result⟩ := Option.bind_eq_some_iff.mp done
      obtain ⟨last', refreshed', result'⟩ := Option.bind_eq_some_iff.mp done'
      obtain ⟨counts, estimates⟩ := refreshFinal_estimates same fresh fresh' refreshed refreshed' plan
      cases result
      cases result'
      rw [counts, estimates]

omit [LinearOrder F] in
theorem SameView.congr {a a' b b' : GatewayData F} (view : SameView a b) (left : SameWindows a a')
    (right : SameWindows b b') : SameView a' b' := fun query node => by
  rw [window_same left, window_same right, view]

theorem mergedQueries_same {plans : List Plan} {data data' last last' : GatewayData F}
    {found found' : List MergedQuery} (view : SameView data data')
    (left : CacheCoherent platform data) (right : CacheCoherent platform data')
    (done : mergedQueries platform plans data = some (found, last))
    (done' : mergedQueries platform plans data' = some (found', last')) : found = found' := by
  induction plans generalizing data data' found found' with
  | nil =>
    cases done
    cases done'
    rfl
  | cons plan rest ih =>
    obtain ⟨⟨first, next⟩, step, done⟩ := Option.bind_eq_some_iff.mp done
    obtain ⟨⟨others, _⟩, later, result⟩ := Option.bind_eq_some_iff.mp done
    obtain ⟨⟨first', next'⟩, step', done'⟩ := Option.bind_eq_some_iff.mp done'
    obtain ⟨⟨others', _⟩, later', result'⟩ := Option.bind_eq_some_iff.mp done'
    cases result
    cases result'
    have here := mergedQuery_same view left right step step'
    have there := ih (view.congr (mergedQuery_windows step) (mergedQuery_windows step'))
      (mergedQuery_coherent left step) (mergedQuery_coherent right step') later later'
    rw [here, there]

theorem merged_same {data data' last last' : GatewayData F} {readings readings' : Readings}
    {found found' : List MergedQuery} (view : SameView data data')
    (left : CacheCoherent platform data) (right : CacheCoherent platform data')
    (fresh : staleWindows g readings data = []) (fresh' : staleWindows g readings' data' = [])
    (done : merged platform g readings data = some (found, last))
    (done' : merged platform g readings' data' = some (found', last')) : found = found' := by
  obtain ⟨next, step, done⟩ := Option.bind_eq_some_iff.mp done
  obtain ⟨next', step', done'⟩ := Option.bind_eq_some_iff.mp done'
  refine mergedQueries_same (fun query node => ?_) (evictAndRefresh_coherent left step)
    (evictAndRefresh_coherent right step') done done'
  rw [window_same (evictAndRefresh_windows step), window_same (evictAndRefresh_windows step'),
    GatewayData.window, GatewayData.window, evict_of_fresh fresh, evict_of_fresh fresh']
  exact view query node

end

/-- States of one query and node with one end are equal. -/
def Consistent (batches : List PushBatch) : Prop :=
  ∀ query node, ∀ a ∈ given platform g batches query node, ∀ b ∈ given platform g batches query node,
    a.windowEndNanos = b.windowEndNanos → a = b

/-- Delivered in any order, any number of times, with room and without eviction, the same batches leave
for each query and node the window with the greatest end among those delivered, and the same report. On
the way no stored end ever falls. -/
theorem deliveries_converge {ds ds' : List Delivery} {data data' : GatewayData F}
    (consistent : Consistent platform g (ds.map Delivery.batch))
    (same : ∀ batch, batch ∈ ds.map Delivery.batch ↔ batch ∈ ds'.map Delivery.batch)
    (unhindered : Unhindered platform g .empty ds) (unhindered' : Unhindered platform g .empty ds')
    (ran : run platform g (ds.map Delivery.call) = some data)
    (ran' : run platform g (ds'.map Delivery.call) = some data') :
    (∀ query node, IsLatest WindowState.windowEndNanos
      (given platform g (ds.map Delivery.batch) query node) (data.window query node)) ∧
    (∀ query node, data.window query node = data'.window query node) ∧
    (∀ readings readings' found last found' last', staleWindows g readings data = [] →
      staleWindows g readings' data' = [] → merged platform g readings data = some (found, last) →
      merged platform g readings' data' = some (found', last') → found = found') ∧
    ∀ more later, Unhindered platform g data more →
      (more.map Delivery.call).foldlM (call platform g) data = some later →
      ∀ query node w, data.window query node = some w →
        ∃ w', later.window query node = some w' ∧ w.windowEndNanos ≤ w'.windowEndNanos := by
  have registers : ∀ {ds data}, Unhindered platform g .empty ds →
      run platform g (ds.map Delivery.call) = some data → ∀ query node,
      IsLatest WindowState.windowEndNanos (given platform g (ds.map Delivery.batch) query node)
        (data.window query node) := by
    intro ds data unhindered ran query node
    rw [deliveries_window unhindered ran]
    exact latest_isLatest _
  have view : SameView data data' := by
    intro query node
    refine (registers unhindered ran query node).eq (registers unhindered' ran' query node)
      (fun w => ?_) (consistent query node)
    simp only [given, List.mem_flatMap, same]
  refine ⟨registers unhindered ran, view, ?_, fun more later roomy done query node w stored => ?_⟩
  · intro readings readings' found last found' last' fresh fresh' done done'
    exact merged_same view (run_coherent ran) (run_coherent ran') fresh fresh' done done'
  · rw [deliveries_window roomy done]
    exact foldl_newest_le stored _

/-- The small push, at this time. -/
def smallDelivery (now : Nat) : Delivery := { batch := smallPush, readings := fun _ _ => now, now }

theorem smallDelivery_unhindered (now : Nat) :
    Unhindered smallPlatform smallGateway .empty [smallDelivery now] := by
  obtain ⟨w, valid⟩ := smallPush_validates
  refine ⟨rfl, fun result after applied => ⟨?_, trivial⟩⟩
  cases applyBatch_pushed applied with
  | nothing none_valid =>
    rw [smallDelivery, valid] at none_valid
    cases none_valid
  | full evicted full =>
    cases evicted
    exact absurd (show 2 ≤ 0 from full.2) (by decide)
  | admitted evicted =>
    cases evicted
    rw [smallDelivery, valid]
    exact nofun

/-- One push, received at two times. -/
theorem deliveries_converge_small : ∃ data data',
    run smallPlatform smallGateway [(smallDelivery 0).call] = some data ∧
    run smallPlatform smallGateway [(smallDelivery 5).call] = some data' ∧
    data.window "top" "a" = data'.window "top" "a" := by
  obtain ⟨w, valid⟩ := smallPush_validates
  have runs : ∀ now, ∃ data, run smallPlatform smallGateway [(smallDelivery now).call] = some data := by
    intro now
    obtain ⟨data, ran, _⟩ := @run_total Nat _ smallPlatform smallGateway [(smallDelivery now).call]
      fun batch _ _ _ => smallGateway_separated batch
    exact ⟨data, ran⟩
  obtain ⟨data, ran⟩ := runs 0
  obtain ⟨data', ran'⟩ := runs 5
  have consistent : Consistent smallPlatform smallGateway [smallPush] := by
    have only : ∀ query node, ∀ state ∈ given smallPlatform smallGateway [smallPush] query node,
        state = w := by
      intro query node state member
      obtain ⟨batch, listed, gives⟩ := List.mem_flatMap.mp member
      rw [List.mem_singleton.mp listed, Gateway.gives, valid] at gives
      obtain ⟨v, filtered, rfl⟩ := List.mem_map.mp gives
      rw [List.mem_singleton.mp (List.mem_of_mem_filter filtered)]
    intro query node state member state' member' _
    rw [only query node state member, only query node state' member']
  obtain ⟨_, same, _⟩ := @deliveries_converge Nat _ smallPlatform smallGateway [smallDelivery 0]
    [smallDelivery 5] data data' consistent (fun _ => Iff.rfl) (smallDelivery_unhindered 0)
    (smallDelivery_unhindered 5) ran ran'
  exact ⟨data, data', ran, ran', same "top" "a"⟩

end FlowSketch.Source.Gateway
