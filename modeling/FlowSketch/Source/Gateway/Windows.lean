import FlowSketch.Source.Gateway.State

/-!
# Stored windows

What each operation on the gateway's data does to the window of one node for one query. Only an admission
writes a window, and only an eviction drops one.
-/

namespace FlowSketch.Source.Gateway
open Lib Lib.Octets Lib.Word64 Source.Core Source.Runtime

variable {F : Type}

namespace GatewayData

@[simp] theorem stored_empty (query node : String) : (empty : GatewayData F).stored query node = none :=
  rfl

@[simp] theorem stored_put (data : GatewayData F) (query node : String) (window : NodeWindow F)
    (query' node' : String) :
    (data.put query node window).stored query' node' =
      if query' = query ∧ node' = node then some window else data.stored query' node' := by
  simp only [stored, put, TreeMap.get_insert]
  by_cases here : query' = query
  · subst here
    simp only [if_true, Option.bind_some, TreeMap.get_insert, true_and]
    refine if_congr Iff.rfl rfl ?_
    cases data.nodes.get query' with
    | none => rfl
    | some perNode => rfl
  · simp only [here, if_false, false_and]

/-- The data with the same windows have the same windows stored. -/
theorem stored_congr {data data' : GatewayData F} (same : data'.nodes = data.nodes)
    (query node : String) : data'.stored query node = data.stored query node := by
  rw [stored, stored, same]

theorem mem_uniqueNodes {data : GatewayData F} {node : String} :
    node ∈ data.uniqueNodes ↔ ∃ query window, data.stored query node = some window := by
  rw [uniqueNodes, List.mem_toFinset, List.mem_flatMap]
  constructor
  · rintro ⟨⟨query, perNode⟩, member, listed⟩
    obtain ⟨⟨node', window⟩, inside, rfl⟩ := List.mem_map.mp listed
    refine ⟨query, window, Option.bind_eq_some_iff.mpr ⟨perNode, ?_, ?_⟩⟩
    · exact TreeMap.get_eq_some_iff.mpr member
    · exact TreeMap.get_eq_some_iff.mpr inside
  · rintro ⟨query, window, found⟩
    obtain ⟨perNode, present, inside⟩ := Option.bind_eq_some_iff.mp found
    exact ⟨(query, perNode), TreeMap.get_eq_some_iff.mp present,
      List.mem_map.mpr ⟨(node, window), TreeMap.get_eq_some_iff.mp inside, rfl⟩⟩

/-- A store adds its node to the nodes. -/
theorem uniqueNodes_put (data : GatewayData F) (query node : String) (window : NodeWindow F) :
    (data.put query node window).uniqueNodes ⊆ Insert.insert node data.uniqueNodes := by
  intro other member
  obtain ⟨query', window', found⟩ := mem_uniqueNodes.mp member
  rw [stored_put] at found
  split at found
  next here => exact Finset.mem_insert.mpr (.inl here.2)
  next => exact Finset.mem_insert_of_mem (mem_uniqueNodes.mpr ⟨query', window', found⟩)

end GatewayData

section

variable [LinearOrder F] {platform : Platform F} {g : GatewayState}

/-! ## Evictions -/

theorem evict_nodes (readings : Readings) (data : GatewayData F) (query : String) :
    (evict platform g readings data).nodes.get query =
      ((data.nodes.get query).map (fun perNode =>
        perNode.filter (fun node window => !isStale g readings query node window))).filter
        (fun perNode => !perNode.isEmpty) := by
  show ((data.nodes.mapValues _).filter _).get query = _
  rw [TreeMap.get_filter, TreeMap.get_mapValues]

theorem stored_evict (readings : Readings) (data : GatewayData F) (query node : String) :
    (evict platform g readings data).stored query node =
      (data.stored query node).filter (fun window => !isStale g readings query node window) := by
  rw [GatewayData.stored, GatewayData.stored, evict_nodes]
  cases data.nodes.get query with
  | none => rfl
  | some perNode =>
    have kept := TreeMap.get_filter (fun node window => !isStale g readings query node window) perNode
      node
    rw [Option.map_some, Option.bind_some, ← kept]
    cases nothing : (perNode.filter (fun node window => !isStale g readings query node window)).isEmpty
    with
    | false => rw [Option.filter_some, nothing, Bool.not_false, if_pos rfl, Option.bind_some]
    | true =>
      rw [TreeMap.isEmpty_iff.mp nothing node, Option.filter_some, nothing, Bool.not_true,
        if_neg Bool.false_ne_true, Option.bind_none]

theorem evict_uniqueNodes (readings : Readings) (data : GatewayData F) :
    (evict platform g readings data).uniqueNodes ⊆ data.uniqueNodes := by
  intro node member
  obtain ⟨query, window, found⟩ := GatewayData.mem_uniqueNodes.mp member
  rw [stored_evict, Option.filter_eq_some_iff] at found
  exact GatewayData.mem_uniqueNodes.mpr ⟨query, window, found.1⟩

/-! ## Refreshes -/

/-- Two states of the data that differ in the merge cache only. -/
structure SameWindows (data data' : GatewayData F) : Prop where
  nodes : data'.nodes = data.nodes
  retained : data'.retainedSketchBytes = data.retainedSketchBytes

namespace SameWindows

omit [LinearOrder F] in
theorem refl (data : GatewayData F) : SameWindows data data := ⟨rfl, rfl⟩

omit [LinearOrder F] in
theorem trans {a b c : GatewayData F} (first : SameWindows a b) (second : SameWindows b c) :
    SameWindows a c :=
  ⟨second.nodes.trans first.nodes, second.retained.trans first.retained⟩

omit [LinearOrder F] in
theorem stored {data data' : GatewayData F} (same : SameWindows data data') (query node : String) :
    data'.stored query node = data.stored query node :=
  GatewayData.stored_congr same.nodes query node

omit [LinearOrder F] in
theorem uniqueNodes {data data' : GatewayData F} (same : SameWindows data data') :
    data'.uniqueNodes = data.uniqueNodes := by
  rw [GatewayData.uniqueNodes, GatewayData.uniqueNodes, same.nodes]

end SameWindows

theorem refreshQueryCache_windows {data data' : GatewayData F} {query : String} {shards : Finset Nat}
    (done : refreshQueryCache platform data query shards = some data') : SameWindows data data' := by
  unfold refreshQueryCache at done
  split at done
  · cases done
    exact ⟨rfl, rfl⟩
  · split at done
    · cases done
      exact ⟨rfl, rfl⟩
    · obtain ⟨cache, _, result⟩ := Option.bind_eq_some_iff.mp done
      cases result
      exact ⟨rfl, rfl⟩

theorem refreshAll_windows {list : List (String × Finset Nat)} {data data' : GatewayData F}
    (done : list.foldlM (fun data (entry : String × Finset Nat) =>
      refreshQueryCache platform data entry.1 entry.2) data = some data') : SameWindows data data' := by
  induction list generalizing data with
  | nil =>
    cases done
    exact .refl _
  | cons entry rest ih =>
    obtain ⟨next, step, done⟩ := Option.bind_eq_some_iff.mp done
    exact (refreshQueryCache_windows step).trans (ih done)

theorem refreshChangedCaches_windows {data data' : GatewayData F} {changed : Changed}
    (done : refreshChangedCaches platform data changed = some data') : SameWindows data data' :=
  refreshAll_windows done

theorem evictAndRefresh_windows {readings : Readings} {data data' : GatewayData F}
    (done : evictAndRefresh platform g readings data = some data') :
    SameWindows (evict platform g readings data) data' :=
  refreshChangedCaches_windows done

/-! ## Reports -/

theorem mergedQuery_windows {plan : Plan} {data data' : GatewayData F} {found : Option MergedQuery}
    (done : mergedQuery platform plan data = some (found, data')) : SameWindows data data' := by
  unfold mergedQuery at done
  split at done
  · split at done
    · cases done
      exact .refl data
    · obtain ⟨cache, _, result⟩ := Option.bind_eq_some_iff.mp done
      cases result
      exact ⟨rfl, rfl⟩
  · cases done
    exact .refl data

theorem mergedQueries_windows {plans : List Plan} {data data' : GatewayData F}
    {found : List MergedQuery} (done : mergedQueries platform plans data = some (found, data')) :
    SameWindows data data' := by
  induction plans generalizing data found with
  | nil =>
    cases done
    exact .refl _
  | cons plan rest ih =>
    obtain ⟨⟨first, next⟩, step, done⟩ := Option.bind_eq_some_iff.mp done
    obtain ⟨⟨others, last⟩, later, result⟩ := Option.bind_eq_some_iff.mp done
    cases result
    exact (mergedQuery_windows step).trans (ih later)

theorem merged_windows {readings : Readings} {data data' : GatewayData F} {found : List MergedQuery}
    (done : merged platform g readings data = some (found, data')) :
    SameWindows (evict platform g readings data) data' := by
  obtain ⟨next, step, done⟩ := Option.bind_eq_some_iff.mp done
  exact (evictAndRefresh_windows step).trans (mergedQueries_windows done)

/-- A call that is no push leaves what an eviction leaves. -/
theorem report_windows {data data' : GatewayData F} {request : Call}
    (done : call platform g data request = some data') :
    (∃ batch readings now, request = .applyBatch batch readings now) ∨
      ∃ readings, SameWindows (evict platform g readings data) data' := by
  cases request with
  | applyBatch batch readings now => exact .inl ⟨batch, readings, now, rfl⟩
  | merged readings =>
    obtain ⟨⟨found, _⟩, ran, rfl⟩ := Option.map_eq_some_iff.mp done
    exact .inr ⟨readings, merged_windows ran⟩
  | renderMetrics readings =>
    obtain ⟨⟨metrics, _⟩, ran, rfl⟩ := Option.map_eq_some_iff.mp done
    obtain ⟨⟨found, _⟩, inner, result⟩ := Option.bind_eq_some_iff.mp ran
    cases result
    exact .inr ⟨readings, merged_windows inner⟩
  | nodesJson readings ages =>
    obtain ⟨⟨report, _⟩, ran, rfl⟩ := Option.map_eq_some_iff.mp done
    obtain ⟨next, inner, result⟩ := Option.bind_eq_some_iff.mp ran
    cases result
    exact .inr ⟨readings, evictAndRefresh_windows inner⟩

/-- What holds at the start and survives every call holds after every run. -/
theorem run_induction {P : GatewayData F → Prop} (start : P .empty)
    (step : ∀ data request data', P data → call platform g data request = some data' → P data')
    {calls : List Call} {data : GatewayData F} (ran : run platform g calls = some data) : P data := by
  suffices kept : ∀ (calls : List Call) (before : GatewayData F), P before →
      calls.foldlM (call platform g) before = some data → P data from kept calls .empty start ran
  intro calls
  induction calls with
  | nil =>
    rintro before holds ⟨⟩
    exact holds
  | cons request rest ih =>
    intro before holds done
    obtain ⟨next, first, later⟩ := Option.bind_eq_some_iff.mp done
    exact ih next (step before request next holds first) later

/-! ## Pushes -/

variable {node : String} {now : Nat}

/-- What a round leaves of the windows of other nodes and other queries. -/
theorem admitState_stored (so : Admission F) (v : Validated F) {query other : String}
    (apart : ¬(query = v.query ∧ other = node)) :
    (admitState platform g node now so v).data.stored query other = so.data.stored query other := by
  unfold admitState
  dsimp only
  split
  · rw [GatewayData.stored_put, if_neg apart]
  · split
    · rfl
    · split
      · rfl
      · exact (GatewayData.stored_put _ _ _ _ _ _).trans (if_neg apart)

theorem admitStates_stored (list : List (Validated F)) (so : Admission F) {query other : String}
    (apart : ∀ v ∈ list, ¬(query = v.query ∧ other = node)) :
    (list.foldl (admitState platform g node now) so).data.stored query other =
      so.data.stored query other := by
  induction list generalizing so with
  | nil => rfl
  | cons v rest ih =>
    rw [List.forall_mem_cons] at apart
    rw [List.foldl_cons, ih _ apart.2, admitState_stored so v apart.1]

end

end FlowSketch.Source.Gateway
