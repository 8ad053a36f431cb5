import FlowSketch.Source.Gateway.Cache

/-!
# Refreshing the cache

Every operation that changes windows marks their shards, and the refresh after it rebuilds the marked
shards, or all of them when the selected window has moved. So the cache is coherent after every call.
-/

namespace FlowSketch.Source.Gateway
open Lib Lib.Octets Lib.Word64 Source.Core Source.Runtime

variable {F : Type} [LinearOrder F] {platform : Platform F} {g : GatewayState}

/-! ## One query -/

theorem rebuildShards_spec {perNode : TreeMap String (NodeWindow F)} {target : Nat × Nat}
    {list : List Nat} {cache cache' : QueryMergeCache F}
    (done : list.foldlM (rebuildShard platform perNode target) cache = some cache')
    (length : cache.shardStates.length = mergeCacheShards)
    (counts : cache.shardNodes.length = mergeCacheShards) :
    cache'.target = cache.target ∧ cache'.shardStates.length = mergeCacheShards ∧
      cache'.shardNodes.length = mergeCacheShards ∧
      ∀ shard < mergeCacheShards,
        (shard ∈ list → ShardAgrees platform perNode target cache' shard) ∧
        (shard ∉ list → cache'.shardStates[shard]? = cache.shardStates[shard]? ∧
          cache'.shardNodes[shard]? = cache.shardNodes[shard]?) := by
  induction list generalizing cache with
  | nil =>
    cases done
    exact ⟨rfl, length, counts, fun shard _ => ⟨nofun, fun _ => ⟨rfl, rfl⟩⟩⟩
  | cons first rest ih =>
    obtain ⟨next, step, done⟩ := Option.bind_eq_some_iff.mp done
    obtain ⟨⟨state, count⟩, merged, step⟩ := Option.bind_eq_some_iff.mp step
    cases step
    obtain ⟨target', length', counts', shards⟩ := ih done (by rw [List.length_set, length])
      (by rw [List.length_set, counts])
    refine ⟨target', length', counts', fun shard inside => ⟨fun member => ?_, fun absent => ?_⟩⟩
    · by_cases later : shard ∈ rest
      · exact (shards shard inside).1 later
      · obtain rfl := (List.mem_cons.mp member).resolve_right later
        obtain ⟨states, nodes⟩ := (shards shard inside).2 later
        refine ⟨state, count, merged, ?_, ?_⟩
        · rw [states, List.getElem?_set_self (by rw [length]; exact inside)]
        · rw [nodes, List.getElem?_set_self (by rw [counts]; exact inside)]
    · rw [List.mem_cons, not_or] at absent
      obtain ⟨states, nodes⟩ := (shards shard inside).2 absent.2
      rw [states, nodes, List.getElem?_set_ne (Ne.symm absent.1), List.getElem?_set_ne (Ne.symm absent.1)]
      exact ⟨rfl, rfl⟩

/-- A refresh of the marked shards. -/
theorem refreshCache_coherent {perNode : TreeMap String (NodeWindow F)} {target : Nat × Nat}
    {cache cache' : QueryMergeCache F} {marked : Finset Nat}
    (selected : selectedWindow perNode = some target) (some_mark : marked.Nonempty)
    (agrees : AgreesExcept platform marked perNode cache)
    (done : refreshCache platform perNode target cache marked = some cache') :
    Coherent platform perNode cache' := by
  unfold refreshCache at done
  dsimp only at done
  obtain ⟨rebuilt, shards, result⟩ := Option.bind_eq_some_iff.mp done
  split at shards
  next moved =>
    obtain ⟨target', length, counts, agree⟩ := rebuildShards_spec shards (by simp) (by simp)
    rw [if_pos moved, if_neg (by decide)] at result
    cases result
    refine ⟨target'.trans selected.symm, length, counts, fun other chosen shard inside => ?_, nofun⟩
    obtain rfl : target = other := Option.some.inj (target'.symm.trans chosen)
    exact (agree shard inside).1 (List.mem_range.mpr inside)
  next still =>
    rw [if_neg still] at result
    rw [not_or, not_or, not_not, not_not, not_not] at still
    obtain ⟨chosen, length, counts⟩ := still
    obtain ⟨target', length', counts', agree⟩ := rebuildShards_spec shards length counts
    have listed : ¬(marked.sort (· ≤ ·)).isEmpty := by
      rw [List.isEmpty_iff, ← List.length_eq_zero_iff, Finset.length_sort, Finset.card_eq_zero]
      exact some_mark.ne_empty
    rw [if_neg listed] at result
    cases result
    refine ⟨(target'.trans chosen).trans selected.symm, length', counts',
      fun other chosen' shard inside => ?_, nofun⟩
    obtain rfl : target = other := Option.some.inj ((target'.trans chosen).symm.trans chosen')
    by_cases member : shard ∈ marked
    · exact (agree shard inside).1 ((Finset.mem_sort _).mpr member)
    · obtain ⟨states, nodes⟩ := (agree shard inside).2 fun listed => member ((Finset.mem_sort _).mp listed)
      obtain ⟨state, count, merged, here, there⟩ :=
        agrees target chosen length counts shard inside member
      exact ⟨state, count, merged, states.trans here, nodes.trans there⟩

/-! ## All queries -/

/-- Coherent but for the shards that are pending, in the queries that have some pending. -/
structure CoherentExcept (platform : Platform F) (pending : String → Option (Finset Nat))
    (data : GatewayData F) : Prop where
  live : ∀ query perNode, data.nodes.get query = some perNode → perNode.isEmpty = false
  absent : ∀ query, pending query = none → data.nodes.get query = none →
    data.mergeCache.get query = none
  present : ∀ query perNode, pending query = none → data.nodes.get query = some perNode →
    ∃ cache, data.mergeCache.get query = some cache ∧ Coherent platform perNode cache
  marked : ∀ query marked, pending query = some marked → marked.Nonempty ∧
    ∀ cache, data.mergeCache.get query = some cache →
      AgreesExcept platform marked ((data.nodes.get query).getD .empty) cache

/-- Coherent in every query. -/
abbrev CacheCoherent (platform : Platform F) (data : GatewayData F) : Prop :=
  CoherentExcept platform (fun _ => none) data

theorem CacheCoherent.empty (platform : Platform F) : CacheCoherent platform .empty where
  live _ _ found := by cases found
  absent _ _ _ := rfl
  present _ _ _ found := by cases found
  marked _ _ pending := by cases pending

theorem refreshQueryCache_coherent {pending : String → Option (Finset Nat)} {data data' : GatewayData F}
    (coherent : CoherentExcept platform pending data) {query : String} {marked : Finset Nat}
    (here : pending query = some marked)
    (done : refreshQueryCache platform data query marked = some data') :
    CoherentExcept platform (fun other => if other = query then none else pending other) data' := by
  obtain ⟨some_mark, agrees⟩ := coherent.marked query marked here
  unfold refreshQueryCache at done
  split at done
  next gone =>
    cases done
    refine ⟨coherent.live, fun other settled absent => ?_, fun other perNode settled found => ?_,
      fun other marks pends => ?_⟩
    · rw [TreeMap.get_erase]
      split
      · rfl
      next apart =>
        rw [if_neg apart] at settled
        exact coherent.absent other settled absent
    · have apart : other ≠ query := fun same => by
        rw [same] at found
        exact nomatch gone.symm.trans found
      rw [if_neg apart] at settled
      rw [TreeMap.get_erase, if_neg apart]
      exact coherent.present other perNode settled found
    · split at pends
      · cases pends
      next apart =>
        rw [TreeMap.get_erase, if_neg apart]
        exact coherent.marked other marks pends
  next perNode found =>
    obtain ⟨start, maxEnd, selected, _⟩ := selectedWindow_some (coherent.live query perNode found)
    rw [selected] at done
    obtain ⟨cache, refreshed, result⟩ := Option.bind_eq_some_iff.mp done
    cases result
    have fresh : Coherent platform perNode cache := by
      refine refreshCache_coherent selected some_mark ?_ refreshed
      cases cached : data.mergeCache.get query with
      | none =>
        intro target chosen
        cases chosen
      | some old =>
        have agree := agrees old cached
        rw [found] at agree
        exact agree
    refine ⟨coherent.live, fun other settled absent => ?_, fun other perNode' settled found' => ?_,
      fun other marks pends => ?_⟩
    · have apart : other ≠ query := fun same => by
        rw [same] at absent
        exact nomatch found.symm.trans absent
      rw [if_neg apart] at settled
      rw [TreeMap.get_insert, if_neg apart]
      exact coherent.absent other settled absent
    · rw [TreeMap.get_insert]
      split
      next same =>
        subst same
        cases found.symm.trans found'
        exact ⟨cache, rfl, fresh⟩
      next apart =>
        rw [if_neg apart] at settled
        exact coherent.present other perNode' settled found'
    · split at pends
      · cases pends
      next apart =>
        rw [TreeMap.get_insert, if_neg apart]
        exact coherent.marked other marks pends

theorem refreshAll_coherent {list : List (String × Finset Nat)} {data data' : GatewayData F}
    (distinct : (AssocMap.keys list).Nodup)
    (coherent : CoherentExcept platform (fun query => list.lookup query) data)
    (done : list.foldlM (fun data (entry : String × Finset Nat) =>
      refreshQueryCache platform data entry.1 entry.2) data = some data') :
    CacheCoherent platform data' := by
  induction list generalizing data with
  | nil =>
    cases done
    exact coherent
  | cons entry rest ih =>
    obtain ⟨query, marked⟩ := entry
    rw [AssocMap.keys, List.map_cons, List.nodup_cons] at distinct
    obtain ⟨next, step, done⟩ := Option.bind_eq_some_iff.mp done
    have after := refreshQueryCache_coherent coherent
      (by rw [List.lookup_cons, beq_self_eq_true] : List.lookup query ((query, marked) :: rest) = some marked) step
    refine ih distinct.2 ?_ done
    have pending : (fun other => if other = query then none else
        List.lookup other ((query, marked) :: rest)) = fun other => rest.lookup other := by
      funext other
      split
      next same =>
        rw [same]
        exact (AssocMap.lookup_eq_none_iff.mpr distinct.1).symm
      next apart => rw [List.lookup_cons, beq_eq_false_iff_ne.mpr apart]
    rw [pending] at after
    exact after

theorem refreshChangedCaches_coherent {data data' : GatewayData F} {changed : Changed}
    (coherent : CoherentExcept platform changed.get data)
    (done : refreshChangedCaches platform data changed = some data') : CacheCoherent platform data' :=
  refreshAll_coherent changed.nodup coherent done

/-! ## What each operation marks -/

/-- An eviction marks the shards of the nodes it drops. -/
theorem evictStale_coherent {data : GatewayData F} (coherent : CacheCoherent platform data)
    (readings : Readings) :
    CoherentExcept platform (evictStale platform g readings data).2.get (evict platform g readings data) := by
  have pending : ∀ query, (evictStale platform g readings data).2.get query =
      ((data.nodes.get query).map (fun perNode =>
        ((perNode.filter (isStale g readings query)).entries.map
          (fun entry => mergeShard platform entry.1)).toFinset)).filter (fun shards => shards ≠ ∅) := by
    intro query
    show ((data.nodes.mapValues _).filter _).get query = _
    rw [TreeMap.get_filter, TreeMap.get_mapValues]
  -- A query without marks has lost no window.
  have whole : ∀ query perNode, (evictStale platform g readings data).2.get query = none →
      data.nodes.get query = some perNode →
      perNode.filter (fun node window => !isStale g readings query node window) = perNode := by
    intro query perNode settled found
    rw [pending, found, Option.map_some, Option.filter_some] at settled
    split at settled
    · cases settled
    next none_stale =>
      have nothing : (perNode.filter (isStale g readings query)).entries = [] := by
        simpa using none_stale
      refine TreeMap.ext_get fun node => ?_
      rw [TreeMap.get_filter]
      cases stored : perNode.get node with
      | none => rfl
      | some window =>
        have fresh : isStale g readings query node window = false := by
          by_contra stale
          have member : (node, window) ∈ (perNode.filter (isStale g readings query)).entries :=
            List.mem_filter.mpr ⟨TreeMap.get_eq_some_iff.mp stored, Bool.eq_true_of_not_eq_false stale⟩
          rw [nothing] at member
          cases member
        rw [Option.filter_some, fresh, Bool.not_false, if_pos rfl]
  refine ⟨fun query perNode found => ?_, fun query settled gone => ?_,
    fun query perNode settled found => ?_, fun query marks pends => ?_⟩
  · rw [evict_nodes, Option.filter_eq_some_iff, Bool.not_eq_true'] at found
    exact found.2
  · rw [evict_nodes] at gone
    cases found : data.nodes.get query with
    | none => exact coherent.absent query rfl found
    | some perNode =>
      rw [found, Option.map_some, whole query perNode settled found, Option.filter_some,
        coherent.live query perNode found] at gone
      cases gone
  · rw [evict_nodes] at found
    cases before : data.nodes.get query with
    | none =>
      rw [before] at found
      cases found
    | some old =>
      rw [before, Option.map_some, whole query old settled before, Option.filter_some,
        coherent.live query old before] at found
      cases found
      exact coherent.present query _ rfl before
  · rw [pending] at pends
    obtain ⟨marks_of, some_mark⟩ := Option.filter_eq_some_iff.mp pends
    obtain ⟨perNode, found, rfl⟩ := Option.map_eq_some_iff.mp marks_of
    refine ⟨Finset.nonempty_of_ne_empty (of_decide_eq_true some_mark), fun cache cached => ?_⟩
    obtain ⟨own, cached', fresh⟩ := coherent.present query perNode rfl found
    cases cached'.symm.trans cached
    have left : ((evict platform g readings data).nodes.get query).getD .empty =
        perNode.filter (fun node window => !isStale g readings query node window) := by
      rw [evict_nodes, found, Option.map_some, Option.filter_some]
      split
      · rfl
      next nothing =>
        refine TreeMap.ext_get fun node => ?_
        rw [Bool.not_eq_true, Bool.not_eq_false'] at nothing
        exact (TreeMap.isEmpty_iff.mp nothing node).symm
    rw [left]
    refine (fresh.agreesExcept ∅).filter (Finset.empty_subset _) fun node window stored stale => ?_
    refine List.mem_toFinset.mpr (List.mem_map.mpr ⟨(node, window), ?_, rfl⟩)
    exact List.mem_filter.mpr ⟨TreeMap.get_eq_some_iff.mp stored, by simpa using stale⟩

theorem evictAndRefresh_coherent {data data' : GatewayData F} {readings : Readings}
    (coherent : CacheCoherent platform data)
    (done : evictAndRefresh platform g readings data = some data') : CacheCoherent platform data' :=
  refreshChangedCaches_coherent (evictStale_coherent coherent readings) done

/-! ## Pushes -/

variable {node : String} {now : Nat}

/-- A refreshed receive time leaves the windows. -/
theorem touch_coherent {pending : String → Option (Finset Nat)} {data : GatewayData F}
    (coherent : CoherentExcept platform pending data) {query : String} {window : NodeWindow F}
    (found : data.stored query node = some window) (received : Nat) :
    CoherentExcept platform pending (data.put query node { window with received }) := by
  obtain ⟨perNode, here, inside⟩ := Option.bind_eq_some_iff.mp found
  have same := states_touch inside received
  have nodes : ∀ other, (data.put query node { window with received }).nodes.get other =
      if other = query then some (perNode.insert node { window with received })
      else data.nodes.get other := by
    intro other
    rw [GatewayData.put, here]
    exact TreeMap.get_insert _ _ _ _
  refine ⟨fun other perNode' held => ?_, fun other settled gone => ?_,
    fun other perNode' settled held => ?_, fun other marks pends => ?_⟩
  · rw [nodes] at held
    split at held
    · cases held
      exact TreeMap.insert_isEmpty _ _ _
    · exact coherent.live other perNode' held
  · rw [nodes] at gone
    split at gone
    · cases gone
    · exact coherent.absent other settled gone
  · rw [nodes] at held
    split at held
    next this =>
      subst this
      cases held
      obtain ⟨cache, cached, fresh⟩ := coherent.present other perNode settled here
      exact ⟨cache, cached, fresh.congr same⟩
    next => exact coherent.present other perNode' settled held
  · obtain ⟨some_mark, agrees⟩ := coherent.marked other marks pends
    refine ⟨some_mark, fun cache cached => ?_⟩
    have agree := agrees cache cached
    rw [nodes]
    split
    next this =>
      subst this
      rw [here] at agree
      exact agree.congr same
    next => exact agree

theorem mark_get (changed : Changed) (query : String) (shard : Nat) (other : String) :
    (mark changed query shard).get other =
      if other = query then some (Insert.insert shard ((changed.get query).getD ∅))
      else changed.get other :=
  TreeMap.get_insert _ _ _ _

/-- A stored window marks its shard. -/
theorem store_coherent {changed : Changed} {data : GatewayData F}
    (coherent : CoherentExcept platform changed.get data) (query : String) (window : NodeWindow F)
    (bytes : Nat) :
    CoherentExcept platform (mark changed query (mergeShard platform node)).get
      { data.put query node window with retainedSketchBytes := bytes } := by
  have nodes : ∀ other, (data.put query node window).nodes.get other =
      if other = query then some (((data.nodes.get query).getD .empty).insert node window)
      else data.nodes.get other := TreeMap.get_insert _ _ _
  refine ⟨fun other perNode held => ?_, fun other settled gone => ?_,
    fun other perNode settled held => ?_, fun other marks pends => ?_⟩
  · rw [nodes] at held
    split at held
    · cases held
      exact TreeMap.insert_isEmpty _ _ _
    · exact coherent.live other perNode held
  · rw [mark_get] at settled
    rw [nodes] at gone
    split at gone
    · cases gone
    next apart =>
      rw [if_neg apart] at settled
      exact coherent.absent other settled gone
  · rw [mark_get] at settled
    split at settled
    · cases settled
    next apart =>
      rw [nodes, if_neg apart] at held
      exact coherent.present other perNode settled held
  · rw [mark_get] at pends
    split at pends
    next this =>
      subst this
      cases pends
      refine ⟨Finset.insert_nonempty _ _, fun cache cached => ?_⟩
      rw [nodes, if_pos rfl, Option.getD_some]
      refine AgreesExcept.insert ?_ node window
      cases before : changed.get other with
      | some marks => exact (coherent.marked other marks before).2 cache cached
      | none =>
        cases found : data.nodes.get other with
        | none => exact nomatch (coherent.absent other before found).symm.trans cached
        | some perNode =>
          obtain ⟨own, cached', fresh⟩ := coherent.present other perNode before found
          cases cached'.symm.trans cached
          exact fresh.agreesExcept ∅
    next apart =>
      rw [nodes, if_neg apart]
      exact coherent.marked other marks pends

theorem admitState_coherent {so : Admission F}
    (coherent : CoherentExcept platform so.changed.get so.data) (v : Validated F) :
    CoherentExcept platform (admitState platform g node now so v).changed.get
      (admitState platform g node now so v).data := by
  rcases @admitState_cases F _ platform g node now so v with ⟨newer, stored, _, step⟩ |
    ⟨_, ⟨refusal, step, _⟩ | ⟨bytes, _, _, step⟩⟩
  · rw [step]
    exact touch_coherent coherent stored now
  · rw [step]
    exact coherent
  · rw [step]
    exact store_coherent coherent v.query _ bytes

theorem rounds_coherent {data : GatewayData F} (coherent : CacheCoherent platform data)
    (rejected : List Rejection) (list : List (Validated F)) :
    CoherentExcept platform (rounds platform g node now rejected data list).changed.get
      (rounds platform g node now rejected data list).data := by
  suffices kept : ∀ so : Admission F, CoherentExcept platform so.changed.get so.data →
      CoherentExcept platform (list.foldl (admitState platform g node now) so).changed.get
        (list.foldl (admitState platform g node now) so).data from
    kept { data, changed := .empty, accepted := 0, rejected } coherent
  induction list with
  | nil => exact fun _ coherent => coherent
  | cons v rest ih => exact fun so coherent => ih _ (admitState_coherent coherent v)

theorem push_coherent {batch : PushBatch} {readings : Readings} {data after : GatewayData F}
    {result : ApplyResult} (coherent : CacheCoherent platform data)
    (pushed : Pushed platform g readings now batch data result after) :
    CacheCoherent platform after := by
  cases pushed with
  | nothing => exact coherent
  | full evicted => exact evictAndRefresh_coherent coherent evicted
  | admitted evicted place refreshed =>
    exact refreshChangedCaches_coherent
      (rounds_coherent (evictAndRefresh_coherent coherent evicted) _ _) refreshed

/-! ## Reports -/

theorem refreshFinal_coherent {perNode : TreeMap String (NodeWindow F)} {cache cache' : QueryMergeCache F}
    (coherent : Coherent platform perNode cache) {nodesKnown : Nat}
    (done : refreshFinal platform nodesKnown cache = some cache') : Coherent platform perNode cache' := by
  unfold refreshFinal at done
  split at done
  · obtain ⟨finalState, merged, result⟩ := Option.bind_eq_some_iff.mp done
    cases result
    refine ⟨coherent.target, coherent.length, coherent.counts, coherent.shards, fun w final => ?_⟩
    exact merged.trans (congrArg some final)
  · cases done
    exact coherent

theorem mergedQuery_coherent {plan : Plan} {data data' : GatewayData F} {found : Option MergedQuery}
    (coherent : CacheCoherent platform data)
    (done : mergedQuery platform plan data = some (found, data')) : CacheCoherent platform data' := by
  unfold mergedQuery at done
  split at done
  next perNode cache here cached =>
    split at done
    · cases done
      exact coherent
    · obtain ⟨cache', refreshed, result⟩ := Option.bind_eq_some_iff.mp done
      cases result
      refine ⟨coherent.live, fun other settled gone => ?_, fun other perNode' settled held => ?_, nofun⟩
      · rw [TreeMap.get_insert]
        split
        next same =>
          rw [same] at gone
          exact nomatch here.symm.trans gone
        next => exact coherent.absent other settled gone
      · rw [TreeMap.get_insert]
        split
        next same =>
          subst same
          cases here.symm.trans held
          obtain ⟨own, cached', fresh⟩ := coherent.present _ perNode rfl here
          cases cached'.symm.trans cached
          exact ⟨cache', rfl, refreshFinal_coherent fresh refreshed⟩
        next => exact coherent.present other perNode' settled held
  · cases done
    exact coherent

theorem mergedQueries_coherent {plans : List Plan} {data data' : GatewayData F}
    {found : List MergedQuery} (coherent : CacheCoherent platform data)
    (done : mergedQueries platform plans data = some (found, data')) : CacheCoherent platform data' := by
  induction plans generalizing data found with
  | nil =>
    cases done
    exact coherent
  | cons plan rest ih =>
    obtain ⟨⟨first, next⟩, step, done⟩ := Option.bind_eq_some_iff.mp done
    obtain ⟨⟨others, last⟩, later, result⟩ := Option.bind_eq_some_iff.mp done
    cases result
    exact ih (mergedQuery_coherent coherent step) later

theorem call_coherent {request : Call} {data data' : GatewayData F}
    (coherent : CacheCoherent platform data) (done : call platform g data request = some data') :
    CacheCoherent platform data' := by
  have reported : ∀ {readings found last}, merged platform g readings data = some (found, last) →
      CacheCoherent platform last := by
    intro readings found last ran
    obtain ⟨next, step, done⟩ := Option.bind_eq_some_iff.mp ran
    exact mergedQueries_coherent (evictAndRefresh_coherent coherent step) done
  cases request with
  | applyBatch batch readings now =>
    obtain ⟨⟨result, _⟩, applied, rfl⟩ := Option.map_eq_some_iff.mp done
    exact push_coherent coherent (applyBatch_pushed applied)
  | merged readings =>
    obtain ⟨⟨found, _⟩, ran, rfl⟩ := Option.map_eq_some_iff.mp done
    exact reported ran
  | renderMetrics readings =>
    obtain ⟨⟨metrics, _⟩, ran, rfl⟩ := Option.map_eq_some_iff.mp done
    obtain ⟨⟨found, _⟩, inner, result⟩ := Option.bind_eq_some_iff.mp ran
    cases result
    exact reported inner
  | nodesJson readings ages =>
    obtain ⟨⟨report, _⟩, ran, rfl⟩ := Option.map_eq_some_iff.mp done
    obtain ⟨next, inner, result⟩ := Option.bind_eq_some_iff.mp ran
    cases result
    exact evictAndRefresh_coherent coherent inner

/-- The cache is coherent after every run. -/
theorem run_coherent {calls : List Call} {data : GatewayData F}
    (ran : run platform g calls = some data) : CacheCoherent platform data :=
  run_induction (.empty platform) (fun _ _ _ coherent done => call_coherent coherent done) ran

end FlowSketch.Source.Gateway
