import FlowSketch.Lib.Lists
import FlowSketch.Source.Gateway.Refresh
import FlowSketch.Source.Runtime.Mergeable

/-!
# Complete merges

Every stored window was accepted for a plan, so no merge in the cache fails: a shard is the merge of all
its windows, and the final state the merge of all windows on the selected bounds. The nodes that a report
counts as merged are those on these bounds, and it shows estimates only when that is all of them.
-/

namespace FlowSketch.Source.Gateway
open Lib Lib.Octets Lib.Word64 Source.Core Source.Runtime

variable {F : Type} [LinearOrder F]

/-! ## Merges without a failure -/

/-- The merge of these windows, in some order of merges that all succeed. -/
inductive MergeOf (platform : Platform F) :
    List (WindowState (QueryState F)) → WindowState (QueryState F) → Prop
  | single (w : WindowState (QueryState F)) : MergeOf platform [w] w
  | join {ws vs : List (WindowState (QueryState F))} {a b c : WindowState (QueryState F)}
      (left : MergeOf platform ws a) (right : MergeOf platform vs b)
      (done : a.mergeInto platform.cardinality platform.hashing b = some (.ok (), c)) :
      MergeOf platform (ws ++ vs) c

/-- A state of the sketch in a window of these bounds. -/
structure OfWindow (platform : Platform F) (hash : HashSpec) (sketch : PhysicalSketch)
    (target : Nat × Nat) (w : WindowState (QueryState F)) : Prop where
  mergeable : Mergeable platform.hashing hash sketch w.state
  bounds : bounds w = target

/-- Nothing for no windows, else their merge. -/
def Combines (platform : Platform F) (hash : HashSpec) (sketch : PhysicalSketch) (target : Nat × Nat)
    (ws : List (WindowState (QueryState F))) (merged : Option (WindowState (QueryState F))) : Prop :=
  ws = [] ∧ merged = none ∨
    ∃ w, merged = some w ∧ MergeOf platform ws w ∧ OfWindow platform hash sketch target w

section

variable {platform : Platform F} {hash : HashSpec} {sketch : PhysicalSketch} {target : Nat × Nat}

theorem OfWindow.merge {a b : WindowState (QueryState F)} (mine : OfWindow platform hash sketch target a)
    (theirs : OfWindow platform hash sketch target b) :
    ∃ c, a.mergeInto platform.cardinality platform.hashing b = some (.ok (), c) ∧
      OfWindow platform hash sketch target c := by
  obtain ⟨state, merged, suits⟩ := mine.mergeable.merge theirs.mergeable platform.cardinality
  have same : (a.windowStartNanos, a.windowEndNanos) = (b.windowStartNanos, b.windowEndNanos) :=
    mine.bounds.trans theirs.bounds.symm
  refine ⟨{ a with state }, ?_, suits, mine.bounds⟩
  rw [WindowState.mergeInto, if_neg (not_not.mpr same), merged]
  rfl

theorem Combines.ne_nil {ws : List (WindowState (QueryState F))}
    {merged : Option (WindowState (QueryState F))}
    (combines : Combines platform hash sketch target ws merged) : merged = none ↔ ws = [] := by
  rcases combines with ⟨rfl, rfl⟩ | ⟨w, rfl, merge, _⟩
  · simp
  · refine iff_of_false (Option.some_ne_none _) ?_
    rintro rfl
    have nonempty : ∀ {list : List (WindowState (QueryState F))} {v}, MergeOf platform list v →
        list ≠ [] := by
      intro list v made
      induction made with
      | single w => exact List.cons_ne_nil _ _
      | join _ _ _ left _ => exact List.append_ne_nil_of_left_ne_nil left _
    exact nonempty merge rfl

/-- A round over a window of the shard. -/
theorem joinWindow_combines {so : Option (WindowState (QueryState F)) × Nat}
    {ws : List (WindowState (QueryState F))} {w : WindowState (QueryState F)}
    (combines : Combines platform hash sketch target ws so.1) (count : so.2 = ws.length)
    (new : OfWindow platform hash sketch target w) :
    ∃ so', joinWindow platform so w = some so' ∧
      Combines platform hash sketch target (ws ++ [w]) so'.1 ∧ so'.2 = (ws ++ [w]).length := by
  obtain ⟨merged, n⟩ := so
  rcases combines with ⟨rfl, rfl⟩ | ⟨a, rfl, made, suits⟩
  · exact ⟨(some w, 1), rfl, .inr ⟨w, rfl, .single w, new⟩, rfl⟩
  · obtain ⟨c, done, suits'⟩ := suits.merge new
    refine ⟨(some c, n + 1), ?_, .inr ⟨c, rfl, .join made (.single w) done, suits'⟩, ?_⟩
    · rw [joinWindow]
      dsimp only
      rw [done]
      rfl
    · rw [List.length_append]
      exact congrArg (· + 1) count

theorem joinWindows_combines {list : List (WindowState (QueryState F))}
    (all : ∀ w ∈ list, OfWindow platform hash sketch target w)
    {so : Option (WindowState (QueryState F)) × Nat} {ws : List (WindowState (QueryState F))}
    (combines : Combines platform hash sketch target ws so.1) (count : so.2 = ws.length) :
    ∃ so', list.foldlM (joinWindow platform) so = some so' ∧
      Combines platform hash sketch target (ws ++ list) so'.1 ∧ so'.2 = (ws ++ list).length := by
  induction list generalizing so ws with
  | nil => exact ⟨so, rfl, by rwa [List.append_nil], by rwa [List.append_nil]⟩
  | cons w rest ih =>
    rw [List.forall_mem_cons] at all
    obtain ⟨so', step, combines', count'⟩ := joinWindow_combines combines count all.1
    obtain ⟨so'', later, combines'', count''⟩ := ih all.2 combines' count'
    rw [List.append_assoc, List.singleton_append] at combines'' count''
    exact ⟨so'', by rw [List.foldlM_cons, step]; exact later, combines'', count''⟩

/-- The shards put together. -/
theorem mergeFinal_combines {shards : List (List (WindowState (QueryState F)) ×
      Option (WindowState (QueryState F)))}
    (all : ∀ shard ∈ shards, Combines platform hash sketch target shard.1 shard.2)
    {ws : List (WindowState (QueryState F))} {final : Option (WindowState (QueryState F))}
    (combines : Combines platform hash sketch target ws final) :
    ∃ final', mergeFinal platform final ((shards.map Prod.snd).filterMap id) = some final' ∧
      Combines platform hash sketch target (ws ++ (shards.map Prod.fst).flatten) final' := by
  induction shards generalizing ws final with
  | nil =>
    refine ⟨final, ?_, by simpa using combines⟩
    cases final <;> rfl
  | cons shard rest ih =>
    rw [List.forall_mem_cons] at all
    rw [List.map_cons, List.map_cons, List.flatten_cons, ← List.append_assoc]
    rcases all.1 with ⟨nothing, absent⟩ | ⟨w, present, made, suits⟩
    · rw [nothing, absent, List.append_nil]
      exact ih all.2 combines
    · rw [present, List.filterMap_cons]
      dsimp only [id]
      rcases combines with ⟨rfl, rfl⟩ | ⟨a, rfl, before, suits'⟩
      · exact ih all.2 (.inr ⟨w, rfl, made, suits⟩)
      · obtain ⟨c, done, suits''⟩ := suits'.merge suits
        obtain ⟨final', later, combines'⟩ := ih all.2 (.inr ⟨c, rfl, .join before made done, suits''⟩)
        refine ⟨final', ?_, combines'⟩
        rw [mergeFinal, done]
        exact later

end

/-! ## Valid windows -/

/-- Every stored window was accepted for the plan of its query. -/
def Valid (platform : Platform F) (g : GatewayState) (data : GatewayData F) : Prop :=
  ∀ query node window, data.stored query node = some window →
    ∃ plan, findPlan g query = some plan ∧
      Mergeable platform.hashing g.hash plan.sketch window.state.state

/-- The digest of the parameters tells the precision of a pushed HLLMap from the plan's. -/
def Separated (platform : Platform F) (g : GatewayState) (batch : PushBatch) : Prop :=
  ∀ e ∈ batch.entries, ∀ plan ∈ g.plans, ∀ own parsed,
    QueryState.build plan.sketch g.hash = .ok (.distinctPerKey own) →
    HllMap.fromSnapshot platform.cardinality platform.hashing e.snapshot = .ok parsed →
    HllMap.Separate platform.hashing own parsed

section

variable {platform : Platform F} {g : GatewayState}

theorem validate_ok {query : String} {components : List (String × Bytes)} {v : Validated F}
    (valid : validate platform g query components = .ok v) :
    v.query = query ∧ ∃ plan, findPlan g query = some plan ∧
      WindowState.fromComponents platform.cardinality platform.hashing plan.sketch g.hash components =
        .ok v.state := by
  unfold validate at valid
  split at valid
  · cases valid
  next plan found =>
    split at valid
    next state accepted =>
      cases valid
      exact ⟨rfl, plan, found, accepted⟩
    next => cases valid

/-- A valid state of a batch comes from the components of its query. -/
theorem validates_ok {batch : PushBatch} {v : Validated F} (valid : v ∈ (validates platform g batch).2) :
    ∃ plan, findPlan g v.query = some plan ∧
      WindowState.fromComponents platform.cardinality platform.hashing plan.sketch g.hash
        (componentsOf v.query batch.entries) = .ok v.state := by
  obtain ⟨⟨query, components⟩, member, checked⟩ := mem_validateAll.mp valid
  have listed := TreeMap.get_eq_some_iff.mpr member
  rw [groupByQuery_get] at listed
  split at listed
  · cases listed
    obtain ⟨rfl, plan, found, accepted⟩ := validate_ok checked
    exact ⟨plan, found, accepted⟩
  · cases listed

theorem validates_mergeable {batch : PushBatch} (separated : Separated platform g batch)
    {v : Validated F} (valid : v ∈ (validates platform g batch).2) :
    ∃ plan, findPlan g v.query = some plan ∧
      Mergeable platform.hashing g.hash plan.sketch v.state.state := by
  obtain ⟨plan, found, accepted⟩ := validates_ok valid
  refine ⟨plan, found, accepted_mergeable (fun own parsed name octets member built decoded => ?_) accepted⟩
  obtain ⟨e, inside, same⟩ := List.mem_map.mp member
  cases same
  exact separated e (List.mem_of_mem_filter inside) plan (List.mem_of_find?_eq_some found) own parsed
    built decoded

theorem Valid.same {data data' : GatewayData F} (valid : Valid platform g data)
    (same : SameWindows data data') : Valid platform g data' :=
  fun query node window found => valid query node window (same.stored query node ▸ found)

theorem Valid.evict {data : GatewayData F} (valid : Valid platform g data) (readings : Readings) :
    Valid platform g (evict platform g readings data) := by
  intro query node window found
  rw [stored_evict, Option.filter_eq_some_iff] at found
  exact valid query node window found.1

theorem Valid.put {data : GatewayData F} (valid : Valid platform g data) {query node : String}
    {window : NodeWindow F} (accepted : ∃ plan, findPlan g query = some plan ∧
      Mergeable platform.hashing g.hash plan.sketch window.state.state) :
    Valid platform g (data.put query node window) := by
  intro query' node' window' found
  rw [GatewayData.stored_put] at found
  split at found
  next here =>
    cases found
    rw [here.1]
    exact accepted
  next => exact valid query' node' window' found

theorem Valid.admitState {so : Admission F} (valid : Valid platform g so.data) {node : String}
    {now : Nat} {v : Validated F} (accepted : ∃ plan, findPlan g v.query = some plan ∧
      Mergeable platform.hashing g.hash plan.sketch v.state.state) :
    Valid platform g (admitState platform g node now so v).data := by
  rcases @admitState_cases F _ platform g node now so v with ⟨newer, stored, _, step⟩ |
    ⟨_, ⟨refusal, step, _⟩ | ⟨bytes, _, _, step⟩⟩
  · rw [step]
    exact valid.put (valid v.query node newer stored)
  · rw [step]
    exact valid
  · rw [step]
    exact fun query node window found => valid.put accepted query node window found

theorem Valid.rounds {data : GatewayData F} (valid : Valid platform g data) {node : String} {now : Nat}
    (rejected : List Rejection) {list : List (Validated F)}
    (accepted : ∀ v ∈ list, ∃ plan, findPlan g v.query = some plan ∧
      Mergeable platform.hashing g.hash plan.sketch v.state.state) :
    Valid platform g (rounds platform g node now rejected data list).data := by
  suffices kept : ∀ so : Admission F, Valid platform g so.data →
      Valid platform g (list.foldl (Gateway.admitState platform g node now) so).data from
    kept _ valid
  induction list with
  | nil => exact fun _ valid => valid
  | cons v rest ih =>
    rw [List.forall_mem_cons] at accepted
    exact fun so valid => ih accepted.2 _ (valid.admitState accepted.1)

/-! ## Nothing panics -/

/-- The windows of a query are windows of its plan. -/
theorem Valid.windows {data : GatewayData F} (valid : Valid platform g data) {query : String}
    {perNode : TreeMap String (NodeWindow F)} (found : data.nodes.get query = some perNode)
    (live : perNode.isEmpty = false) :
    ∃ plan, findPlan g query = some plan ∧ ∀ node state, (states perNode).get node = some state →
      Mergeable platform.hashing g.hash plan.sketch state.state := by
  have each : ∀ node window, perNode.get node = some window →
      ∃ plan, findPlan g query = some plan ∧
        Mergeable platform.hashing g.hash plan.sketch window.state.state :=
    fun node window inside => valid query node window (Option.bind_eq_some_iff.mpr ⟨perNode, found, inside⟩)
  obtain ⟨node, window, inside⟩ : ∃ node window, perNode.get node = some window := by
    by_contra none
    push Not at none
    have empty := TreeMap.isEmpty_iff.mpr fun node => Option.eq_none_iff_forall_ne_some.mpr (none node)
    rw [live] at empty
    cases empty
  obtain ⟨plan, planned, _⟩ := each node window inside
  refine ⟨plan, planned, fun node state stored => ?_⟩
  rw [states_get] at stored
  obtain ⟨window, inside, rfl⟩ := Option.map_eq_some_iff.mp stored
  obtain ⟨plan', planned', mergeable⟩ := each node window inside
  cases planned.symm.trans planned'
  exact mergeable

variable {perNode : TreeMap String (NodeWindow F)} {plan : Plan}

theorem shardWindows_of (mergeable : ∀ node state, (states perNode).get node = some state →
      Mergeable platform.hashing g.hash plan.sketch state.state) (target : Nat × Nat) (shard : Nat) :
    ∀ w ∈ shardWindows platform perNode target shard,
      OfWindow platform g.hash plan.sketch target w := by
  intro w member
  obtain ⟨⟨node, _⟩, inside, rfl⟩ := List.mem_map.mp member
  obtain ⟨listed, kept⟩ := List.mem_filter.mp inside
  exact ⟨mergeable node _ (TreeMap.get_eq_some_iff.mpr listed), (of_decide_eq_true kept).2⟩

/-- A shard is the merge of all its windows. -/
theorem mergeCacheShard_complete (mergeable : ∀ node state, (states perNode).get node = some state →
      Mergeable platform.hashing g.hash plan.sketch state.state) (target : Nat × Nat) (shard : Nat) :
    ∃ merged, mergeCacheShard platform perNode target shard =
        some (merged, (shardWindows platform perNode target shard).length) ∧
      Combines platform g.hash plan.sketch target (shardWindows platform perNode target shard) merged := by
  obtain ⟨⟨merged, count⟩, done, combines, counted⟩ :=
    @joinWindows_combines F _ platform g.hash plan.sketch target _
      (shardWindows_of mergeable target shard) (none, 0) [] (.inl ⟨rfl, rfl⟩) rfl
  rw [List.nil_append] at combines counted
  exact ⟨merged, by rw [mergeCacheShard_eq, done]; exact congrArg (fun n => some (merged, n)) counted,
    combines⟩

theorem rebuildShards_total (mergeable : ∀ node state, (states perNode).get node = some state →
      Mergeable platform.hashing g.hash plan.sketch state.state) (target : Nat × Nat) (list : List Nat)
    (cache : QueryMergeCache F) :
    ∃ cache', list.foldlM (rebuildShard platform perNode target) cache = some cache' := by
  induction list generalizing cache with
  | nil => exact ⟨cache, rfl⟩
  | cons shard rest ih =>
    obtain ⟨merged, done, _⟩ := mergeCacheShard_complete mergeable target shard
    rw [List.foldlM_cons, rebuildShard, done]
    exact ih _

theorem refreshCache_total (mergeable : ∀ node state, (states perNode).get node = some state →
      Mergeable platform.hashing g.hash plan.sketch state.state) (target : Nat × Nat)
    (cache : QueryMergeCache F) (marked : Finset Nat) :
    ∃ cache', refreshCache platform perNode target cache marked = some cache' := by
  obtain ⟨cache', done⟩ := rebuildShards_total mergeable target
    (if cache.target ≠ some target ∨ cache.shardStates.length ≠ mergeCacheShards ∨
        cache.shardNodes.length ≠ mergeCacheShards
      then List.range mergeCacheShards else marked.sort (· ≤ ·))
    (if cache.target ≠ some target ∨ cache.shardStates.length ≠ mergeCacheShards ∨
        cache.shardNodes.length ≠ mergeCacheShards
      then { cache with target := some target, shardStates := List.replicate mergeCacheShards none
                        shardNodes := List.replicate mergeCacheShards 0 } else cache)
  exact ⟨_, Option.bind_eq_some_iff.mpr ⟨cache', done, rfl⟩⟩

variable {data : GatewayData F}

theorem refreshQueryCache_total (valid : Valid platform g data) (query : String) (marked : Finset Nat) :
    ∃ data', refreshQueryCache platform data query marked = some data' := by
  unfold refreshQueryCache
  split
  · exact ⟨_, rfl⟩
  next perNode found =>
    split
    · exact ⟨_, rfl⟩
    next target selected =>
      have live : perNode.isEmpty = false := by
        by_contra empty
        have nothing := List.isEmpty_iff.mp (Bool.eq_true_of_not_eq_false empty)
        rw [selectedWindow, nothing] at selected
        cases selected
      obtain ⟨plan, _, mergeable⟩ := valid.windows found live
      obtain ⟨cache, refreshed⟩ := refreshCache_total mergeable target
        ((data.mergeCache.get query).getD .default) marked
      exact ⟨_, Option.bind_eq_some_iff.mpr ⟨cache, refreshed, rfl⟩⟩

theorem refreshChangedCaches_total (valid : Valid platform g data) (changed : Changed) :
    ∃ data', refreshChangedCaches platform data changed = some data' := by
  suffices total : ∀ (list : List (String × Finset Nat)) (data : GatewayData F), Valid platform g data →
      ∃ data', list.foldlM (fun data (entry : String × Finset Nat) =>
        refreshQueryCache platform data entry.1 entry.2) data = some data' from
    total changed.entries data valid
  intro list
  induction list with
  | nil => exact fun data _ => ⟨data, rfl⟩
  | cons entry rest ih =>
    intro data valid
    obtain ⟨next, step⟩ := refreshQueryCache_total valid entry.1 entry.2
    obtain ⟨last, later⟩ := ih next (valid.same (refreshQueryCache_windows step))
    exact ⟨last, by rw [List.foldlM_cons, step]; exact later⟩

theorem evictAndRefresh_total (valid : Valid platform g data) (readings : Readings) :
    ∃ data', evictAndRefresh platform g readings data = some data' ∧ Valid platform g data' := by
  obtain ⟨data', done⟩ := refreshChangedCaches_total (valid.evict readings)
    (evictStale platform g readings data).2
  exact ⟨data', done, (valid.evict readings).same (refreshChangedCaches_windows done)⟩

theorem applyBatch_total (valid : Valid platform g data) {batch : PushBatch}
    (separated : Separated platform g batch) (readings : Readings) (now : Nat) :
    ∃ result data', applyBatch platform g readings now batch data = some (result, data') ∧
      Valid platform g data' := by
  unfold applyBatch
  dsimp only
  split
  · exact ⟨_, _, rfl, valid⟩
  · obtain ⟨mid, evicted, settled⟩ := evictAndRefresh_total valid readings
    rw [evicted, Option.bind_eq_bind, Option.bind_some, admitAll]
    split
    · exact ⟨_, _, rfl, settled⟩
    · have kept := @Valid.rounds F _ platform g mid settled batch.node now (validates platform g batch).1
        (validates platform g batch).2 fun v member => validates_mergeable separated member
      obtain ⟨last, refreshed⟩ := refreshChangedCaches_total kept
        (rounds platform g batch.node now (validates platform g batch).1 mid
          (validates platform g batch).2).changed
      exact ⟨_, last, Option.bind_eq_some_iff.mpr ⟨last, refreshed, rfl⟩,
        kept.same (refreshChangedCaches_windows refreshed)⟩

/-! ## Complete shards -/

/-- The windows on the selected bounds. -/
def onTarget (perNode : TreeMap String (NodeWindow F)) (target : Nat × Nat) :
    List (WindowState (QueryState F)) :=
  ((states perNode).entries.map Prod.snd).filter (fun state => bounds state = target)

/-- The shards together have every window on the bounds. -/
theorem shardWindows_perm (perNode : TreeMap String (NodeWindow F)) (target : Nat × Nat) :
    ((List.range mergeCacheShards).flatMap (shardWindows platform perNode target)).Perm
      (onTarget perNode target) := by
  have buckets := Lists.buckets_perm (fun entry => mergeShard platform entry.1)
    ((states perNode).entries.filter (fun entry => bounds entry.2 = target)) mergeCacheShards
  have everywhere : ((states perNode).entries.filter (fun entry => bounds entry.2 = target)).filter
      (fun entry => mergeShard platform entry.1 < mergeCacheShards) =
        (states perNode).entries.filter (fun entry => bounds entry.2 = target) :=
    List.filter_eq_self.mpr fun entry _ => decide_eq_true (Nat.mod_lt _ (by decide))
  rw [everywhere] at buckets
  have mapped := buckets.map Prod.snd
  rw [List.map_flatMap] at mapped
  have shards : ∀ shard, shardWindows platform perNode target shard =
      (((states perNode).entries.filter (fun entry => bounds entry.2 = target)).filter
        (fun entry => mergeShard platform entry.1 = shard)).map Prod.snd := by
    intro shard
    rw [List.filter_filter, shardWindows, TreeMap.filter]
    refine congrArg (List.map Prod.snd) (List.filter_congr fun entry _ => ?_)
    exact Bool.decide_and _ _
  rw [onTarget, List.filter_map]
  refine (List.Perm.of_eq ?_).trans mapped
  exact congrArg (List.flatMap · _) (funext shards)

/-- The shards of a coherent cache, with the windows they merge. -/
theorem Coherent.shards_complete {cache : QueryMergeCache F}
    (coherent : Coherent platform perNode cache)
    (mergeable : ∀ node state, (states perNode).get node = some state →
      Mergeable platform.hashing g.hash plan.sketch state.state) {target : Nat × Nat}
    (selected : cache.target = some target) :
    (∀ shard < mergeCacheShards, ∃ merged, cache.shardStates[shard]? = some merged ∧
      cache.shardNodes[shard]? = some (shardWindows platform perNode target shard).length ∧
      Combines platform g.hash plan.sketch target (shardWindows platform perNode target shard) merged) ∧
    cache.shardNodes.sum = (onTarget perNode target).length ∧
    ∃ final, mergeFinal platform none cache.shardSummaries = some final ∧
      Combines platform g.hash plan.sketch target
        ((List.range mergeCacheShards).flatMap (shardWindows platform perNode target)) final := by
  have each : ∀ shard < mergeCacheShards, ∃ merged, cache.shardStates[shard]? = some merged ∧
      cache.shardNodes[shard]? = some (shardWindows platform perNode target shard).length ∧
      Combines platform g.hash plan.sketch target (shardWindows platform perNode target shard)
        merged := by
    intro shard inside
    obtain ⟨state, count, scratch, here, there⟩ := coherent.shards target selected shard inside
    obtain ⟨merged, done, combines⟩ := mergeCacheShard_complete mergeable target shard
    cases scratch.symm.trans done
    exact ⟨_, here, there, combines⟩
  have counts : cache.shardNodes = (List.range mergeCacheShards).map
      (fun shard => (shardWindows platform perNode target shard).length) := by
    refine List.ext_getElem? fun shard => ?_
    by_cases inside : shard < mergeCacheShards
    · obtain ⟨_, _, there, _⟩ := each shard inside
      rw [there, List.getElem?_map, List.getElem?_range inside]
      rfl
    · rw [List.getElem?_eq_none (by rw [coherent.counts]; omega),
        List.getElem?_eq_none (by rw [List.length_map, List.length_range]; omega)]
  refine ⟨each, ?_, ?_⟩
  · rw [counts, ← (@shardWindows_perm F _ platform perNode target).length_eq, List.length_flatMap]
  · let shards := (List.range mergeCacheShards).map (fun shard =>
      (shardWindows platform perNode target shard, (cache.shardStates[shard]?).getD none))
    have states : cache.shardStates = shards.map Prod.snd := by
      refine List.ext_getElem? fun shard => ?_
      rw [List.map_map]
      by_cases inside : shard < mergeCacheShards
      · obtain ⟨merged, here, _⟩ := each shard inside
        rw [List.getElem?_map, List.getElem?_range inside, here]
        simp [here]
      · rw [List.getElem?_eq_none (by rw [coherent.length]; omega),
          List.getElem?_eq_none (by rw [List.length_map, List.length_range]; omega)]
    have all : ∀ shard ∈ shards, Combines platform g.hash plan.sketch target shard.1 shard.2 := by
      intro shard member
      obtain ⟨i, inside, rfl⟩ := List.mem_map.mp member
      obtain ⟨merged, here, _, combines⟩ := each i (List.mem_range.mp inside)
      rw [here]
      exact combines
    obtain ⟨final, done, combines⟩ := @mergeFinal_combines F _ platform g.hash plan.sketch target shards
      all [] none (.inl ⟨rfl, rfl⟩)
    refine ⟨final, ?_, ?_⟩
    · rw [QueryMergeCache.shardSummaries, states]
      exact done
    · have listed : (shards.map Prod.fst).flatten =
          (List.range mergeCacheShards).flatMap (shardWindows platform perNode target) := by
        rw [List.map_map, List.flatMap]
        rfl
      rw [List.nil_append, listed] at combines
      exact combines

end

end FlowSketch.Source.Gateway
