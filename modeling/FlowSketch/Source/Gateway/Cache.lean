import FlowSketch.Source.Gateway.Pushes

/-!
# The merge cache

The cache of a query is what merging its stored windows from scratch would give, shard by shard. Between
a change of the windows and the refresh that follows, it may differ in the shards that were marked.
-/

namespace FlowSketch.Source.Gateway
open Lib Lib.Octets Lib.Word64 Source.Core Source.Runtime

variable {F : Type}

/-! ## Windows by node -/

/-- The windows without the times they were received at. -/
def states (perNode : TreeMap String (NodeWindow F)) : TreeMap String (WindowState (QueryState F)) :=
  perNode.mapValues (fun _ window => window.state)

theorem states_get (perNode : TreeMap String (NodeWindow F)) (node : String) :
    (states perNode).get node = (perNode.get node).map NodeWindow.state :=
  TreeMap.get_mapValues _ _ _

theorem states_list (perNode : TreeMap String (NodeWindow F)) :
    perNode.entries.map (fun entry => entry.2.state) = (states perNode).entries.map Prod.snd := by
  rw [states, TreeMap.mapValues, List.map_map]
  rfl

theorem states_size (perNode : TreeMap String (NodeWindow F)) :
    perNode.size = (states perNode).entries.length :=
  (List.length_map _).symm

/-- Only the time changes. -/
theorem states_touch {perNode : TreeMap String (NodeWindow F)} {node : String} {window : NodeWindow F}
    (found : perNode.get node = some window) (received : Nat) :
    states (perNode.insert node { window with received }) = states perNode := by
  refine TreeMap.ext_get fun other => ?_
  rw [states_get, states_get, TreeMap.get_insert]
  split
  next same =>
    rw [same, found]
    rfl
  next => rfl

theorem states_insert_filter {perNode : TreeMap String (NodeWindow F)} {node : String}
    {window : NodeWindow F} {keep : String → WindowState (QueryState F) → Bool}
    (dropped : ∀ state, keep node state = false) :
    (states (perNode.insert node window)).filter keep = (states perNode).filter keep := by
  refine TreeMap.ext_get fun other => ?_
  rw [TreeMap.get_filter, TreeMap.get_filter, states_get, states_get, TreeMap.get_insert]
  split
  next same =>
    subst same
    have nothing : ∀ found : Option (NodeWindow F),
        (found.map NodeWindow.state).filter (keep other) = none := by
      rintro (_ | w)
      · rfl
      · rw [Option.map_some, Option.filter_some, dropped, if_neg Bool.false_ne_true]
    rw [nothing, nothing]
  next => rfl

theorem states_filter_filter {perNode : TreeMap String (NodeWindow F)}
    {fresh : String → NodeWindow F → Bool} {keep : String → WindowState (QueryState F) → Bool}
    (kept : ∀ node window, perNode.get node = some window → keep node window.state = true →
      fresh node window = true) :
    (states (perNode.filter fresh)).filter keep = (states perNode).filter keep := by
  refine TreeMap.ext_get fun node => ?_
  rw [TreeMap.get_filter, TreeMap.get_filter, states_get, states_get, TreeMap.get_filter]
  cases found : perNode.get node with
  | none => rfl
  | some window =>
    rw [Option.filter_some]
    cases shown : keep node window.state with
    | true => rw [if_pos (kept node window found shown)]
    | false =>
      rw [Option.map_some, Option.filter_some, shown, if_neg Bool.false_ne_true]
      split
      · rw [Option.map_some, Option.filter_some, shown, if_neg Bool.false_ne_true]
      · rfl

/-! ## The selected window -/

theorem selectedWindow_congr {perNode perNode' : TreeMap String (NodeWindow F)}
    (same : states perNode' = states perNode) : selectedWindow perNode' = selectedWindow perNode := by
  rw [selectedWindow, selectedWindow, states_list, states_list, same]

theorem votes_kept (maxEnd start : Nat) (windows : List (WindowState (QueryState F)))
    {votes : TreeMap Nat Nat} (counted : votes.get start ≠ none) :
    (windows.foldl (vote maxEnd) votes).get start ≠ none := by
  induction windows generalizing votes with
  | nil => exact counted
  | cons w rest ih =>
    refine ih ?_
    unfold vote
    split
    · rw [TreeMap.get_insert]
      split
      · exact Option.some_ne_none _
      · exact counted
    · exact counted

theorem votes_counted {maxEnd : Nat} {windows : List (WindowState (QueryState F))}
    {w : WindowState (QueryState F)} (member : w ∈ windows) (last : w.windowEndNanos = maxEnd)
    (votes : TreeMap Nat Nat) :
    (windows.foldl (vote maxEnd) votes).get w.windowStartNanos ≠ none := by
  induction windows generalizing votes with
  | nil => cases member
  | cons u rest ih =>
    rcases List.mem_cons.mp member with rfl | later
    · refine votes_kept maxEnd _ rest ?_
      rw [vote, if_pos last, TreeMap.get_insert, if_pos rfl]
      exact Option.some_ne_none _
    · exact ih later _

/-- A query with windows has a window selected, and it ends with the latest. -/
theorem selectedWindow_some {perNode : TreeMap String (NodeWindow F)} (live : perNode.isEmpty = false) :
    ∃ start maxEnd, selectedWindow perNode = some (start, maxEnd) ∧
      (perNode.entries.map (fun entry => entry.2.state.windowEndNanos)).max? = some maxEnd := by
  have some_window : perNode.entries.map (fun entry => entry.2.state) ≠ [] := by
    intro nothing
    rw [TreeMap.isEmpty, List.map_eq_nil_iff.mp nothing] at live
    cases live
  have ends : perNode.entries.map (fun entry => entry.2.state.windowEndNanos) =
      (perNode.entries.map (fun entry => entry.2.state)).map WindowState.windowEndNanos := by
    rw [List.map_map]
    rfl
  rw [ends]
  cases last : ((perNode.entries.map (fun entry => entry.2.state)).map WindowState.windowEndNanos).max?
  with
  | none => exact absurd (List.map_eq_nil_iff.mp (List.max?_eq_none_iff.mp last)) some_window
  | some maxEnd =>
    obtain ⟨w, member, reaches⟩ := List.mem_map.mp (List.max?_mem last)
    have counted := votes_counted member reaches .empty
    unfold selectedWindow
    dsimp only
    rw [last]
    cases listed : ((perNode.entries.map (fun entry => entry.2.state)).foldl (vote maxEnd)
        .empty).entries with
    | nil =>
      rw [TreeMap.get, listed] at counted
      exact absurd rfl counted
    | cons first rest => exact ⟨(rest.foldl keepGreater first).1, maxEnd, by simp [listed], rfl⟩

/-! ## Shards -/

section

variable [LinearOrder F] (platform : Platform F)

/-- The windows that a shard merges. -/
def shardWindows (perNode : TreeMap String (NodeWindow F)) (target : Nat × Nat) (shard : Nat) :
    List (WindowState (QueryState F)) :=
  ((states perNode).filter (fun node state =>
    mergeShard platform node = shard ∧ bounds state = target)).entries.map Prod.snd

theorem mergeCacheShard_eq (perNode : TreeMap String (NodeWindow F)) (target : Nat × Nat)
    (shard : Nat) : mergeCacheShard platform perNode target shard =
      (shardWindows platform perNode target shard).foldlM (joinWindow platform) (none, 0) := by
  rw [mergeCacheShard, shardWindows, states, TreeMap.mapValues, TreeMap.filter]
  dsimp only
  generalize ((none, 0) : Option (WindowState (QueryState F)) × Nat) = so
  induction perNode.entries generalizing so with
  | nil => rfl
  | cons entry rest ih =>
    obtain ⟨node, window⟩ := entry
    rw [List.foldlM_cons, List.map_cons]
    dsimp only
    split
    next skipped =>
      rw [List.filter_cons_of_neg (by simpa [← not_and_or] using skipped)]
      exact ih so
    next merged =>
      rw [List.filter_cons_of_pos (by simpa [not_or] using merged), List.map_cons, List.foldlM_cons]
      exact congrArg _ (funext ih)

/-- One shard of the cache is as from scratch. -/
def ShardAgrees (perNode : TreeMap String (NodeWindow F)) (target : Nat × Nat)
    (cache : QueryMergeCache F) (shard : Nat) : Prop :=
  ∃ state count, mergeCacheShard platform perNode target shard = some (state, count) ∧
    cache.shardStates[shard]? = some state ∧ cache.shardNodes[shard]? = some count

/-- The cache of a query is as from scratch. -/
structure Coherent (perNode : TreeMap String (NodeWindow F)) (cache : QueryMergeCache F) : Prop where
  target : cache.target = selectedWindow perNode
  length : cache.shardStates.length = mergeCacheShards
  counts : cache.shardNodes.length = mergeCacheShards
  shards : ∀ target, cache.target = some target → ∀ shard < mergeCacheShards,
    ShardAgrees platform perNode target cache shard
  final : ∀ w, cache.finalState = some w →
    mergeFinal platform none cache.shardSummaries = some (some w)

/-- The cache may differ in the marked shards, and in the selection. -/
def AgreesExcept (marked : Finset Nat) (perNode : TreeMap String (NodeWindow F))
    (cache : QueryMergeCache F) : Prop :=
  ∀ target, cache.target = some target → cache.shardStates.length = mergeCacheShards →
    cache.shardNodes.length = mergeCacheShards → ∀ shard < mergeCacheShards, shard ∉ marked →
      ShardAgrees platform perNode target cache shard

variable {platform}

theorem ShardAgrees.congr {perNode perNode' : TreeMap String (NodeWindow F)} {target : Nat × Nat}
    {cache : QueryMergeCache F} {shard : Nat}
    (same : shardWindows platform perNode' target shard = shardWindows platform perNode target shard)
    (agrees : ShardAgrees platform perNode target cache shard) :
    ShardAgrees platform perNode' target cache shard := by
  unfold ShardAgrees
  rw [mergeCacheShard_eq, same, ← mergeCacheShard_eq]
  exact agrees

theorem Coherent.congr {perNode perNode' : TreeMap String (NodeWindow F)} {cache : QueryMergeCache F}
    (same : states perNode' = states perNode) (coherent : Coherent platform perNode cache) :
    Coherent platform perNode' cache where
  target := coherent.target.trans (selectedWindow_congr same).symm
  length := coherent.length
  counts := coherent.counts
  shards target selected shard inside :=
    (coherent.shards target selected shard inside).congr (by rw [shardWindows, shardWindows, same])
  final := coherent.final

theorem Coherent.agreesExcept {perNode : TreeMap String (NodeWindow F)} {cache : QueryMergeCache F}
    (coherent : Coherent platform perNode cache) (marked : Finset Nat) :
    AgreesExcept platform marked perNode cache :=
  fun target selected _ _ shard inside _ => coherent.shards target selected shard inside

theorem AgreesExcept.congr {perNode perNode' : TreeMap String (NodeWindow F)}
    {cache : QueryMergeCache F} {marked : Finset Nat} (same : states perNode' = states perNode)
    (agrees : AgreesExcept platform marked perNode cache) :
    AgreesExcept platform marked perNode' cache :=
  fun target selected length counts shard inside unmarked =>
    (agrees target selected length counts shard inside unmarked).congr
      (by rw [shardWindows, shardWindows, same])

/-- A new window spoils its shard only. -/
theorem AgreesExcept.insert {perNode : TreeMap String (NodeWindow F)} {cache : QueryMergeCache F}
    {marked : Finset Nat} (agrees : AgreesExcept platform marked perNode cache) (node : String)
    (window : NodeWindow F) :
    AgreesExcept platform (Insert.insert (mergeShard platform node) marked) (perNode.insert node window)
      cache := by
  intro target selected length counts shard inside unmarked
  rw [Finset.mem_insert, not_or] at unmarked
  refine (agrees target selected length counts shard inside unmarked.2).congr ?_
  rw [shardWindows, shardWindows]
  refine congrArg (fun m : TreeMap String (WindowState (QueryState F)) => m.entries.map Prod.snd) ?_
  exact states_insert_filter fun state => by simp [Ne.symm unmarked.1]

/-- Dropped windows spoil their shards only. -/
theorem AgreesExcept.filter {perNode : TreeMap String (NodeWindow F)} {cache : QueryMergeCache F}
    {marked marked' : Finset Nat} (agrees : AgreesExcept platform marked perNode cache)
    {fresh : String → NodeWindow F → Bool} (grown : marked ⊆ marked')
    (dropped : ∀ node window, perNode.get node = some window → fresh node window = false →
      mergeShard platform node ∈ marked') :
    AgreesExcept platform marked' (perNode.filter fresh) cache := by
  intro target selected length counts shard inside unmarked
  refine (agrees target selected length counts shard inside fun old => unmarked (grown old)).congr ?_
  rw [shardWindows, shardWindows]
  refine congrArg (fun m : TreeMap String (WindowState (QueryState F)) => m.entries.map Prod.snd) ?_
  refine states_filter_filter fun node window found shown => ?_
  by_contra stale
  have here := of_decide_eq_true shown
  exact unmarked (here.1 ▸ dropped node window found (Bool.eq_false_iff.mpr stale))

end

end FlowSketch.Source.Gateway
