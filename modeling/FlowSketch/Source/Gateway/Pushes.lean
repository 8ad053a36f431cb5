import FlowSketch.Source.Gateway.Windows

/-!
# Pushes

A batch is grouped by query, each query is validated by itself, and what is valid is admitted once the
stale windows are gone. The rejected and the valid queries of a batch are its query names, each once.
-/

namespace FlowSketch.Source.Gateway
open Lib Lib.Octets Lib.Word64 Source.Core Source.Runtime

variable {F : Type}

/-! ## Grouping -/

/-- The query names of a batch. -/
def queryNames (batch : PushBatch) : Finset String := (batch.entries.map PushEntry.queryName).toFinset

/-- The components of one query, in their order. -/
def componentsOf (query : String) (entries : List PushEntry) : List (String × Bytes) :=
  (entries.filter (fun e => e.queryName = query)).map (fun e => (e.component, e.snapshot))

theorem groupByQuery_get (entries : List PushEntry) (query : String) :
    (groupByQuery entries).get query =
      if query ∈ entries.map PushEntry.queryName then some (componentsOf query entries) else none := by
  induction entries using List.reverseRecOn with
  | nil => rfl
  | append_singleton entries e ih =>
    have names : query ∈ (entries ++ [e]).map PushEntry.queryName ↔
        query ∈ entries.map PushEntry.queryName ∨ query = e.queryName := by simp
    have grown : (groupByQuery (entries ++ [e])).get query =
        if query = e.queryName then
          some (((groupByQuery entries).get e.queryName).getD [] ++ [(e.component, e.snapshot)])
        else (groupByQuery entries).get query := by
      rw [groupByQuery, List.foldl_append]
      exact TreeMap.get_insert _ _ _ _
    rw [grown]
    by_cases here : query = e.queryName
    · rw [if_pos here, if_pos (names.mpr (.inr here)), ← here, ih, componentsOf, componentsOf,
        List.filter_append, List.map_append]
      have last : [e].filter (fun e => e.queryName = query) = [e] := by simp [here]
      rw [last]
      split
      · rfl
      next absent =>
        have nothing : entries.filter (fun e => e.queryName = query) = [] :=
          List.filter_eq_nil_iff.mpr fun other member same =>
            absent (List.mem_map.mpr ⟨other, member, of_decide_eq_true same⟩)
        rw [nothing]
        rfl
    · have last : [e].filter (fun e => e.queryName = query) = [] := by simp [Ne.symm here]
      rw [if_neg here, ih, componentsOf, componentsOf, List.filter_append, last, List.append_nil]
      refine if_congr ?_ rfl rfl
      rw [names]
      exact (or_iff_left here).symm

theorem groupByQuery_keys (batch : PushBatch) :
    (AssocMap.keys (groupByQuery batch.entries).entries).toFinset = queryNames batch ∧
      (groupByQuery batch.entries).entries.length = (queryNames batch).card := by
  have keys : (AssocMap.keys (groupByQuery batch.entries).entries).toFinset = queryNames batch := by
    ext query
    rw [List.mem_toFinset, queryNames, List.mem_toFinset]
    constructor
    · intro listed
      obtain ⟨⟨_, components⟩, member, rfl⟩ := List.mem_map.mp listed
      have found := TreeMap.get_eq_some_iff.mpr member
      rw [groupByQuery_get] at found
      split at found
      next named => exact named
      next => cases found
    · intro named
      refine List.mem_map.mpr ⟨(query, componentsOf query batch.entries), ?_, rfl⟩
      exact TreeMap.get_eq_some_iff.mp (by rw [groupByQuery_get, if_pos named])
  refine ⟨keys, ?_⟩
  rw [← keys, List.toFinset_card_of_nodup (TreeMap.nodup _), List.length_map]

section

variable [LinearOrder F] {platform : Platform F} {g : GatewayState}

/-! ## Validation -/

/-- A query of the list is rejected or valid, once. -/
theorem validateAll_perm (node : String) (list : List (String × List (String × Bytes))) :
    ((validateAll platform g node list).1.map Rejection.query ++
      (validateAll platform g node list).2.map Validated.query).Perm (AssocMap.keys list) := by
  induction list with
  | nil => exact List.Perm.nil
  | cons entry rest ih =>
    obtain ⟨query, components⟩ := entry
    rw [validateAll]
    cases checked : validate platform g query components with
    | ok v =>
      have named : v.query = query := by
        unfold validate at checked
        split at checked
        · cases checked
        · split at checked
          · cases checked
            rfl
          · cases checked
      show (_ ++ v.query :: _).Perm (query :: _)
      rw [named]
      exact List.perm_middle.trans (ih.cons query)
    | error refusal => exact ih.cons query

/-- The valid states, as the queries validated one by one. -/
theorem mem_validateAll {node : String} {list : List (String × List (String × Bytes))}
    {v : Validated F} : v ∈ (validateAll platform g node list).2 ↔
      ∃ entry ∈ list, validate platform g entry.1 entry.2 = .ok v := by
  induction list with
  | nil => simp [validateAll]
  | cons entry rest ih =>
    obtain ⟨query, components⟩ := entry
    rw [validateAll, List.exists_mem_cons_iff]
    cases checked : validate platform g query components with
    | ok w =>
      rw [← ih]
      show v ∈ w :: _ ↔ _
      rw [List.mem_cons]
      exact or_congr ⟨fun same => same ▸ rfl, fun same => (Except.ok.inj same).symm⟩ Iff.rfl
    | error refusal =>
      rw [← ih]
      exact (or_iff_right nofun).symm

/-- What `validate` makes of the components of a query of the batch. -/
def validates (platform : Platform F) (g : GatewayState) (batch : PushBatch) :
    List Rejection × List (Validated F) :=
  validateAll platform g batch.node (groupByQuery batch.entries).entries

theorem validates_keys (batch : PushBatch) :
    (validates platform g batch).1.length + (validates platform g batch).2.length =
        (queryNames batch).card ∧
      ((validates platform g batch).2.map Validated.query).Nodup ∧
      (∀ r ∈ (validates platform g batch).1, ∀ v ∈ (validates platform g batch).2,
        r.query ≠ v.query) ∧
      (∀ v ∈ (validates platform g batch).2, v.query ∈ queryNames batch) := by
  have listed := @validateAll_perm F _ platform g batch.node (groupByQuery batch.entries).entries
  obtain ⟨keys, length⟩ := groupByQuery_keys batch
  have nodup := (listed.nodup_iff).mpr (TreeMap.nodup _)
  rw [List.nodup_append] at nodup
  refine ⟨?_, nodup.2.1, fun r rejected v valid => ?_, fun v valid => ?_⟩
  · have lengths := listed.length_eq
    rw [List.length_append, List.length_map, List.length_map, List.length_map] at lengths
    exact lengths.trans length
  · exact nodup.2.2 _ (List.mem_map_of_mem rejected) _ (List.mem_map_of_mem valid)
  · rw [← keys, List.mem_toFinset]
    exact listed.mem_iff.mp (List.mem_append_right _ (List.mem_map_of_mem valid))

/-! ## A push -/

/-- The bytes that a new window of the node would replace. -/
def GatewayData.replacedBytes (data : GatewayData F) (query node : String) : Nat :=
  (data.stored query node).elim 0 (fun window => window.memoryBytes)

/-- What a round does: it refreshes a newer window, rejects, or stores. -/
theorem admitState_cases {node : String} {now : Nat} (so : Admission F) (v : Validated F) :
    (∃ newer, so.data.stored v.query node = some newer ∧
        v.state.windowEndNanos < newer.state.windowEndNanos ∧
        admitState platform g node now so v =
          { so with data := so.data.put v.query node { newer with received := now }
                    accepted := so.accepted + 1 }) ∨
    (∀ w, so.data.stored v.query node = some w → w.state.windowEndNanos ≤ v.state.windowEndNanos) ∧
      ((∃ refusal, admitState platform g node now so v = so.reject v.query node refusal ∧
          ((∃ r o i, refusal = .overflowed r o i) ∨ ∃ p b r o i, refusal = .overBudget p b r o i)) ∨
        ∃ bytes, projected so.data.retainedSketchBytes (so.data.replacedBytes v.query node)
            v.memoryBytes = some bytes ∧ bytes ≤ g.maxRetainedSketchBytes ∧
          admitState platform g node now so v =
            { so with
                data := { so.data.put v.query node
                            { received := now, state := v.state, memoryBytes := v.memoryBytes } with
                          retainedSketchBytes := bytes }
                changed := mark so.changed v.query (mergeShard platform node)
                accepted := so.accepted + 1 }) := by
  unfold admitState
  dsimp only
  split
  next newer found =>
    obtain ⟨stored, later⟩ := Option.filter_eq_some_iff.mp found
    exact .inl ⟨newer, stored, of_decide_eq_true later, rfl⟩
  next none_newer =>
    refine .inr ⟨fun w stored => ?_, ?_⟩
    · rw [stored, Option.filter_some] at none_newer
      by_contra later
      rw [if_pos (decide_eq_true (Nat.lt_of_not_le later))] at none_newer
      cases none_newer
    · split
      · exact .inl ⟨_, rfl, .inl ⟨_, _, _, rfl⟩⟩
      next bytes sum =>
        split
        · exact .inl ⟨_, rfl, .inr ⟨_, _, _, _, _, rfl⟩⟩
        next within => exact .inr ⟨bytes, sum, Nat.le_of_not_lt within, rfl⟩

/-- The rounds of an admission, from the data that the eviction leaves. -/
def rounds (platform : Platform F) (g : GatewayState) (node : String) (now : Nat)
    (rejected : List Rejection) (data : GatewayData F) (list : List (Validated F)) : Admission F :=
  list.foldl (admitState platform g node now) { data, changed := .empty, accepted := 0, rejected }

/-- The node is new and there is no place for it. -/
def NodesFull (g : GatewayState) (node : String) (data : GatewayData F) : Prop :=
  node ∉ data.uniqueNodes ∧ g.maxNodes ≤ data.uniqueNodeCount

/-- The three ways a push ends. -/
inductive Pushed (platform : Platform F) (g : GatewayState) (readings : Readings) (now : Nat)
    (batch : PushBatch) (data : GatewayData F) : ApplyResult → GatewayData F → Prop
  | nothing (none_valid : (validates platform g batch).2 = []) :
      Pushed platform g readings now batch data
        { accepted := 0, rejected := (validates platform g batch).1 } data
  | full {mid : GatewayData F} (evicted : evictAndRefresh platform g readings data = some mid)
      (full : NodesFull g batch.node mid) :
      Pushed platform g readings now batch data
        { accepted := 0
          rejected := (validates platform g batch).1 ++ (validates platform g batch).2.map
            (fun v => { query := v.query, node := batch.node, refusal := .nodesFull g.maxNodes }) } mid
  | admitted {mid after : GatewayData F}
      (evicted : evictAndRefresh platform g readings data = some mid)
      (place : ¬NodesFull g batch.node mid)
      (refreshed : refreshChangedCaches platform
        (rounds platform g batch.node now (validates platform g batch).1 mid
          (validates platform g batch).2).data
        (rounds platform g batch.node now (validates platform g batch).1 mid
          (validates platform g batch).2).changed = some after) :
      Pushed platform g readings now batch data
        { accepted := (rounds platform g batch.node now (validates platform g batch).1 mid
            (validates platform g batch).2).accepted
          rejected := (rounds platform g batch.node now (validates platform g batch).1 mid
            (validates platform g batch).2).rejected } after

theorem applyBatch_pushed {readings : Readings} {now : Nat} {batch : PushBatch}
    {data after : GatewayData F} {result : ApplyResult}
    (applied : applyBatch platform g readings now batch data = some (result, after)) :
    Pushed platform g readings now batch data result after := by
  unfold applyBatch at applied
  dsimp only at applied
  split at applied
  next none_valid =>
    cases applied
    exact .nothing (List.isEmpty_iff.mp none_valid)
  next =>
    obtain ⟨mid, evicted, applied⟩ := Option.bind_eq_some_iff.mp applied
    unfold admitAll at applied
    split at applied
    next full =>
      cases applied
      exact .full evicted full
    next place =>
      obtain ⟨last, refreshed, result⟩ := Option.bind_eq_some_iff.mp applied
      cases result
      exact .admitted evicted place refreshed

end

end FlowSketch.Source.Gateway
