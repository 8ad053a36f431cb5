import FlowSketch.Source.Gateway.Reports

/-!
# Accounting and admission

The running total of a gateway is the sum over its stored windows, within the byte budget, and its nodes
are within their limit. Every query of a batch is either accepted or rejected, and a rejection leaves the
node's window as the eviction left it.
-/

namespace FlowSketch.Source.Gateway
open Lib Lib.Octets Lib.Word64 Source.Core Source.Runtime

variable {F : Type}

/-! ## Bytes -/

namespace GatewayData

def storedBytes (data : GatewayData F) : Nat :=
  data.nodes.total (fun _ perNode => perNode.total (fun _ window => window.memoryBytes))

theorem storedBytes_put (data : GatewayData F) (query node : String) (window : NodeWindow F) :
    (data.put query node window).storedBytes + data.replacedBytes query node =
      data.storedBytes + window.memoryBytes := by
  have inner := TreeMap.total_insert (fun _ (w : NodeWindow F) => w.memoryBytes)
    ((data.nodes.get query).getD .empty) node window
  have outer := TreeMap.total_insert
    (fun _ (perNode : TreeMap String (NodeWindow F)) => perNode.total (fun _ w => w.memoryBytes))
    data.nodes query (((data.nodes.get query).getD .empty).insert node window)
  show (data.nodes.insert query _).total _ + _ = data.nodes.total _ + _
  rw [replacedBytes, stored]
  cases found : data.nodes.get query with
  | none =>
    rw [found] at inner outer
    simp only [Option.getD_none, Option.elim_none, TreeMap.get_empty, TreeMap.total_empty,
      Option.bind_none] at inner outer ⊢
    omega
  | some perNode =>
    rw [found] at inner outer
    simp only [Option.getD_some, Option.elim_some, Option.bind_some] at inner outer ⊢
    omega

theorem replacedBytes_le (data : GatewayData F) (query node : String) :
    data.replacedBytes query node ≤ data.storedBytes := by
  cases found : data.stored query node with
  | none =>
    rw [replacedBytes, found]
    exact Nat.zero_le _
  | some window =>
    have exchanged := storedBytes_put data query node { window with memoryBytes := 0 }
    rw [Nat.add_zero] at exchanged
    omega

end GatewayData

section

variable [LinearOrder F] {platform : Platform F} {g : GatewayState}

omit [LinearOrder F] in
theorem staleWindows_bytes (readings : Readings) (data : GatewayData F) :
    ((staleWindows g readings data).map NodeWindow.memoryBytes).sum =
      data.nodes.total (fun query perNode =>
        (perNode.filter (isStale g readings query)).total (fun _ window => window.memoryBytes)) := by
  rw [staleWindows, TreeMap.total]
  induction data.nodes.entries with
  | nil => rfl
  | cons entry rest ih =>
    rw [List.flatMap_cons, List.map_append, List.sum_append, ih, List.map_cons, List.sum_cons,
      TreeMap.total, List.map_map]
    rfl

/-- What is dropped and what is kept add up. -/
theorem storedBytes_evict (readings : Readings) (data : GatewayData F) :
    (evict platform g readings data).storedBytes +
      ((staleWindows g readings data).map NodeWindow.memoryBytes).sum = data.storedBytes := by
  let bytes : String → TreeMap String (NodeWindow F) → Nat :=
    fun _ perNode => perNode.total (fun _ window => window.memoryBytes)
  let fresh := data.nodes.mapValues (fun query perNode =>
    perNode.filter (fun node window => !isStale g readings query node window))
  have kept : (evict platform g readings data).storedBytes = fresh.total bytes := by
    have split := TreeMap.total_filter bytes (fun _ perNode => !perNode.isEmpty) fresh
    have nothing : (fresh.filter (fun _ perNode => !!perNode.isEmpty)).total bytes = 0 := by
      refine List.sum_eq_zero fun n member => ?_
      obtain ⟨entry, inside, rfl⟩ := List.mem_map.mp member
      have empty : entry.2.entries = [] := by simpa [TreeMap.isEmpty] using (List.mem_filter.mp inside).2
      show (entry.2.entries.map _).sum = 0
      rw [empty]
      rfl
    exact (Nat.add_zero _).symm.trans ((congrArg _ nothing.symm).trans split)
  rw [kept, staleWindows_bytes, TreeMap.total_mapValues]
  show _ = data.nodes.total bytes
  rw [TreeMap.total, TreeMap.total, TreeMap.total, ← List.sum_map_add]
  refine congrArg List.sum (List.map_congr_left fun entry _ => ?_)
  have split := TreeMap.total_filter (fun _ (window : NodeWindow F) => window.memoryBytes)
    (isStale g readings entry.1) entry.2
  exact (Nat.add_comm _ _).trans split

omit [LinearOrder F] in
/-- Subtractions that fit, one by one. -/
theorem subtract_all (windows : List (NodeWindow F)) {bytes : Nat}
    (fits : (windows.map NodeWindow.memoryBytes).sum ≤ bytes) :
    windows.foldl (fun bytes window => bytes - window.memoryBytes) bytes =
        bytes - (windows.map NodeWindow.memoryBytes).sum ∧
      windows.foldlM (fun bytes window => checkedSub bytes window.memoryBytes) bytes =
        some (bytes - (windows.map NodeWindow.memoryBytes).sum) := by
  induction windows generalizing bytes with
  | nil => exact ⟨rfl, rfl⟩
  | cons window rest ih =>
    rw [List.map_cons, List.sum_cons] at fits ⊢
    obtain ⟨plain, checked⟩ := @ih (bytes - window.memoryBytes) (by omega)
    have step : checkedSub bytes window.memoryBytes = some (bytes - window.memoryBytes) :=
      if_pos (by omega)
    rw [List.foldl_cons, List.foldlM_cons, step, plain]
    exact ⟨by omega, checked.trans (congrArg some (by omega))⟩

/-! ## The invariant -/

/-- The total is the sum over the stored windows, and both limits hold. -/
structure Accounts (g : GatewayState) (data : GatewayData F) : Prop where
  bytes : data.retainedSketchBytes = data.storedBytes
  budget : data.retainedSketchBytes ≤ g.maxRetainedSketchBytes
  nodes : data.uniqueNodeCount ≤ g.maxNodes

omit [LinearOrder F] in
theorem Accounts.empty (g : GatewayState) : Accounts g (GatewayData.empty : GatewayData F) :=
  ⟨rfl, Nat.zero_le _, Nat.zero_le _⟩

omit [LinearOrder F] in
theorem Accounts.same {data data' : GatewayData F} (accounts : Accounts g data)
    (same : SameWindows data data') : Accounts g data' := by
  have sums : data'.storedBytes = data.storedBytes := by
    rw [GatewayData.storedBytes, GatewayData.storedBytes, same.nodes]
  refine ⟨?_, same.retained ▸ accounts.budget, ?_⟩
  · rw [same.retained, sums, accounts.bytes]
  · rw [GatewayData.uniqueNodeCount, same.uniqueNodes]
    exact accounts.nodes

theorem Accounts.stale_le {data : GatewayData F} (accounts : Accounts g data) (platform : Platform F)
    (readings : Readings) :
    ((staleWindows g readings data).map NodeWindow.memoryBytes).sum ≤ data.retainedSketchBytes := by
  have split := @storedBytes_evict F _ platform g readings data
  rw [accounts.bytes]
  omega

theorem Accounts.evict {data : GatewayData F} (accounts : Accounts g data) (readings : Readings) :
    Accounts g (evict platform g readings data) := by
  have split := @storedBytes_evict F _ platform g readings data
  have left : (Gateway.evict platform g readings data).retainedSketchBytes =
      data.retainedSketchBytes - ((staleWindows g readings data).map NodeWindow.memoryBytes).sum :=
    (subtract_all _ (accounts.stale_le platform readings)).1
  have total := accounts.bytes
  refine ⟨?_, ?_, ?_⟩
  · omega
  · exact left ▸ (Nat.sub_le _ _).trans accounts.budget
  · exact (Finset.card_le_card (evict_uniqueNodes readings data)).trans accounts.nodes

omit [LinearOrder F] in
theorem Accounts.replaced_le {data : GatewayData F} (accounts : Accounts g data) (query node : String) :
    data.replacedBytes query node ≤ data.retainedSketchBytes :=
  accounts.bytes ▸ data.replacedBytes_le query node

/-- The same, with room for the node that is pushing. -/
structure Admits (g : GatewayState) (node : String) (data : GatewayData F) : Prop extends
    Accounts g data where
  room : (Insert.insert node data.uniqueNodes).card ≤ g.maxNodes

omit [LinearOrder F] in
/-- A node that is known, or for which there is a place. -/
theorem Accounts.admits {data : GatewayData F} (accounts : Accounts g data) {node : String}
    (place : ¬(node ∉ data.uniqueNodes ∧ g.maxNodes ≤ data.uniqueNodeCount)) : Admits g node data := by
  refine ⟨accounts, ?_⟩
  by_cases known : node ∈ data.uniqueNodes
  · rw [Finset.insert_eq_of_mem known]
    exact accounts.nodes
  · have below : data.uniqueNodeCount < g.maxNodes := Nat.lt_of_not_le fun full => place ⟨known, full⟩
    rw [Finset.card_insert_of_notMem known]
    exact below

omit [LinearOrder F] in
theorem Admits.put {data : GatewayData F} {query node : String} (admits : Admits g node data)
    {window : NodeWindow F} {bytes : Nat}
    (exchanged : bytes + data.replacedBytes query node =
      data.retainedSketchBytes + window.memoryBytes) (within : bytes ≤ g.maxRetainedSketchBytes) :
    Admits g node { data.put query node window with retainedSketchBytes := bytes } := by
  have grown := GatewayData.uniqueNodes_put data query node window
  have sums := GatewayData.storedBytes_put data query node window
  have total := admits.bytes
  refine ⟨⟨?_, within, (Finset.card_le_card grown).trans admits.room⟩, ?_⟩
  · show bytes = (data.put query node window).storedBytes
    omega
  · refine (Finset.card_le_card ?_).trans admits.room
    exact Finset.insert_subset (Finset.mem_insert_self _ _) grown

/-! ## Rounds of an admission -/

variable {node : String} {now : Nat}

theorem projected_eq {retained oldBytes newBytes bytes : Nat}
    (sum : projected retained oldBytes newBytes = some bytes) :
    bytes + oldBytes = retained + newBytes := by
  obtain ⟨rest, taken, added⟩ := Option.bind_eq_some_iff.mp sum
  unfold checkedSub at taken
  unfold checkedAdd at added
  split at taken
  · cases taken
    split at added
    · cases added
      omega
    · cases added
  · cases taken

theorem Admits.admitState {so : Admission F} (admits : Admits g node so.data) (v : Validated F) :
    Admits g node (admitState platform g node now so v).data := by
  rcases @admitState_cases F _ platform g node now so v with ⟨newer, stored, _, step⟩ |
    ⟨_, ⟨refusal, step, _⟩ | ⟨bytes, sum, within, step⟩⟩
  · rw [step]
    refine admits.put ?_ admits.budget
    rw [GatewayData.replacedBytes, stored]
    rfl
  · rw [step]
    exact admits
  · rw [step]
    exact admits.put (projected_eq sum) within

theorem admitStates_admits (list : List (Validated F)) {so : Admission F}
    (admits : Admits g node so.data) :
    Admits g node (list.foldl (Gateway.admitState platform g node now) so).data := by
  induction list generalizing so with
  | nil => exact admits
  | cons v rest ih => exact ih (admits.admitState v)

/-- Each round counts its query once. -/
theorem admitStates_counted (list : List (Validated F)) (so : Admission F) :
    let after := list.foldl (admitState platform g node now) so
    after.accepted + after.rejected.length = so.accepted + so.rejected.length + list.length := by
  induction list generalizing so with
  | nil => rfl
  | cons v rest ih =>
    have later := ih (admitState platform g node now so v)
    have once : (admitState platform g node now so v).accepted +
        (admitState platform g node now so v).rejected.length =
          so.accepted + so.rejected.length + 1 := by
      rcases @admitState_cases F _ platform g node now so v with ⟨_, _, _, step⟩ |
        ⟨_, ⟨refusal, step, _⟩ | ⟨bytes, _, _, step⟩⟩
      · rw [step]
        exact Nat.add_right_comm _ _ _
      · rw [step]
        show so.accepted + (so.rejected ++ [_]).length = _
        rw [List.length_append]
        rfl
      · rw [step]
        exact Nat.add_right_comm _ _ _
    dsimp only at later ⊢
    rw [List.foldl_cons, List.length_cons]
    omega

/-- A query that a round rejects keeps the node's window. -/
theorem admitStates_rejected {list : List (Validated F)} (distinct : (list.map Validated.query).Nodup)
    (so : Admission F) {r : Rejection}
    (rejected : r ∈ (list.foldl (admitState platform g node now) so).rejected) :
    r ∈ so.rejected ∨ r.query ∈ list.map Validated.query ∧
      (list.foldl (admitState platform g node now) so).data.stored r.query node =
        so.data.stored r.query node := by
  induction list generalizing so with
  | nil => exact .inl rejected
  | cons v rest ih =>
    rw [List.map_cons, List.nodup_cons] at distinct
    rw [List.foldl_cons] at rejected ⊢
    have apart : ∀ u ∈ rest, u.query ≠ v.query := fun u member same =>
      distinct.1 (same ▸ List.mem_map_of_mem member)
    rcases ih distinct.2 _ rejected with before | ⟨later, kept⟩
    · rcases @admitState_cases F _ platform g node now so v with ⟨_, _, _, step⟩ |
        ⟨_, ⟨refusal, step, _⟩ | ⟨bytes, _, _, step⟩⟩
      · rw [step] at before
        exact .inl before
      · rw [step] at before ⊢
        rcases List.mem_append.mp before with old | new
        · exact .inl old
        · rw [List.mem_singleton.mp new]
          refine .inr ⟨List.mem_cons_self, ?_⟩
          exact admitStates_stored rest _ fun u member same => apart u member same.1.symm
      · rw [step] at before
        exact .inl before
    · refine .inr ⟨List.mem_cons_of_mem _ later, kept.trans (admitState_stored so v ?_)⟩
      rintro ⟨same, _⟩
      exact distinct.1 (same ▸ later)

/-! ## Pushes and runs -/

variable {batch : PushBatch} {readings : Readings} {data after : GatewayData F} {result : ApplyResult}

theorem Accounts.evicted {mid : GatewayData F} (accounts : Accounts g data)
    (evicted : evictAndRefresh platform g readings data = some mid) : Accounts g mid :=
  (accounts.evict readings).same (evictAndRefresh_windows evicted)

theorem Accounts.rounds {mid : GatewayData F} (accounts : Accounts g mid)
    (place : ¬NodesFull g node mid) (rejected : List Rejection) (list : List (Validated F)) :
    Accounts g (rounds platform g node now rejected mid list).data :=
  (admitStates_admits list (accounts.admits place)).toAccounts

theorem Accounts.push (accounts : Accounts g data)
    (pushed : Pushed platform g readings now batch data result after) : Accounts g after := by
  cases pushed with
  | nothing => exact accounts
  | full evicted => exact accounts.evicted evicted
  | admitted evicted place refreshed =>
    exact ((accounts.evicted evicted).rounds place _ _).same (refreshChangedCaches_windows refreshed)

theorem Accounts.call {request : Call} (accounts : Accounts g data)
    (done : call platform g data request = some after) : Accounts g after := by
  rcases report_windows done with ⟨batch, readings, now, rfl⟩ | ⟨readings, same⟩
  · obtain ⟨⟨result, _⟩, applied, rfl⟩ := Option.map_eq_some_iff.mp done
    exact accounts.push (applyBatch_pushed applied)
  · exact (accounts.evict readings).same same

/-- Every query of the batch is accepted or rejected. -/
theorem pushed_counted (pushed : Pushed platform g readings now batch data result after) :
    result.accepted + result.rejected.length = (queryNames batch).card := by
  obtain ⟨lengths, _⟩ := @validates_keys F _ platform g batch
  cases pushed with
  | nothing none_valid =>
    rw [none_valid, List.length_nil, Nat.add_zero] at lengths
    exact (Nat.zero_add _).trans lengths
  | full =>
    rw [List.length_append, List.length_map]
    exact (Nat.zero_add _).trans lengths
  | admitted =>
    have counted := @admitStates_counted F _ platform g batch.node now (validates platform g batch).2
    refine (counted _).trans ?_
    rw [Nat.zero_add]
    exact lengths

/-- Windows that a push does not replace. -/
theorem pushed_frame (pushed : Pushed platform g readings now batch data result after) :
    ∃ base, (base = data ∨ base = evict platform g readings data) ∧
      (∀ r ∈ result.rejected, after.stored r.query batch.node = base.stored r.query batch.node) ∧
      ∀ query node, node ≠ batch.node ∨ query ∉ queryNames batch →
        after.stored query node = base.stored query node := by
  obtain ⟨_, distinct, apart, named⟩ := @validates_keys F _ platform g batch
  cases pushed with
  | nothing => exact ⟨data, .inl rfl, fun _ _ => rfl, fun _ _ _ => rfl⟩
  | full evicted =>
    have same := evictAndRefresh_windows evicted
    exact ⟨_, .inr rfl, fun r _ => same.stored _ _, fun query node _ => same.stored query node⟩
  | @admitted mid _ evicted place refreshed =>
    have same := evictAndRefresh_windows evicted
    have last := refreshChangedCaches_windows refreshed
    refine ⟨_, .inr rfl, fun r rejected => ?_, fun query node other => ?_⟩
    · rw [last.stored, ← same.stored]
      rcases admitStates_rejected distinct _ rejected with before | ⟨_, kept⟩
      · exact admitStates_stored _ _ fun v valid together => apart r before v valid together.1
      · exact kept
    · rw [last.stored, ← same.stored]
      refine admitStates_stored _ _ fun v valid together => ?_
      rcases other with foreign | absent
      · exact foreign together.2
      · exact absent (together.1 ▸ named v valid)

/-- After every run the total is the sum of the stored bytes within the budget, the nodes are within
their limit, and no subtraction of a next call fails or saturates. A push accepts or rejects each of its
queries; what it rejects, other nodes and other queries keep what the eviction leaves. -/
theorem accounting_holds (platform : Platform F) (g : GatewayState) {calls : List Call}
    {data : GatewayData F} (ran : run platform g calls = some data) :
    Accounts g data ∧
    (∀ readings, (staleWindows g readings data).foldlM
      (fun bytes window => checkedSub bytes window.memoryBytes) data.retainedSketchBytes =
        some (evict platform g readings data).retainedSketchBytes) ∧
    ∀ batch readings now result after,
      applyBatch platform g readings now batch data = some (result, after) →
      (∀ mid before v rest, evictAndRefresh platform g readings data = some mid →
        ¬NodesFull g batch.node mid → (validates platform g batch).2 = before ++ v :: rest →
        let so := rounds platform g batch.node now (validates platform g batch).1 mid before
        ∃ bytes, checkedSub so.data.retainedSketchBytes (so.data.replacedBytes v.query batch.node) =
          some bytes) ∧
      result.accepted + result.rejected.length = (queryNames batch).card ∧
      ∃ base, (base = data ∨ base = evict platform g readings data) ∧
        (∀ r ∈ result.rejected, after.stored r.query batch.node = base.stored r.query batch.node) ∧
        ∀ query node, node ≠ batch.node ∨ query ∉ queryNames batch →
          after.stored query node = base.stored query node := by
  have accounts : Accounts g data :=
    run_induction (Accounts.empty g) (fun _ _ _ accounts done => accounts.call done) ran
  refine ⟨accounts, fun readings => ?_, fun batch readings now result after applied => ?_⟩
  · obtain ⟨plain, checked⟩ := subtract_all _ (accounts.stale_le platform readings)
    exact checked.trans (congrArg some plain.symm)
  · have pushed := applyBatch_pushed applied
    refine ⟨fun mid before v rest evicted place _ => ?_, pushed_counted pushed, pushed_frame pushed⟩
    have within := (@Accounts.rounds F _ platform g batch.node now mid (accounts.evicted evicted) place
      (validates platform g batch).1 before).replaced_le v.query batch.node
    exact ⟨_, if_pos within⟩

end

theorem accounting_small : ∃ data, run smallPlatform smallGateway
      [.applyBatch smallPush (fun _ _ => 0) 0, .nodesJson (fun _ _ => 1) (fun _ _ => 2)] = some data ∧
    Accounts smallGateway data := by
  obtain ⟨data, ran, _⟩ := @run_total Nat _ smallPlatform smallGateway
    [.applyBatch smallPush (fun _ _ => 0) 0, .nodesJson (fun _ _ => 1) (fun _ _ => 2)]
    fun batch _ _ _ => smallGateway_separated batch
  exact ⟨data, ran, (accounting_holds smallPlatform smallGateway ran).1⟩

end FlowSketch.Source.Gateway
