import FlowSketch.Lib.AssocMap
import FlowSketch.Source.Core.Wire
import FlowSketch.Source.SpaceSaving.Machine

/-!
# Snapshots of SpaceSaving summaries

Slots are written in the order of their keys, so a snapshot shows the abstract summary and nothing of
the arena. The decoder refuses entries whose error exceeds their count; as long as no count wraps,
there are none.
-/

namespace FlowSketch.Lib.CounterSummary.Summary

variable {κ δ : Type} [LinearOrder κ] [LinearOrder δ]

/-- Errors stay within their counts, and counts below `bound`. -/
def Within (bound : Nat) (s : Summary κ) : Prop :=
  ∀ k e, s.entry k = some e → e.error ≤ e.count ∧ e.count < bound

theorem Within.insert {bound : Nat} {s : Summary κ} (within : s.Within bound) (k : κ) {e : Entry}
    (new : e.error ≤ e.count ∧ e.count < bound) : (s.insert k e).Within bound := by
  intro other entry found
  rw [insert_entry] at found
  split at found
  · cases found
    exact new
  · exact within other entry found

theorem Within.erase {bound : Nat} {s : Summary κ} (within : s.Within bound) (k : κ) :
    (s.erase k).Within bound := by
  intro other entry found
  rw [erase_entry] at found
  split at found
  · cases found
  · exact within other entry found

theorem Within.add {bound capacity weight : Nat} {digest : κ → δ} {s : Summary κ}
    (within : s.Within bound) (k : κ) (small : weight < bound)
    (fits : match s.entry k with
      | some e => e.count + weight < bound
      | none => s.keys.card < capacity ∨ s.minCount + weight < bound) :
    (s.add capacity digest k weight).Within bound := by
  unfold Summary.add
  cases tracked : s.entry k with
  | some e =>
    simp only [tracked] at fits
    exact within.insert k ⟨(within k e tracked).1.trans (Nat.le_add_right _ _), fits⟩
  | none =>
    simp only [tracked] at fits
    simp only
    split
    next full =>
      exact (within.erase _).insert k
        ⟨Nat.le_add_right _ _, fits.resolve_left (Nat.not_lt.mpr full.1)⟩
    · exact within.insert k ⟨Nat.zero_le _, small⟩

omit [LinearOrder κ] in
theorem Within.charged {bound capacity : Nat} {s : Summary κ} (within : s.Within bound) (k : κ) :
    (s.charged capacity k).error ≤ (s.charged capacity k).count := by
  unfold Summary.charged
  cases tracked : s.entry k with
  | some e => exact (within k e tracked).1
  | none => exact le_refl (s.floor capacity)

theorem Within.merge {bound capacityA capacityB : Nat} {a b : Summary κ} (left : a.Within bound)
    (right : b.Within bound)
    (fits : ∀ k, k ∈ a.keys ∨ k ∈ b.keys →
      (a.charged capacityA k).count + (b.charged capacityB k).count < bound) :
    (Summary.merge capacityA capacityB a b).Within bound := by
  intro k e found
  unfold Summary.merge Summary.trim Summary.union at found
  simp only at found
  split at found
  · split at found
    next member =>
      cases found
      exact ⟨Nat.add_le_add (left.charged k) (right.charged k), fits k (Finset.mem_union.mp member)⟩
    · cases found
  · cases found

end FlowSketch.Lib.CounterSummary.Summary

namespace FlowSketch.Source.SpaceSaving
open Lib.Octets Lib.Word64 Lib.BinaryHeap Lib.CounterSummary Lib.AssocMap Source.Core

/-- Keys with their entries, in slot order. -/
def pairs (s : SpaceSaving) : List (Bytes × Entry) := s.slots.map (fun slot => (slot.key, slot.entry))

/-- The slots as `to_snapshot` lists them, by key. -/
def sorted (s : SpaceSaving) : List (Bytes × Entry) :=
  s.pairs.mergeSort (fun left right => left.1 ≤ right.1)

def writeEntry (item : Bytes × Entry) : Bytes :=
  Reader.writeLpBytes item.1 ++ leBytes 8 item.2.count ++ leBytes 8 item.2.error

def payload (s : SpaceSaving) : Bytes :=
  leBytes 8 s.totalWeight ++ leBytes 8 s.updates ++ leBytes 4 s.slots.length ++
    s.sorted.flatMap writeEntry

def toSnapshot (hashing : Hashing) (s : SpaceSaving) (windowStart windowEnd : Nat) : Bytes :=
  writeSnapshot hashing
    { version := snapshotVersion, algorithmId := algorithmId.spaceSaving, hash := s.hash,
      windowStartNanos := windowStart, windowEndNanos := windowEnd }
    (leBytes 8 s.capacity) s.payload

/-! ## What runs without overflow keep -/

/-- A weighted update, a merge or a reset. -/
def Op.Update : Op → Prop
  | .add _ weight => weight < modulus
  | .addKeyBuf _ weight => weight < modulus
  | .mergeFrom _ => True
  | .fromSnapshot _ => False
  | .reset => True

/-- Summaries reached by updates and merges that overflow no count. -/
abbrev Updated (hashing : Hashing) : SpaceSaving → Prop :=
  Reachable hashing (fun s op => op.Update ∧ op.Fits hashing s)

theorem Updated.fitting {hashing : Hashing} {s : SpaceSaving} (run : Updated hashing s) :
    Fitting hashing s := by
  induction run with
  | new created => exact .new created
  | step _ _ admitted result before argument => exact .step before argument admitted.2 result

structure Bounded (s : SpaceSaving) : Prop where
  entries : s.abs.Within modulus
  totalWeight : s.totalWeight < modulus
  updates : s.updates < modulus

theorem Bounded.step {hashing : Hashing} {s t : SpaceSaving} {op : Op} (bounded : Bounded s)
    (wf : Wf hashing s) (ordered : HeapOrdered s) (update : op.Update) (fits : op.Fits hashing s)
    (argument : ∀ other, op = .mergeFrom other →
      Bounded other ∧ Wf hashing other ∧ HeapOrdered other)
    (result : op.run hashing s = some (.ok t)) : Bounded t := by
  have added : ∀ key weight, weight < modulus → AddFits hashing s key weight →
      AddStep hashing s key weight t → Bounded t := by
    intro key weight small fits step
    refine ⟨?_, ?_, ?_⟩
    · rw [(step.refines ordered fits).2]
      rw [addFits_iff wf ordered] at fits
      exact bounded.entries.add key small fits
    · rw [step.totalWeight]
      exact wrappingAdd_lt _ _
    · rw [step.updates]
      exact wrappingAdd_lt _ _
  cases op with
  | add key weight => exact added key weight update fits (addStep_of_run wf (Or.inl rfl) result)
  | addKeyBuf key weight =>
    exact added key weight update fits (addStep_of_run wf (Or.inr rfl) result)
  | mergeFrom other =>
    obtain ⟨boundedOther, wfOther, orderedOther⟩ := argument other rfl
    have step := (mergeFrom_inv wf wfOther (Option.some.inj result)).2
    refine ⟨?_, ?_, ?_⟩
    · rw [step.refines ordered orderedOther fits]
      have room : MergeFits hashing s other := fits
      rw [mergeFits_iff wf ordered wfOther orderedOther] at room
      exact bounded.entries.merge boundedOther.entries (fun key member => (room key member).1)
    · rw [step.totalWeight]
      exact wrappingAdd_lt _ _
    · rw [step.updates]
      exact wrappingAdd_lt _ _
  | fromSnapshot bytes => exact update.elim
  | reset =>
    cases result
    exact ⟨fun key e found => (by cases found), modulus_pos, modulus_pos⟩

theorem Updated.bounded {hashing : Hashing} {s : SpaceSaving} (run : Updated hashing s) :
    Bounded s := by
  induction run with
  | new created =>
    obtain ⟨_, rfl⟩ := new_ok created
    exact ⟨fun key e found => (by cases found), modulus_pos, modulus_pos⟩
  | step before argument admitted result bounded boundedArgument =>
    have fitting := Updated.fitting before
    refine bounded.step fitting.wf fitting.ordered admitted.1 admitted.2 (fun other same => ?_) result
    have fittingOther := Updated.fitting (argument other same)
    exact ⟨boundedArgument other same, fittingOther.wf, fittingOther.ordered⟩

/-! ## Entries by key -/

theorem keys_pairs (s : SpaceSaving) : keys s.pairs = s.contents.map Content.key := by
  simp [keys, pairs, contents, Function.comp_def, Slot.content]

theorem abs_entry {hashing : Hashing} {s : SpaceSaving} (wf : Wf hashing s) (key : Bytes) :
    s.abs.entry key = s.pairs.lookup key := by
  have distinct : (keys s.pairs).Nodup := s.keys_pairs ▸ wf.indexed.distinct
  refine Option.ext fun e => ?_
  rw [lookup_eq_some_iff distinct, abs, summaryOf_entry_iff wf.indexed.distinct]
  simp only [contents, pairs, List.mem_map, Prod.mk.injEq]
  constructor
  · rintro ⟨_, ⟨slot, member, rfl⟩, rfl, rfl⟩
    exact ⟨slot, member, rfl, rfl⟩
  · rintro ⟨slot, member, rfl, rfl⟩
    exact ⟨_, ⟨slot, member, rfl⟩, rfl, rfl⟩

theorem sorted_perm (s : SpaceSaving) : s.sorted.Perm s.pairs := List.mergeSort_perm _ _

theorem pairs_length (s : SpaceSaving) : s.pairs.length = s.slots.length := List.length_map _

/-- Equal parameters, abstract summaries and totals; the layout may differ. -/
structure Same (s t : SpaceSaving) : Prop where
  view : SameView s t
  totalWeight : t.totalWeight = s.totalWeight
  updates : t.updates = s.updates

theorem toSnapshot_of_same {hashing : Hashing} {s t : SpaceSaving} (wf : Wf hashing s)
    (wfT : Wf hashing t) (same : Same s t) (windowStart windowEnd : Nat) :
    t.toSnapshot hashing windowStart windowEnd = s.toSnapshot hashing windowStart windowEnd := by
  have distinct : (keys s.pairs).Nodup := s.keys_pairs ▸ wf.indexed.distinct
  have distinctT : (keys t.pairs).Nodup := t.keys_pairs ▸ wfT.indexed.distinct
  have perm : s.pairs.Perm t.pairs := perm_of_lookup distinct distinctT fun key => by
    rw [← abs_entry wf, ← abs_entry wfT, same.view.abs]
  have listed : t.sorted = s.sorted := (sort_by_key_perm perm distinct).symm
  have lengths : t.slots.length = s.slots.length := by
    rw [← pairs_length, ← pairs_length, perm.length_eq]
  rw [toSnapshot, toSnapshot, payload, payload, listed, lengths, same.totalWeight, same.updates,
    same.view.capacity, same.view.hash]

/-! ## Decoding -/

/-- The capacity is a `usize`, and the payload fits the 32 bits its length is written with. -/
structure Sized (s : SpaceSaving) : Prop where
  capacity : s.capacity < modulus
  payload : s.payload.length < 2 ^ 32

theorem flatMap_writeEntry_length (items : List (Bytes × Entry)) :
    items.length * 20 ≤ (items.flatMap writeEntry).length ∧
      ∀ item ∈ items, item.1.length ≤ (items.flatMap writeEntry).length := by
  induction items with
  | nil => simp
  | cons item rest ih =>
    rw [List.flatMap_cons, List.length_append, writeEntry, Reader.writeLpBytes,
      List.length_append, List.length_append, List.length_append, leBytes_length, leBytes_length,
      leBytes_length, List.length_cons, List.forall_mem_cons]
    refine ⟨by omega, by omega, fun other member => ?_⟩
    have bound := ih.2 other member
    omega

theorem readEntries_items {hashing : Hashing} {items : List (Bytes × Entry)}
    (short : ∀ item ∈ items, item.1.length < 2 ^ 32)
    (words : ∀ item ∈ items, item.2.error ≤ item.2.count ∧ item.2.count < modulus)
    {s : SpaceSaving} (wf : Wf hashing s) (distinct : (keys items).Nodup)
    (absent : ∀ c ∈ s.contents, c.key ∉ keys items)
    (room : s.slots.length + items.length ≤ s.capacity) (rest : Bytes) :
    readEntries hashing items.length s (items.flatMap writeEntry ++ rest) =
      .ok (s.insertAll hashing items, rest) := by
  induction items generalizing s with
  | nil => rfl
  | cons item items ih =>
    obtain ⟨key, entry⟩ := item
    rw [List.forall_mem_cons] at short words
    rw [keys, List.map_cons, List.nodup_cons] at distinct
    rw [List.length_cons] at room
    have fields : ((key, entry) :: items).flatMap writeEntry ++ rest =
        Reader.writeLpBytes key ++ (leBytes 8 entry.count ++ (leBytes 8 entry.error ++
          (items.flatMap writeEntry ++ rest))) := by
      simp only [List.flatMap_cons, writeEntry, List.append_assoc]
    have unseen : s.findSlot hashing key = none :=
      (wf.indexed.find_none_iff key).mpr fun c member same =>
        absent c member (by simp [same])
    have written := insertEntry_hash hashing wf unseen (by omega) entry
    have length : (s.insertEntry hashing key entry.count entry.error).slots.length =
        s.slots.length + 1 := by
      rw [← contents_length, written.contents]
      simp
    have later := ih short.2 words.2 written.wf distinct.2
      (by
        rw [written.contents]
        intro c member listed
        rcases List.mem_append.mp member with old | new
        · exact absent c old (List.mem_cons_of_mem _ listed)
        · rw [List.mem_singleton.mp new] at listed
          exact distinct.1 listed)
      (by rw [length, written.capacity]; omega)
    have errorWord : entry.error < modulus := words.1.1.trans_lt words.1.2
    rw [fields]
    refine (Read.bind_run (Reader.lpBytes_writeLpBytes short.1 _)).trans ?_
    refine (Read.bind_run (Reader.u64_leBytes words.1.2 _)).trans ?_
    refine (Read.bind_run (Reader.u64_leBytes errorWord _)).trans ?_
    refine (Read.guard_run (Nat.not_lt.mpr words.1.1) _).trans ?_
    refine (Read.guard_run ?_ _).trans ?_
    · show ¬(s.findSlot hashing key).isSome = true
      rw [unseen]
      simp
    · exact later

theorem readPayload_payload {hashing : Hashing} {s : SpaceSaving} (wf : Wf hashing s)
    (bounded : Bounded s) (sized : Sized s) :
    readPayload hashing s.hash s.capacity s.payload =
      .ok ((fresh s.capacity s.hash s.totalWeight s.updates).insertAll hashing s.sorted, []) := by
  have fields : s.payload = leBytes 8 s.totalWeight ++ (leBytes 8 s.updates ++
      (leBytes 4 s.slots.length ++ (s.sorted.flatMap writeEntry ++ []))) := by
    simp only [payload, List.append_assoc, List.append_nil]
  obtain ⟨count, each⟩ := flatMap_writeEntry_length s.sorted
  have perm := s.sorted_perm
  have inside : (s.sorted.flatMap writeEntry).length < 2 ^ 32 := by
    have whole := sized.payload
    rw [fields] at whole
    simp only [List.length_append, leBytes_length, List.length_nil] at whole
    omega
  have distinct : (keys s.pairs).Nodup := s.keys_pairs ▸ wf.indexed.distinct
  have length : s.sorted.length = s.slots.length := perm.length_eq.trans s.pairs_length
  have size : s.slots.length ≤ s.capacity := by
    rw [← contents_length]
    exact wf.indexed.size
  have empty : Wf hashing (fresh s.capacity s.hash s.totalWeight s.updates) :=
    Wf.clear (s := fresh s.capacity s.hash s.totalWeight s.updates) wf.indexed.positive
  have entries := readEntries_items
    (fun item member => by have bound := each item member; omega)
    (fun item member => bounded.entries item.1 item.2 (by
      rw [abs_entry wf, lookup_eq_some_iff distinct]
      exact perm.mem_iff.mp member))
    empty ((perm.map Prod.fst).nodup_iff.mpr distinct) (by simp [fresh, contents])
    (by simp only [fresh, List.length_nil, Nat.zero_add, length]; exact size) []
  rw [length] at count entries
  have created : SpaceSaving.new s.capacity s.hash = .ok (fresh s.capacity s.hash 0 0) := by
    rw [SpaceSaving.new, if_neg wf.indexed.positive.ne']
    rfl
  rw [fields]
  refine (Read.bind_run (Reader.u64_leBytes bounded.totalWeight _)).trans ?_
  refine (Read.bind_run (Reader.u64_leBytes bounded.updates _)).trans ?_
  refine (Read.bind_run (Reader.u32_leBytes (by omega) _)).trans ?_
  refine (Read.guard_run (Nat.not_lt.mpr size) _).trans ?_
  refine (Read.bind_run (Reader.checkCount_run (by decide) ?_)).trans ?_
  · rw [List.append_nil]
    exact count
  refine (Read.bind_run (Read.lift_run created _)).trans ?_
  exact entries

def codec (hashing : Hashing) : Codec SpaceSaving where
  algorithmId := algorithmId.spaceSaving
  hash := SpaceSaving.hash
  toSnapshot := toSnapshot hashing
  fromSnapshot := fromSnapshot hashing
  same := Same

theorem fromSnapshot_toSnapshot {hashing : Hashing} {s : SpaceSaving} (wf : Wf hashing s)
    (bounded : Bounded s) (sized : Sized s) {windowStart windowEnd : Nat}
    (start : windowStart < modulus) (stop : windowEnd < modulus) :
    ∃ t, fromSnapshot hashing (s.toSnapshot hashing windowStart windowEnd) = .ok t ∧ Same s t ∧
      Wf hashing t ∧ HeapOrdered t := by
  have envelope := read_sketch hashing (by decide : algorithmId.spaceSaving < 2 ^ 16) s.hash start
    stop (by simp : (leBytes 8 s.capacity).length < 2 ^ 32) sized.payload
  have params := Reader.u64_leBytes sized.capacity []
  rw [List.append_nil] at params
  have empty : Wf hashing (fresh s.capacity s.hash s.totalWeight s.updates) :=
    Wf.clear (s := fresh s.capacity s.hash s.totalWeight s.updates) wf.indexed.positive
  have perm := s.sorted_perm
  have distinct : (keys s.pairs).Nodup := s.keys_pairs ▸ wf.indexed.distinct
  have distinctSorted : (keys s.sorted).Nodup := (perm.map Prod.fst).nodup_iff.mpr distinct
  have length : s.sorted.length = s.slots.length := perm.length_eq.trans s.pairs_length
  obtain ⟨written, order⟩ := insertAll_spec s.sorted empty distinctSorted
    (by simp [fresh, contents])
    (by
      simp only [fresh, List.length_nil, Nat.zero_add, length]
      rw [← contents_length]
      exact wf.indexed.size)
  refine ⟨_, ?_, ⟨⟨written.capacity.symm, written.hash.symm, ?_⟩, written.totalWeight,
    written.updates⟩, written.wf, order (clear_heapOrdered (fresh _ _ _ _))⟩
  · unfold fromSnapshot toSnapshot
    simp only [envelope, params, readPayload_payload wf bounded sized, bind, Except.bind, ne_eq,
      not_true_eq_false, if_false, wf.indexed.positive.ne']
    rfl
  · refine Summary.ext fun key => ?_
    have listed : ((fresh s.capacity s.hash s.totalWeight s.updates).insertAll hashing
        s.sorted).pairs = s.sorted := by
      have contents := congrArg (List.map (fun c : Content => (c.key, c.entry))) written.contents
      simpa [SpaceSaving.contents, fresh, Function.comp_def, Slot.content, contentOf, pairs]
        using contents
    rw [abs_entry wf, abs_entry written.wf, listed]
    exact lookup_perm perm.symm distinct key

theorem roundTrips {hashing : Hashing} {s : SpaceSaving} (wf : Wf hashing s) (bounded : Bounded s)
    (sized : Sized s) {windowStart windowEnd : Nat} (start : windowStart < modulus)
    (stop : windowEnd < modulus) :
    (codec hashing).RoundTrips hashing (Wf hashing) s windowStart windowEnd := by
  obtain ⟨t, decoded, same, wfT, _⟩ := fromSnapshot_toSnapshot wf bounded sized start stop
  exact ⟨⟨t, decoded, same, toSnapshot_of_same wf wfT same _ _⟩,
    fun t valid same => toSnapshot_of_same wf valid same _ _,
    ⟨_, _, read_sketch hashing (by decide) s.hash start stop (by simp) sized.payload⟩⟩

end FlowSketch.Source.SpaceSaving
