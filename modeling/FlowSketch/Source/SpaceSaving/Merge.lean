import Mathlib
import FlowSketch.Source.SpaceSaving.Refinement

/-!
# Merging

`merge_from` lists every tracked key of both sides once with its joint entry, sorts the list, keeps a
prefix and rebuilds the three structures from it. The rebuilt heap is ordered whatever came in, and
the rebuilt summary is the textbook merge when the joint counts stay within a word.
-/

namespace FlowSketch.Source.SpaceSaving
open Lib.Octets Lib.Word64 Lib.BinaryHeap Lib.CounterSummary Lib.Ranking Source.Core

/-! ## Rebuilding from a list of entries -/

def contentOf (hashing : Hashing) (s : SpaceSaving) (item : Bytes × Entry) : Content :=
  { key := item.1, digest := s.keyDigest hashing item.1, entry := item.2 }

def insertAll (hashing : Hashing) (s : SpaceSaving) (items : List (Bytes × Entry)) : SpaceSaving :=
  items.foldl (fun s (key, entry) => s.insertEntry hashing key entry.count entry.error) s

theorem insertAll_spec {hashing : Hashing} (items : List (Bytes × Entry)) {s : SpaceSaving}
    (wf : Wf hashing s) (distinct : (items.map Prod.fst).Nodup)
    (fresh : ∀ c ∈ s.contents, c.key ∉ items.map Prod.fst)
    (room : s.slots.length + items.length ≤ s.capacity) :
    Written hashing s (s.insertAll hashing items)
        (s.contents ++ items.map (s.contentOf hashing)) ∧
      (HeapOrdered s → HeapOrdered (s.insertAll hashing items)) := by
  induction items generalizing s with
  | nil => exact ⟨⟨wf, by simp [insertAll], rfl, rfl, rfl, rfl⟩, id⟩
  | cons item rest ih =>
    rw [List.map_cons, List.nodup_cons] at distinct
    rw [List.length_cons] at room
    have absent : ∀ d ∈ s.contents, d.key ≠ item.1 := by
      intro d member same
      exact fresh d member (by simp [same])
    obtain ⟨written, order⟩ :=
      insertEntry_spec wf (c := s.contentOf hashing item) rfl absent (by omega)
    -- the state after the first insertion, from which the rest follows
    let t := s.insertEntry hashing item.1 item.2.count item.2.error
    have contents : t.contents = s.contents ++ [s.contentOf hashing item] := written.contents
    have capacity : t.capacity = s.capacity := written.capacity
    have same : t.contentOf hashing = s.contentOf hashing := by
      funext other
      unfold contentOf keyDigest
      rw [show t.hash = s.hash from written.hash]
    have length : t.slots.length = s.slots.length + 1 := by
      rw [← contents_length, contents]
      simp
    obtain ⟨later, laterOrder⟩ := ih (s := t) written.wf distinct.2 (by
        rw [contents]
        intro c member
        rcases List.mem_append.mp member with old | new
        · exact fun inside => fresh c old (by simp only [List.map_cons, List.mem_cons]; exact Or.inr inside)
        · obtain rfl := List.mem_singleton.mp new
          exact distinct.1) (by omega)
    refine ⟨⟨later.wf, ?_, later.capacity.trans capacity, later.hash.trans written.hash,
      later.totalWeight.trans written.totalWeight, later.updates.trans written.updates⟩,
      fun ordered => laterOrder (order ordered)⟩
    have whole := later.contents
    rw [contents, same] at whole
    exact whole.trans (by simp)

theorem Wf.clear {hashing : Hashing} {s : SpaceSaving} (positive : 0 < s.capacity) :
    Wf hashing s.clear := by
  refine ⟨⟨⟨?_, ?_⟩, ?_, ?_, ?_, positive⟩, ⟨rfl, ?_, ?_⟩⟩
  · intro digest
    exact List.nodup_nil
  · intro digest i
    simp [SpaceSaving.clear, members, contents]
  all_goals simp [SpaceSaving.clear, contents]

theorem clear_heapOrdered (s : SpaceSaving) : HeapOrdered s.clear := by
  intro i _ inside
  exact absurd inside (Nat.not_lt_zero i)

/-! ## The joint entries -/

theorem get_eq_entry {hashing : Hashing} {s : SpaceSaving} (inv : Indexed hashing s) (key : Bytes) :
    s.get hashing key = s.abs.entry key := by
  unfold get
  cases found : s.findSlot hashing key with
  | none =>
    rw [Option.map_none, abs, summaryOf_missing ((inv.find_none_iff key).mp found)]
  | some i =>
    obtain ⟨c, atI, rfl⟩ := (inv.find_iff key i).mp found
    rw [Option.map_some, abs, summaryOf_entry inv.distinct (List.mem_of_getElem? atI),
      ← (slotAt_content atI).2]
    rfl

/-- The entry of `key`, or what a merge charges for it. -/
def charge (hashing : Hashing) (s : SpaceSaving) (key : Bytes) : Entry :=
  (s.get hashing key).getD { count := s.missingCharge, error := s.missingCharge }

def joint (hashing : Hashing) (self other : SpaceSaving) (key : Bytes) : Entry :=
  { count := wrappingAdd (charge hashing self key).count (charge hashing other key).count
    error := wrappingAdd (charge hashing self key).error (charge hashing other key).error }

/-- The keys of both sides, in the order the two passes visit them. -/
def mergedKeys (hashing : Hashing) (self other : SpaceSaving) : List Bytes :=
  self.slots.map Slot.key ++
    (other.slots.map Slot.key).filter (fun key => (self.get hashing key).isNone)

theorem charge_of_slot {hashing : Hashing} {s : SpaceSaving} (inv : Indexed hashing s) {slot : Slot}
    (member : slot ∈ s.slots) : charge hashing s slot.key = slot.entry := by
  have listed : slot.content ∈ s.contents := List.mem_map_of_mem member
  rw [charge, get_eq_entry inv]
  exact congrArg (fun e => Option.getD e _) (summaryOf_entry inv.distinct listed)

theorem mergedEntries_eq {hashing : Hashing} {self other : SpaceSaving}
    (left : Indexed hashing self) (right : Indexed hashing other) :
    mergedEntries hashing self other =
      (mergedKeys hashing self other).map (fun key => (key, joint hashing self other key)) := by
  unfold mergedEntries mergedKeys
  dsimp only
  rw [List.map_append, List.map_map, List.filter_map, List.map_map]
  congr 1
  · refine List.map_congr_left (fun slot member => ?_)
    have mine := charge_of_slot left member
    simp only [Function.comp_apply, joint, mine]
    unfold charge
    cases other.get hashing slot.key <;> rfl
  · refine List.map_congr_left (fun slot member => ?_)
    obtain ⟨listed, absent⟩ := List.mem_filter.mp member
    have theirs := charge_of_slot right listed
    have missing : self.get hashing slot.key = none := Option.isNone_iff_eq_none.mp absent
    simp only [Function.comp_apply, joint, theirs]
    simp [charge, missing, wrappingAdd, Nat.add_comm]

theorem mergedKeys_nodup {hashing : Hashing} {self other : SpaceSaving}
    (left : Indexed hashing self) (right : Indexed hashing other) :
    (mergedKeys hashing self other).Nodup := by
  have keysLeft : (self.slots.map Slot.key).Nodup := by
    simpa [contents, List.map_map, Function.comp_def, Slot.content] using left.distinct
  have keysRight : (other.slots.map Slot.key).Nodup := by
    simpa [contents, List.map_map, Function.comp_def, Slot.content] using right.distinct
  refine List.nodup_append.mpr ⟨keysLeft, keysRight.filter _, ?_⟩
  rintro key member _ listed rfl
  obtain ⟨slot, inside, rfl⟩ := List.mem_map.mp member
  have absent := (List.mem_filter.mp listed).2
  have present : self.get hashing slot.key = some slot.entry := by
    rw [get_eq_entry left]
    exact summaryOf_entry left.distinct (c := slot.content) (List.mem_map_of_mem inside)
  simp [present] at absent

theorem mem_mergedKeys {hashing : Hashing} {self other : SpaceSaving}
    (left : Indexed hashing self) (key : Bytes) :
    key ∈ mergedKeys hashing self other ↔ key ∈ self.abs.keys ∨ key ∈ other.abs.keys := by
  have keysOf : ∀ s : SpaceSaving, key ∈ s.slots.map Slot.key ↔ key ∈ s.abs.keys := by
    intro s
    simp [abs, summaryOf, contents, Slot.content]
  rw [mergedKeys, List.mem_append, List.mem_filter, keysOf, keysOf, get_eq_entry left,
    Option.isNone_iff_eq_none]
  constructor
  · rintro (mine | ⟨theirs, _⟩)
    · exact Or.inl mine
    · exact Or.inr theirs
  · rintro (mine | theirs)
    · exact Or.inl mine
    · by_cases here : key ∈ self.abs.keys
      · exact Or.inl here
      · exact Or.inr ⟨theirs, Summary.entry_of_not_mem here⟩

/-! ## Sorting and trimming -/

theorem retainBefore_iff (a b : Bytes × Entry) :
    retainBefore a b = true ↔
      toLex (OrderDual.toDual a.2.count, a.1) ≤ toLex (OrderDual.toDual b.2.count, b.1) := by
  rw [Prod.Lex.toLex_le_toLex]
  simp only [retainBefore, decide_eq_true_eq, OrderDual.toDual_lt_toDual, OrderDual.toDual_inj]
  exact or_congr_right (and_congr_left' eq_comm)

/-- The entries a merge keeps, in the order it inserts them. -/
def retained (hashing : Hashing) (self other : SpaceSaving) : List (Bytes × Entry) :=
  ((mergedEntries hashing self other).mergeSort retainBefore).take self.capacity

theorem sortedEntries_spec {hashing : Hashing} {self other : SpaceSaving}
    (left : Indexed hashing self) (right : Indexed hashing other) :
    (((mergedEntries hashing self other).mergeSort retainBefore).map Prod.fst).Perm
        (mergedKeys hashing self other) ∧
      ∀ item ∈ (mergedEntries hashing self other).mergeSort retainBefore,
        item.2 = joint hashing self other item.1 := by
  have perm := List.mergeSort_perm (mergedEntries hashing self other) retainBefore
  have keys : (mergedEntries hashing self other).map Prod.fst = mergedKeys hashing self other := by
    rw [mergedEntries_eq left right, List.map_map]
    exact List.map_id _
  refine ⟨keys ▸ perm.map Prod.fst, ?_⟩
  intro item member
  rw [perm.mem_iff, mergedEntries_eq left right, List.mem_map] at member
  obtain ⟨key, _, rfl⟩ := member
  rfl

theorem retained_nodup {hashing : Hashing} {self other : SpaceSaving}
    (left : Indexed hashing self) (right : Indexed hashing other) :
    ((retained hashing self other).map Prod.fst).Nodup := by
  have sorted := (sortedEntries_spec left right).1.nodup_iff.mpr (mergedKeys_nodup left right)
  rw [retained, List.map_take]
  exact sorted.sublist (List.take_sublist _ _)

/-- Every addition of a merge stays within a word. -/
def MergeFits (hashing : Hashing) (self other : SpaceSaving) : Prop :=
  ∀ key ∈ mergedKeys hashing self other,
    (charge hashing self key).count + (charge hashing other key).count < modulus ∧
      (charge hashing self key).error + (charge hashing other key).error < modulus

theorem charge_eq {hashing : Hashing} {s : SpaceSaving} (wf : Wf hashing s)
    (ordered : HeapOrdered s) (key : Bytes) :
    charge hashing s key = s.abs.charged s.capacity key := by
  have floor : s.missingCharge = s.abs.floor s.capacity := by
    unfold missingCharge Summary.floor
    rw [keys_card wf.indexed, minimumCount_eq wf ordered]
  rw [charge, get_eq_entry wf.indexed, floor, Summary.charged]

section Textbook

variable {hashing : Hashing} {self other : SpaceSaving} (left : Wf hashing self)
  (right : Wf hashing other) (orderedLeft : HeapOrdered self) (orderedRight : HeapOrdered other)
  (fits : MergeFits hashing self other)
include left right orderedLeft orderedRight fits

theorem union_entry {key : Bytes} (member : key ∈ mergedKeys hashing self other) :
    (Summary.union self.capacity other.capacity self.abs other.abs).entry key =
      some (joint hashing self other key) := by
  have sums := fits key member
  have tracked := (mem_mergedKeys left.indexed key).mp member
  rw [joint, wrappingAdd_of_lt sums.1, wrappingAdd_of_lt sums.2]
  simp only [Summary.union, Finset.mem_union, if_pos tracked, charge_eq left orderedLeft,
    charge_eq right orderedRight]

/-- The sort puts the keys in the retention order of the union. -/
theorem sortedEntries_ranked :
    (((mergedEntries hashing self other).mergeSort retainBefore).map Prod.fst).Pairwise
      (fun a b => (Summary.union self.capacity other.capacity self.abs other.abs).retention a <
        (Summary.union self.capacity other.capacity self.abs other.abs).retention b) := by
  obtain ⟨keys, entries⟩ := sortedEntries_spec left.indexed right.indexed
  have order : ((mergedEntries hashing self other).mergeSort retainBefore).Pairwise
      (fun a b => toLex (OrderDual.toDual a.2.count, a.1) ≤
        toLex (OrderDual.toDual b.2.count, b.1)) :=
    Lib.Ranking.sort_pairwise retainBefore_iff _
  have nodup : ((mergedEntries hashing self other).mergeSort retainBefore).Pairwise
      (fun a b => a.1 ≠ b.1) :=
    List.pairwise_map.mp (keys.nodup_iff.mpr (mergedKeys_nodup left.indexed right.indexed))
  have rankOf : ∀ item ∈ (mergedEntries hashing self other).mergeSort retainBefore,
      (Summary.union self.capacity other.capacity self.abs other.abs).retention item.1 =
        toLex (OrderDual.toDual item.2.count, item.1) := by
    intro item member
    have listed : item.1 ∈ mergedKeys hashing self other :=
      keys.mem_iff.mp (List.mem_map_of_mem member)
    rw [Summary.retention, entries item member, Summary.count_of_entry
      (union_entry left right orderedLeft orderedRight fits listed)]
  rw [List.pairwise_map]
  refine (order.and nodup).imp_of_mem ?_
  rintro a b inA inB ⟨before, apart⟩
  refine lt_of_le_of_ne ?_ (fun same => apart (Summary.retention_injective _ same))
  rw [rankOf a inA, rankOf b inB]
  exact before

theorem mem_retained_keys (key : Bytes) :
    key ∈ (retained hashing self other).map Prod.fst ↔
      key ∈ (Summary.merge self.capacity other.capacity self.abs other.abs).keys := by
  have keys := (sortedEntries_spec left.indexed right.indexed).1
  have unionKeys : (((mergedEntries hashing self other).mergeSort retainBefore).map
      Prod.fst).toFinset = (Summary.union self.capacity other.capacity self.abs other.abs).keys := by
    ext key
    rw [List.mem_toFinset, keys.mem_iff, mem_mergedKeys left.indexed]
    simp [Summary.union]
  rw [retained, List.map_take,
    mem_take_iff _ _ (sortedEntries_ranked left right orderedLeft orderedRight fits), unionKeys]
  rfl

/-- Dropping all but the first entries of the sorted list is the textbook trim. -/
theorem retained_eq_merge (t : SpaceSaving) :
    summaryOf ((retained hashing self other).map (t.contentOf hashing)) =
      Summary.merge self.capacity other.capacity self.abs other.abs := by
  obtain ⟨keys, entries⟩ := sortedEntries_spec left.indexed right.indexed
  have kept := mem_retained_keys left right orderedLeft orderedRight fits
  have distinct : (((retained hashing self other).map (t.contentOf hashing)).map
      Content.key).Nodup := by
    have nodup := retained_nodup left.indexed right.indexed
    rwa [List.map_map]
  have entryOf : ∀ item ∈ retained hashing self other,
      (Summary.merge self.capacity other.capacity self.abs other.abs).entry item.1 =
        some item.2 := by
    intro item inside
    have present := List.mem_of_mem_take inside
    have early := (Finset.mem_filter.mp ((kept item.1).mp (List.mem_map_of_mem inside))).2
    have found := union_entry left right orderedLeft orderedRight fits
      (keys.mem_iff.mp (List.mem_map_of_mem present))
    rw [← entries item present] at found
    exact (if_pos early).trans found
  ext1 key
  apply Option.ext
  intro e
  rw [summaryOf_entry_iff distinct]
  constructor
  · rintro ⟨c, member, rfl, rfl⟩
    obtain ⟨item, inside, rfl⟩ := List.mem_map.mp member
    exact entryOf item inside
  · intro found
    obtain ⟨item, inside, rfl⟩ := List.mem_map.mp ((kept key).mpr (Summary.mem_of_entry found))
    rw [entryOf item inside, Option.some.injEq] at found
    exact ⟨_, List.mem_map_of_mem inside, rfl, found⟩

end Textbook

/-- What a successful merge does. The heap order needs no assumption: it is rebuilt. -/
structure MergeStep (hashing : Hashing) (mine theirs t : SpaceSaving) : Prop where
  wf : Wf hashing t
  ordered : HeapOrdered t
  capacity : t.capacity = mine.capacity
  hash : t.hash = mine.hash
  totalWeight : t.totalWeight = wrappingAdd mine.totalWeight theirs.totalWeight
  updates : t.updates = wrappingAdd mine.updates theirs.updates
  counts : WordCounts t.contents
  refines : HeapOrdered mine → HeapOrdered theirs → MergeFits hashing mine theirs →
    t.abs = Summary.merge mine.capacity theirs.capacity mine.abs theirs.abs

theorem mergeFrom_spec {hashing : Hashing} {self other : SpaceSaving} (left : Wf hashing self)
    (right : Wf hashing other)
    (compatible : self.compatibility hashing = other.compatibility hashing) :
    ∃ t, self.mergeFrom hashing other = .ok t ∧ MergeStep hashing self other t := by
  obtain ⟨written, order⟩ := insertAll_spec (retained hashing self other)
    (Wf.clear left.indexed.positive) (retained_nodup left.indexed right.indexed)
    (by simp [clear, contents]) (by simp [clear, retained])
  have passes : (self.compatibility hashing).ensureMatches (other.compatibility hashing) = .ok () :=
    (SketchCompatibility.ensureMatches_ok_iff _ _).mpr compatible
  refine ⟨_, by unfold mergeFrom; rw [passes]; rfl, ?_⟩
  refine ⟨⟨⟨written.wf.indexed.index, written.wf.indexed.digest, written.wf.indexed.distinct,
    written.wf.indexed.size, written.wf.indexed.positive⟩,
    ⟨written.wf.heap.length, written.wf.heap.inside, written.wf.heap.back⟩⟩,
    order (clear_heapOrdered self), written.capacity, written.hash, rfl, rfl, ?_, ?_⟩
  · have listed : WordCounts (self.clear.contents ++
        (retained hashing self other).map (self.clear.contentOf hashing)) := by
      intro c member
      have nothing : self.clear.contents = [] := rfl
      rw [nothing, List.nil_append] at member
      obtain ⟨item, inside, rfl⟩ := List.mem_map.mp member
      have entry := (sortedEntries_spec left.indexed right.indexed).2 item
        (List.mem_of_mem_take inside)
      show item.2.count < modulus
      rw [entry]
      exact wrappingAdd_lt _ _
    exact fun c member => listed c (written.contents ▸ member)
  intro orderedLeft orderedRight fits
  have merged := retained_eq_merge left right orderedLeft orderedRight fits self.clear
  rw [← merged]
  exact congrArg summaryOf written.contents

theorem mergeFrom_inv {hashing : Hashing} {self other t : SpaceSaving} (left : Wf hashing self)
    (right : Wf hashing other) (success : self.mergeFrom hashing other = .ok t) :
    self.compatibility hashing = other.compatibility hashing ∧ MergeStep hashing self other t := by
  have compatible : self.compatibility hashing = other.compatibility hashing := by
    rw [← SketchCompatibility.ensureMatches_ok_iff]
    unfold mergeFrom at success
    cases passes : (self.compatibility hashing).ensureMatches (other.compatibility hashing) with
    | ok => rfl
    | error e =>
      rw [passes] at success
      cases success
  obtain ⟨u, result, step⟩ := mergeFrom_spec left right compatible
  rw [success, Except.ok.injEq] at result
  exact ⟨compatible, result ▸ step⟩

end FlowSketch.Source.SpaceSaving
