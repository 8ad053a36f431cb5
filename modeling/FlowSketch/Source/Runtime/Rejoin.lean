import FlowSketch.Source.Runtime.StateInvariant
import FlowSketch.Source.Snapshots.Tables
import FlowSketch.Source.Snapshots.Levels

/-!
# Merging into a fresh sketch

The gateway decodes a component and merges it into a sketch built from its own plan. For four of the
sketches this copies the content. A KLL sketch is compressed by the merge, so it is copied exactly when
no level is over its capacity.
-/

namespace FlowSketch.Source
open Lib.Octets Lib.Word64 Lib.AssocMap Lib.CounterSummary Source.Core

theorem wrappingAdd_zero_left {x : Nat} (word : x < modulus) : wrappingAdd 0 x = x := by
  rw [wrappingAdd, Nat.zero_add, Nat.mod_eq_of_lt word]

namespace SpaceSaving

/-- The words a summary holds. -/
structure Words (s : SpaceSaving) : Prop where
  counts : WordCounts s.contents
  totalWeight : s.totalWeight < modulus
  updates : s.updates < modulus

/-- No entry's error exceeds its count. -/
def Sane (s : SpaceSaving) : Prop := ∀ c ∈ s.contents, c.entry.error ≤ c.entry.count

theorem Words.bounded {hashing : Hashing} {s : SpaceSaving} (wf : Wf hashing s) (words : Words s)
    (sane : Sane s) : Bounded s := by
  refine ⟨fun key e found => ?_, words.totalWeight, words.updates⟩
  obtain ⟨c, member, rfl, rfl⟩ := (summaryOf_entry_iff wf.indexed.distinct _ _).mp found
  exact ⟨sane c member, words.counts c member⟩

theorem fresh_merge {hashing : Hashing} {capacity : Nat} {hash : HashSpec} {s : SpaceSaving}
    (positive : 0 < capacity) (wf : Wf hashing s) (ordered : HeapOrdered s) (bounded : Bounded s)
    (sameCapacity : s.capacity = capacity) (sameHash : s.hash = hash) :
    ∃ t, (fresh capacity hash 0 0).mergeFrom hashing s = .ok t ∧ Same s t := by
  have empty : (fresh capacity hash 0 0).abs = Summary.empty := Summary.ext fun key => rfl
  have freshWf : Wf hashing (fresh capacity hash 0 0) :=
    Wf.clear (s := fresh capacity hash 0 0) positive
  have freshOrdered := clear_heapOrdered (fresh capacity hash 0 0)
  have compatible : (fresh capacity hash 0 0).compatibility hashing = s.compatibility hashing := by
    simp only [compatibility, paramsHash, fresh, sameCapacity, sameHash]
  have size : s.abs.keys.card ≤ capacity := by
    rw [keys_card wf.indexed, ← contents_length, ← sameCapacity]
    exact wf.indexed.size
  have fits : MergeFits hashing (fresh capacity hash 0 0) s := by
    rw [mergeFits_iff freshWf freshOrdered wf ordered, empty]
    intro key member
    have tracked : key ∈ s.abs.keys := member.resolve_left (by simp [Summary.empty])
    obtain ⟨e, found⟩ := Summary.entry_of_mem tracked
    obtain ⟨below, word⟩ := bounded.entries key e found
    have mine : (Summary.empty : Summary Bytes).charged (fresh capacity hash 0 0).capacity key =
        { count := 0, error := 0 } := Summary.charged_empty positive key
    rw [mine, Summary.charged, found]
    simp only [Option.getD_some, Nat.zero_add]
    exact ⟨word, below.trans_lt word⟩
  obtain ⟨t, merged, step⟩ := mergeFrom_spec freshWf wf compatible
  refine ⟨t, merged, ⟨sameCapacity.trans step.capacity.symm, sameHash.trans step.hash.symm, ?_⟩, ?_, ?_⟩
  · rw [step.refines freshOrdered ordered fits, empty]
    exact (Summary.empty_merge positive size).symm
  · exact step.totalWeight.trans (wrappingAdd_zero_left bounded.totalWeight)
  · exact step.updates.trans (wrappingAdd_zero_left bounded.updates)

end SpaceSaving

theorem addCells_zero {cells : List Nat} (words : ∀ cell ∈ cells, cell < modulus) :
    addCells wrappingAdd (List.replicate cells.length 0) cells = cells := by
  induction cells with
  | nil => rfl
  | cons cell cells ih =>
    rw [List.forall_mem_cons] at words
    rw [List.length_cons, List.replicate_succ, addCells, ih words.2, wrappingAdd_zero_left words.1]

namespace CountMinSketch

theorem fresh_merge (hashing : Hashing) {s : CountMinSketch} (wf : Wf s) :
    ∃ empty, CountMinSketch.new s.width s.depth s.conservative s.hash = .ok empty ∧
      empty.mergeFrom hashing s = .ok s := by
  have positive : ¬(s.width = 0 ∨ s.depth = 0) := by
    have width := wf.width
    have depth := wf.depth
    omega
  refine ⟨_, if_neg positive, ?_⟩
  unfold mergeFrom
  have compatible : SketchCompatibility.ensureMatches
      (compatibility hashing { width := s.width, depth := s.depth, conservative := s.conservative
                               hash := s.hash, table := List.replicate (s.width * s.depth) 0
                               totalWeight := 0, updates := 0 })
      (s.compatibility hashing) = .ok () := by
    rw [SketchCompatibility.ensureMatches_ok_iff]
    rfl
  rw [compatible, ← wf.size]
  simp only [bind, Except.bind, addCells_zero wf.cells, wrappingAdd_zero_left wf.totalWeight,
    wrappingAdd_zero_left wf.updates]
  rfl

end CountMinSketch

namespace HyperLogLog

theorem fresh_merge (hashing : Hashing) {s : HyperLogLog} (wf : Wf s) :
    ∃ empty, HyperLogLog.new s.precision s.hash = .ok empty ∧ empty.mergeFrom hashing s = .ok s := by
  have created : HyperLogLog.new s.precision s.hash = .ok
      { precision := s.precision, hash := s.hash, storage := .empty, updates := 0 } :=
    if_neg (not_not.mpr wf.inRange)
  obtain ⟨emptyWf, _⟩ := new_wf created
  refine ⟨_, created, ?_⟩
  obtain ⟨hashes, form⟩ := wf.form
  have none_yet : RegisterStorage.empty = storageOf s.precision ∅ := by
    have few : (∅ : Finset UInt64).card ≤ sparseLimit s.precision := Nat.zero_le _
    simp only [storageOf, if_pos few, Finset.sort_empty, exactStorage]
  obtain ⟨setup, storage⟩ := @mergeStorage_storage
    { precision := s.precision, hash := s.hash, storage := .empty, updates := 0 } s ∅ hashes none_yet
    form
  rw [Finset.empty_union, ← form] at storage
  have compatible : SketchCompatibility.ensureMatches
      (compatibility hashing { precision := s.precision, hash := s.hash, storage := .empty
                               updates := 0 }) (s.compatibility hashing) = .ok () := by
    rw [SketchCompatibility.ensureMatches_ok_iff]
    rfl
  unfold mergeFrom
  rw [compatible]
  simp only [bind, Except.bind, wrappingAdd_zero_left wf.updates]
  refine congrArg Except.ok ?_
  rw [setup.eq_of_storage, storage]

end HyperLogLog

namespace HllMap

variable {F : Type}

theorem mergeEntries_append (hashing : Hashing) {entries : List (Bytes × HllSlot F)} (s : HllMap F)
    (distinct : (keys (s.map ++ entries)).Nodup) :
    mergeEntries hashing entries s = (.ok (), { s with map := s.map ++ entries }) := by
  induction entries generalizing s with
  | nil => simp [mergeEntries]
  | cons entry entries ih =>
    obtain ⟨key, slot⟩ := entry
    have absent : key ∉ keys s.map := by
      rw [keys, List.map_append, List.nodup_append] at distinct
      exact fun member => distinct.2.2 key member key (by simp) rfl
    have grown : s.map ++ (key, slot) :: entries = (s.map ++ [(key, slot)]) ++ entries := by
      rw [List.append_assoc, List.singleton_append]
    rw [grown] at distinct ⊢
    rw [mergeEntries, lookup_eq_none_iff.mpr absent]
    simp only [insert_of_not_mem absent]
    exact ih { s with map := s.map ++ [(key, slot)] } distinct

theorem trim_short [LinearOrder F] (cardinality : Cardinality F) (rounds : Nat) {s : HllMap F}
    (short : s.map.length ≤ s.maxKeys) : trim cardinality rounds s = some s := by
  cases rounds with
  | zero => rfl
  | succ rounds => rw [trim, if_neg (Nat.not_lt.mpr short)]

theorem fresh_merge [LinearOrder F] (cardinality : Cardinality F) (hashing : Hashing) {s : HllMap F}
    (wf : Wf s) :
    ∃ empty t, HllMap.new s.maxKeys s.precision s.hash = .ok empty ∧
      empty.mergeInto cardinality hashing s = some (.ok (), t) ∧ Same s t := by
  have created : HllMap.new s.maxKeys s.precision s.hash = .ok s.reset := by
    have valid : HyperLogLog.new s.precision s.hash = .ok
        { precision := s.precision, hash := s.hash, storage := .empty, updates := 0 } :=
      if_neg (not_not.mpr wf.inRange)
    unfold HllMap.new
    rw [if_neg wf.maxKeys.ne', valid]
    rfl
  have compatible : SketchCompatibility.ensureMatches (s.reset.compatibility hashing)
      (s.compatibility hashing) = .ok () := by
    rw [SketchCompatibility.ensureMatches_ok_iff]
    rfl
  have copied : mergeEntries hashing s.map s.reset = (.ok (), { s.reset with map := s.map }) :=
    mergeEntries_append hashing s.reset wf.distinct
  let rebuilt := { s.reset with map := s.map }.rebuildEvictionHeap cardinality
  have length : rebuilt.map.length = s.map.length := List.length_map _
  have untrimmed : trim cardinality rebuilt.map.length rebuilt = some rebuilt :=
    trim_short cardinality _ (length ▸ wf.size)
  refine ⟨s.reset, { rebuilt with evictedKeys := wrappingAdd 0 s.evictedKeys
                                  updates := wrappingAdd 0 s.updates }, created, ?_, ?_⟩
  · unfold mergeInto
    rw [compatible]
    simp only [copied]
    exact Option.bind_eq_some_iff.mpr ⟨rebuilt, untrimmed, rfl⟩
  · refine ⟨rfl, rfl, rfl, fun key => ?_, wrappingAdd_zero_left wf.evictedKeys,
      wrappingAdd_zero_left wf.updates⟩
    exact congrArg (List.lookup key) (hlls_rebuild cardinality _)

end HllMap

namespace KllSketch

/-- Equal parameters, items and totals; the generator may be in another state. -/
structure Same (s t : KllSketch) : Prop where
  k : t.k = s.k
  hash : t.hash = s.hash
  levels : t.levels = s.levels
  n : t.n = s.n
  updates : t.updates = s.updates

theorem join_empty {levels : List (List Nat)} (some_level : 0 < levels.length) :
    joinLevels [[]] levels = levels := by
  obtain ⟨first, rest, rfl⟩ := List.exists_cons_of_length_pos some_level
  cases rest <;> rfl

theorem settled_rngState (s : KllSketch) (rngState : UInt64) :
    Settled { s with rngState } ↔ Settled s := by
  simp only [Settled, capacity]

/-- The merge into a fresh sketch always succeeds, and copies exactly the settled sketches. -/
theorem fresh_merge (hashing : Hashing) {s : KllSketch} (shape : Shape s) :
    ∃ empty t, KllSketch.new s.k s.hash = .ok empty ∧ empty.mergeFrom hashing s = .ok t ∧
      (Same s t ↔ Settled s) := by
  obtain ⟨seeded, created⟩ : ∃ rngState, KllSketch.new s.k s.hash = .ok
      { k := s.k, hash := s.hash, levels := [[]], n := 0, rngState, updates := 0 } := by
    unfold KllSketch.new
    rw [if_neg (Nat.not_lt.mpr shape.k)]
    exact ⟨_, rfl⟩
  have compatible : SketchCompatibility.ensureMatches
      (compatibility hashing { k := s.k, hash := s.hash, levels := [[]], n := 0, rngState := seeded
                               updates := 0 }) (s.compatibility hashing) = .ok () := by
    rw [SketchCompatibility.ensureMatches_ok_iff]
    rfl
  refine ⟨_, { s with rngState := splitmix64 (seeded ^^^ s.rngState) }.compress, created, ?_, ?_⟩
  · unfold mergeFrom
    rw [compatible]
    simp only [bind, Except.bind, join_empty shape.some_level, wrappingAdd_zero_left shape.n,
      wrappingAdd_zero_left shape.updates]
    rfl
  · generalize splitmix64 (seeded ^^^ s.rngState) = rngState
    have setup := compress_setup { s with rngState }
    have settled := compress_levels_iff { s with rngState }
    rw [settled_rngState] at settled
    exact ⟨fun same => settled.mp same.levels, fun within =>
      ⟨setup.k, setup.hash, settled.mpr within, setup.n, setup.updates⟩⟩

end KllSketch

end FlowSketch.Source
