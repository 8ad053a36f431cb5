import FlowSketch.Lib.Restart
import FlowSketch.Source.HllMap.Contents

/-!
# The iteration order of an HLLMap

Whatever order the hash map iterates in and whatever order the heap stores its candidates in, every
operation ends in the same way up to these orders. Nothing is assumed of the other map of a merge.
-/

namespace FlowSketch.Source.HllMap
open Lib.Octets Lib.Word64 Lib.AssocMap Source.Core

variable {F : Type}

/-- `t` is `s` with its map and its heap in another order. -/
inductive Laid (s : HllMap F) : HllMap F → Prop
  | of {map : List (Bytes × HllSlot F)} {eviction : List (F ×ₗ Bytes)} (entries : s.map.Perm map)
      (heap : s.eviction.Perm eviction) (distinct : (keys s.map).Nodup) :
      Laid s { s with map, eviction }

theorem Laid.length {s t : HllMap F} (laid : Laid s t) : t.map.length = s.map.length := by
  obtain ⟨entries, _, _⟩ := laid
  exact entries.length_eq.symm

theorem Laid.heap_length {s t : HllMap F} (laid : Laid s t) :
    t.eviction.length = s.eviction.length := by
  obtain ⟨_, heap, _⟩ := laid
  exact heap.length_eq.symm

theorem Laid.maxKeys {s t : HllMap F} (laid : Laid s t) : t.maxKeys = s.maxKeys := by
  obtain ⟨_, _, _⟩ := laid
  rfl

theorem Laid.compatibility {s t : HllMap F} (laid : Laid s t) (hashing : Hashing) :
    t.compatibility hashing = s.compatibility hashing := by
  obtain ⟨_, _, _⟩ := laid
  rfl

theorem Laid.tally {s t : HllMap F} (laid : Laid s t) (evicted updates : Nat) :
    Laid { s with evictedKeys := wrappingAdd s.evictedKeys evicted
                  updates := wrappingAdd s.updates updates }
      { t with evictedKeys := wrappingAdd t.evictedKeys evicted
               updates := wrappingAdd t.updates updates } := by
  obtain ⟨entries, heap, distinct⟩ := laid
  exact .of entries heap distinct

theorem rebuild_laid (cardinality : Cardinality F) {s t : HllMap F} (laid : Laid s t) :
    Laid (s.rebuildEvictionHeap cardinality) (t.rebuildEvictionHeap cardinality) := by
  obtain ⟨entries, heap, distinct⟩ := laid
  refine .of (entries.map _) (entries.map _) ?_
  have rebuilt := congrArg keys (@hlls_rebuild F cardinality s)
  rw [keys_hlls, keys_hlls] at rebuilt
  exact rebuilt ▸ distinct

theorem mergeEntries_laid (hashing : Hashing) (theirs : List (Bytes × HllSlot F)) {s t : HllMap F}
    (laid : Laid s t) :
    (mergeEntries hashing theirs s).1 = (mergeEntries hashing theirs t).1 ∧
      Laid (mergeEntries hashing theirs s).2 (mergeEntries hashing theirs t).2 := by
  induction theirs generalizing s t with
  | nil => exact ⟨rfl, laid⟩
  | cons entry rest ih =>
    obtain ⟨key, slot⟩ := entry
    have kept := laid
    obtain @⟨map, eviction, entries, heap, distinct⟩ := laid
    have found := lookup_perm entries distinct key
    rw [mergeEntries, mergeEntries]
    dsimp only
    rw [← found]
    cases s.map.lookup key with
    | none => exact ih (.of (insert_perm entries distinct _ _) heap (insert_nodup distinct))
    | some mine =>
      dsimp only
      cases mine.hll.mergeFrom hashing slot.hll with
      | ok hll => exact ih (.of (insert_perm entries distinct _ _) heap (insert_nodup distinct))
      | error e => exact ⟨rfl, kept⟩

variable [LinearOrder F]

theorem min?_eq_of_perm {heap heap' : List (F ×ₗ Bytes)} (same : heap.Perm heap') :
    heap.min? = heap'.min? := by
  refine Option.ext fun least => ?_
  rw [List.min?_eq_some_iff, List.min?_eq_some_iff]
  simp only [same.mem_iff]

section

variable (cardinality : Cardinality F)

theorem evictLoop_laid (rounds : Nat) {s t : HllMap F} (laid : Laid s t) :
    Option.Rel Laid (evictLoop cardinality rounds s) (evictLoop cardinality rounds t) := by
  induction rounds generalizing s t with
  | zero => exact .none
  | succ rounds ih =>
    obtain @⟨map, eviction, entries, heap, distinct⟩ := laid
    rw [evictLoop, evictLoop]
    dsimp only
    rw [popLeast, popLeast, ← min?_eq_of_perm heap]
    cases s.eviction.min? with
    | none => exact .none
    | some least =>
      have rest := heap.erase least
      have found := lookup_perm entries distinct (ofLex least).2
      simp only [Option.map_some, ← found]
      cases s.map.lookup (ofLex least).2 with
      | none => exact ih (.of entries rest distinct)
      | some slot =>
        dsimp only
        split
        · exact ih (.of (insert_perm entries distinct _ _) (rest.cons _) (insert_nodup distinct))
        · exact .some (.of (entries.filter _) rest (distinct.sublist (List.filter_sublist.map _)))

theorem evictSmallest_laid {s t : HllMap F} (laid : Laid s t) :
    Option.Rel Laid (s.evictSmallest cardinality) (t.evictSmallest cardinality) := by
  unfold evictSmallest
  rw [laid.heap_length]
  exact evictLoop_laid cardinality _ laid

theorem makeRoom_laid {s t : HllMap F} (laid : Laid s t) :
    Option.Rel Laid (s.makeRoom cardinality) (t.makeRoom cardinality) := by
  unfold makeRoom
  rw [laid.length, laid.maxKeys]
  split
  · exact evictSmallest_laid cardinality laid
  · exact .some laid

theorem insert_laid (hashing : Hashing) {s t : HllMap F} (laid : Laid s t) (key item : Bytes) :
    Option.Rel Laid (s.insert cardinality hashing key item)
      (t.insert cardinality hashing key item) := by
  obtain @⟨map, eviction, entries, heap, distinct⟩ := laid
  have found := lookup_perm entries distinct key
  unfold HllMap.insert
  dsimp only
  rw [← found]
  cases s.map.lookup key with
  | some slot =>
    exact .some (.of (insert_perm entries distinct _ _) heap (insert_nodup distinct))
  | none =>
    have room := @makeRoom_laid F _ cardinality { s with updates := wrappingAdd s.updates 1 } _
      (.of entries heap distinct)
    refine Lib.Restart.rel_bind room fun u v related => ?_
    obtain ⟨entries, heap, distinct⟩ := related
    cases (HyperLogLog.new u.precision u.hash).toOption with
    | none => exact .none
    | some hll =>
      exact .some (.of (insert_perm entries distinct _ _) (heap.cons _) (insert_nodup distinct))

theorem trim_laid (rounds : Nat) {s t : HllMap F} (laid : Laid s t) :
    Option.Rel Laid (trim cardinality rounds s) (trim cardinality rounds t) := by
  induction rounds generalizing s t with
  | zero => exact .some laid
  | succ rounds ih =>
    rw [trim, trim, laid.length, laid.maxKeys]
    split
    · exact Lib.Restart.rel_bind (evictSmallest_laid cardinality laid) fun _ _ related => ih related
    · exact .some laid

end

/-- Both the result of the call and the map left behind. -/
theorem mergeInto_laid (cardinality : Cardinality F) (hashing : Hashing) {s t : HllMap F}
    (laid : Laid s t) (other : HllMap F) :
    Option.Rel (fun left right => left.1 = right.1 ∧ Laid left.2 right.2)
      (s.mergeInto cardinality hashing other) (t.mergeInto cardinality hashing other) := by
  obtain ⟨results, merged⟩ := mergeEntries_laid hashing other.map laid
  unfold mergeInto
  rw [laid.compatibility hashing]
  cases (s.compatibility hashing).ensureMatches (other.compatibility hashing) with
  | error e => exact .some ⟨rfl, laid⟩
  | ok passed =>
    dsimp only
    revert results merged
    generalize mergeEntries hashing other.map s = left
    generalize mergeEntries hashing other.map t = right
    intro results merged
    obtain ⟨result, s'⟩ := left
    obtain ⟨result', t'⟩ := right
    obtain rfl : result = result' := results
    cases result with
    | error e => exact .some ⟨rfl, merged⟩
    | ok done =>
      have rebuilt := rebuild_laid cardinality merged
      dsimp only
      rw [rebuilt.length]
      refine Lib.Restart.rel_bind (trim_laid cardinality _ rebuilt) fun u v trimmed => ?_
      exact .some ⟨rfl, trimmed.tally other.evictedKeys other.updates⟩

end FlowSketch.Source.HllMap
