import FlowSketch.Source.HllMap.Runs

/-!
# Merging two HLLMaps

`merge_from` stops at the first inner merge that fails, with the keys before it merged. In a run that
never happens: every inner sketch has the precision and the hash of its map, so a merge is refused at
once or joins every key. What it leaves is a function of the two contents.
-/

namespace FlowSketch.Source.HllMap
open Lib.Octets Lib.Word64 Lib.AssocMap Source.Core

variable {F : Type} [LinearOrder F] {hashing : Hashing} {cardinality : Cardinality F}

section

variable {s other t : HllMap F}

/-- Every sketch that is left is the merge of the two sides' sketches. -/
theorem Merged.sketch (merged : Merged hashing cardinality s other t) {key : Bytes} {hll : HyperLogLog}
    (left : (key, hll) ∈ hlls t.map) :
    joined hashing ((hlls s.map).lookup key) ((hlls other.map).lookup key) = some hll := by
  obtain ⟨union, distinct, lookups, contents, _⟩ := merged.contents
  rw [← lookups, lookup_eq_some_iff distinct]
  rw [contents] at left
  exact List.mem_of_mem_filter left

omit [LinearOrder F] in
/-- Sketches of one precision and one hash can be merged. -/
theorem joined_isSome (left : Regular s) (right : Regular other)
    (precision : other.precision = s.precision) (hash : other.hash = s.hash) (key : Bytes) :
    (joined hashing ((hlls s.map).lookup key) ((hlls other.map).lookup key)).isSome ↔
      key ∈ keys s.map ∨ key ∈ keys other.map := by
  have mine : (hlls s.map).lookup key = none ↔ key ∉ keys s.map := by
    rw [lookup_eq_none_iff, keys_hlls]
  have theirs : (hlls other.map).lookup key = none ↔ key ∉ keys other.map := by
    rw [lookup_eq_none_iff, keys_hlls]
  cases foundMine : (hlls s.map).lookup key with
  | none =>
    have absent := mine.mp foundMine
    cases foundTheirs : (hlls other.map).lookup key with
    | none => simp [joined, absent, theirs.mp foundTheirs]
    | some hll =>
      have present : key ∈ keys other.map := by
        by_contra gone
        rw [theirs.mpr gone] at foundTheirs
        cases foundTheirs
      simp [joined, present]
  | some own =>
    have present : key ∈ keys s.map := by
      by_contra gone
      rw [mine.mpr gone] at foundMine
      cases foundMine
    cases foundTheirs : (hlls other.map).lookup key with
    | none => simp [joined, present]
    | some hll =>
      have distinct : (keys (hlls s.map)).Nodup := by simpa using left.distinct
      have distinct' : (keys (hlls other.map)).Nodup := by simpa using right.distinct
      have uniform := left.uniform _ ((lookup_eq_some_iff distinct).mp foundMine)
      have uniform' := right.uniform _ ((lookup_eq_some_iff distinct').mp foundTheirs)
      obtain ⟨sum, done⟩ := HyperLogLog.mergeFrom_total hashing
        ((uniform'.1.trans precision).trans uniform.1.symm)
        ((uniform'.2.trans hash).trans uniform.2.symm)
      have both : joined hashing (some own) (some hll) = some sum := congrArg Except.toOption done
      simp [both, present]

/-- No key is lost when the keys of both sides fit. -/
theorem Merged.keeps (merged : Merged hashing cardinality s other t) (left : Regular s)
    (right : Regular other) (precision : other.precision = s.precision) (hash : other.hash = s.hash)
    (fits : (keys s.map ++ keys other.map).dedup.length ≤ s.maxKeys) {key : Bytes}
    (present : key ∈ keys s.map ∨ key ∈ keys other.map) : key ∈ keys t.map := by
  obtain ⟨union, distinct, lookups, contents, _⟩ := merged.contents
  have members : ∀ key, key ∈ keys union ↔ key ∈ keys s.map ∨ key ∈ keys other.map := by
    intro key
    rw [← joined_isSome left right precision hash key, ← lookups, Option.isSome_iff_ne_none, Ne,
      lookup_eq_none_iff, not_not]
  have all : (keys union).Perm (keys s.map ++ keys other.map).dedup := by
    rw [List.perm_ext_iff_of_nodup distinct (List.nodup_dedup _)]
    intro key
    rw [members, List.mem_dedup, List.mem_append]
  have few : union.length ≤ s.maxKeys := by
    have lengths := all.length_eq
    rw [List.length_map] at lengths
    omega
  rw [survivors_of_few few] at contents
  rw [← keys_hlls, contents]
  exact (members key).mpr present

omit [LinearOrder F] in
theorem Same.compatibility {s' : HllMap F} (same : Same s s') :
    s'.compatibility hashing = s.compatibility hashing := by
  rw [HllMap.compatibility, HllMap.compatibility, paramsHash, paramsHash, same.maxKeys, same.precision,
    same.hash]

/-- Two merges of the same contents leave the same contents. -/
theorem Merged.same {s' other' t' : HllMap F} (left : Same s s') (right : Same other other')
    (merged : Merged hashing cardinality s other t) (merged' : Merged hashing cardinality s' other' t') :
    Same t t' := by
  obtain ⟨union, distinct, lookups, contents, dropped, lengths, counted⟩ := merged.contents
  obtain ⟨union', distinct', lookups', contents', dropped', lengths', counted'⟩ := merged'.contents
  have perm : union.Perm union' := perm_of_lookup distinct distinct' fun key => by
    rw [lookups, lookups', left.sketches, right.sketches]
  have survive : (hlls t.map).Perm (hlls t'.map) := by
    rw [contents, contents', left.maxKeys]
    exact survivors_perm perm
  have nodup : (keys (hlls t.map)).Nodup := by
    rw [contents]
    exact (List.filter_sublist.map Prod.fst).nodup distinct
  have size : t.map.length = t'.map.length := by
    rw [← hlls_length, survive.length_eq, hlls_length]
  have drops : dropped' = dropped := by
    have totals := perm.length_eq
    omega
  refine ⟨?_, ?_, ?_, fun key => (lookup_perm survive nodup key).symm, ?_, ?_⟩
  · rw [merged'.maxKeys, left.maxKeys, merged.maxKeys]
  · rw [merged'.precision, left.precision, merged.precision]
  · rw [merged'.hash, left.hash, merged.hash]
  · rw [counted', drops, left.evictedKeys, right.evictedKeys, counted]
  · rw [merged'.updates, left.updates, right.updates, merged.updates]

end

end FlowSketch.Source.HllMap
