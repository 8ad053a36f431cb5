import FlowSketch.Source.HllMap.Contents

/-!
# Snapshots of an HLLMap

The inner HyperLogLogs travel as whole snapshots, in the order of their keys. What comes back has the
same keys and sketches with every cardinality recomputed.
-/

namespace FlowSketch.Source.HllMap
open Lib.Octets Lib.Word64 Lib.AssocMap Source.Core

variable {F : Type}

/-- Maps the operations lead to. Merges are between maps of one precision; `reorder` is another
iteration order of the hash map. -/
inductive Reachable [LinearOrder F] (hashing : Hashing) (cardinality : Cardinality F) :
    HllMap F → Prop
  | new {maxKeys precision : Nat} {hash : HashSpec} {s : HllMap F}
      (created : HllMap.new maxKeys precision hash = .ok s) : Reachable hashing cardinality s
  | insert {s t : HllMap F} (before : Reachable hashing cardinality s) (key item : Bytes)
      (inserted : s.insert cardinality hashing key item = some t) : Reachable hashing cardinality t
  | merge {s other t : HllMap F} (before : Reachable hashing cardinality s)
      (argument : Reachable hashing cardinality other) (precision : other.precision = s.precision)
      (merged : s.mergeInto cardinality hashing other = some (.ok (), t)) :
      Reachable hashing cardinality t
  | reorder {s : HllMap F} (before : Reachable hashing cardinality s)
      {map : List (Bytes × HllSlot F)} (same : s.map.Perm map) :
      Reachable hashing cardinality { s with map }

theorem new_wf {maxKeys precision : Nat} {hash : HashSpec} {s : HllMap F}
    (created : HllMap.new maxKeys precision hash = .ok s) : Wf s := by
  unfold HllMap.new at created
  split at created
  · cases created
  next positive =>
    obtain ⟨hll, valid, result⟩ := bind_ok created
    cases result
    obtain ⟨hllWf, rfl⟩ := HyperLogLog.new_wf valid
    exact ⟨Nat.pos_of_ne_zero positive, hllWf.inRange, List.nodup_nil, Nat.zero_le _, by simp [hlls],
      modulus_pos, modulus_pos⟩

theorem Reachable.wf [LinearOrder F] {hashing : Hashing} {cardinality : Cardinality F} {s : HllMap F}
    (run : Reachable hashing cardinality s) : Wf s := by
  induction run with
  | new created => exact new_wf created
  | insert _ key item inserted wf => exact wf.insert inserted
  | merge _ _ precision merged wf other => exact wf.merge other precision merged
  | reorder _ same wf =>
    have sketches := same.map (fun entry => (entry.1, entry.2.hll))
    exact ⟨wf.maxKeys, wf.inRange, (same.map Prod.fst).nodup_iff.mp wf.distinct,
      same.length_eq ▸ wf.size, fun entry member => wf.sketches entry (sketches.mem_iff.mpr member),
      wf.evictedKeys, wf.updates⟩

/-! ## Slots -/

/-- A slot as the decoder builds it. -/
def fresh (cardinality : Cardinality F) (entry : Bytes × HllSlot F) : Bytes × HllSlot F :=
  (entry.1, { hll := entry.2.hll, cachedCardinality := cardinality.of entry.2.hll, dirty := false })

theorem flatMap_writeSlot_length (hashing : Hashing) (windowStart windowEnd : Nat)
    (entries : List (Bytes × HllSlot F)) :
    entries.length * 8 ≤
        (entries.flatMap (writeSlot hashing windowStart windowEnd)).length ∧
      ∀ entry ∈ entries,
        entry.1.length ≤ (entries.flatMap (writeSlot hashing windowStart windowEnd)).length ∧
        (entry.2.hll.toSnapshot hashing windowStart windowEnd).length ≤
          (entries.flatMap (writeSlot hashing windowStart windowEnd)).length := by
  induction entries with
  | nil => simp
  | cons entry rest ih =>
    rw [List.flatMap_cons, List.length_append, writeSlot, Reader.writeLpBytes, Reader.writeLpBytes,
      List.length_append, List.length_append, List.length_append, leBytes_length, leBytes_length,
      List.length_cons, List.forall_mem_cons]
    refine ⟨by omega, ⟨by omega, by omega⟩, fun other member => ?_⟩
    have bound := ih.2 other member
    omega

section

variable {hashing : Hashing} {cardinality : Cardinality F} {hash : HashSpec} {precision : Nat}
variable {windowStart windowEnd : Nat}

theorem readSlots_slots {entries : List (Bytes × HllSlot F)}
    (start : windowStart < modulus) (stop : windowEnd < modulus)
    (short : ∀ entry ∈ entries, entry.1.length < 2 ^ 32 ∧
      (entry.2.hll.toSnapshot hashing windowStart windowEnd).length < 2 ^ 32)
    (sketches : ∀ entry ∈ entries,
      entry.2.hll.Wf ∧ entry.2.hll.precision = precision ∧ entry.2.hll.hash = hash)
    (before : List (Bytes × HllSlot F)) (distinct : (keys (before ++ entries)).Nodup)
    (rest : Bytes) :
    readSlots cardinality hashing hash precision entries.length before
        (entries.flatMap (writeSlot hashing windowStart windowEnd) ++ rest) =
      .ok (before ++ entries.map (fresh cardinality), rest) := by
  induction entries generalizing before with
  | nil => rw [List.map_nil, List.append_nil]; rfl
  | cons entry entries ih =>
    rw [List.forall_mem_cons] at short sketches
    obtain ⟨⟨wf, samePrecision, sameHash⟩, later⟩ := sketches
    have fields : (entry :: entries).flatMap (writeSlot hashing windowStart windowEnd) ++ rest =
        Reader.writeLpBytes entry.1 ++
          (Reader.writeLpBytes (entry.2.hll.toSnapshot hashing windowStart windowEnd) ++
            (entries.flatMap (writeSlot hashing windowStart windowEnd) ++ rest)) := by
      simp only [List.flatMap_cons, writeSlot, List.append_assoc]
    have absent : entry.1 ∉ keys before := by
      rw [keys, List.map_append, List.nodup_append] at distinct
      intro member
      exact distinct.2.2 entry.1 member entry.1 (by simp) rfl
    have grown : keys (before ++ entry :: entries) =
        keys ((before ++ [fresh cardinality entry]) ++ entries) := by
      simp [keys, fresh]
    rw [grown] at distinct
    have inner := HyperLogLog.fromSnapshot_toSnapshot hashing wf start stop
    have tail := ih short.2 later _ distinct
    rw [fields]
    refine (Read.bind_run (Reader.lpBytes_writeLpBytes short.1.1 _)).trans ?_
    refine (Read.bind_run (Reader.lpBytes_writeLpBytes short.1.2 _)).trans ?_
    refine (Read.bind_run (Read.lift_run inner _)).trans ?_
    refine (Read.guard_run (not_not.mpr samePrecision) _).trans ?_
    refine (Read.guard_run (not_not.mpr sameHash) _).trans ?_
    rw [insert_of_not_mem absent, List.map_cons]
    rw [List.append_assoc, List.singleton_append] at tail
    exact tail

/-! ## The whole map -/

/-- The key bound is a `usize`, and the payload fits the 32 bits its length is written with. -/
structure Sized (hashing : Hashing) (s : HllMap F) : Prop where
  maxKeys : s.maxKeys < modulus
  payload : ∀ windowStart windowEnd, (s.payload hashing windowStart windowEnd).length < 2 ^ 32

/-- Equal parameters, keys, sketches and totals, whatever the order, the caches and the heap. -/
structure Same (s t : HllMap F) : Prop where
  maxKeys : t.maxKeys = s.maxKeys
  precision : t.precision = s.precision
  hash : t.hash = s.hash
  sketches : ∀ key, (hlls t.map).lookup key = (hlls s.map).lookup key
  evictedKeys : t.evictedKeys = s.evictedKeys
  updates : t.updates = s.updates

theorem sorted_perm (s : HllMap F) : s.sorted.Perm s.map := List.mergeSort_perm _ _

theorem hlls_sorted (s : HllMap F) :
    hlls s.sorted = (hlls s.map).mergeSort (fun left right => left.1 ≤ right.1) := by
  unfold hlls sorted
  exact List.map_mergeSort fun _ _ _ _ => rfl

theorem flatMap_writeSlot_hlls (entries : List (Bytes × HllSlot F)) :
    entries.flatMap (writeSlot hashing windowStart windowEnd) =
      (hlls entries).flatMap (fun entry => Reader.writeLpBytes entry.1 ++
        Reader.writeLpBytes (entry.2.toSnapshot hashing windowStart windowEnd)) := by
  rw [hlls, List.flatMap_map]
  rfl

/-- The bytes depend on the content only. -/
theorem payload_eq_of_perm {s t : HllMap F} (wf : Wf s) (same : (hlls s.map).Perm (hlls t.map))
    (updates : t.updates = s.updates) (evictedKeys : t.evictedKeys = s.evictedKeys) :
    t.payload hashing windowStart windowEnd = s.payload hashing windowStart windowEnd := by
  have distinct : (keys (hlls s.map)).Nodup := by simpa using wf.distinct
  have lengths := same.length_eq
  rw [hlls_length, hlls_length] at lengths
  have sorted : hlls t.sorted = hlls s.sorted := by
    rw [hlls_sorted, hlls_sorted, sort_by_key_perm same distinct]
  rw [payload, payload, updates, evictedKeys, lengths, flatMap_writeSlot_hlls, sorted,
    ← flatMap_writeSlot_hlls]

/-- The map the decoder builds: the slots in the order of their keys, all caches up to date. -/
def decoded (cardinality : Cardinality F) (s : HllMap F) : HllMap F :=
  { s with map := s.sorted.map (fresh cardinality), eviction := [] }.rebuildEvictionHeap cardinality

theorem hlls_decoded (cardinality : Cardinality F) (s : HllMap F) :
    hlls (s.decoded cardinality).map = hlls s.sorted := by
  rw [decoded, hlls_rebuild]
  simp [hlls, fresh]

theorem readPayload_payload {s : HllMap F} (wf : Wf s) (sized : Sized hashing s)
    (start : windowStart < modulus) (stop : windowEnd < modulus) :
    readPayload cardinality hashing s.hash s.maxKeys s.precision
      (s.payload hashing windowStart windowEnd) = .ok (s.decoded cardinality, []) := by
  have fields : s.payload hashing windowStart windowEnd = leBytes 8 s.updates ++
      (leBytes 8 s.evictedKeys ++ (leBytes 4 s.map.length ++
        (s.sorted.flatMap (writeSlot hashing windowStart windowEnd) ++ []))) := by
    simp only [payload, List.append_assoc, List.append_nil]
  obtain ⟨count, each⟩ := flatMap_writeSlot_length hashing windowStart windowEnd s.sorted
  have same := s.sorted_perm
  have inside : (s.sorted.flatMap (writeSlot hashing windowStart windowEnd)).length < 2 ^ 32 := by
    have whole := sized.payload windowStart windowEnd
    rw [fields] at whole
    simp only [List.length_append, leBytes_length, List.length_nil] at whole
    omega
  have distinct : (keys ([] ++ s.sorted)).Nodup := (same.map Prod.fst).nodup_iff.mpr wf.distinct
  have slots := @readSlots_slots F hashing cardinality s.hash s.precision windowStart windowEnd _
    start stop
    (fun entry member => by have bound := each entry member; omega)
    (fun entry member => wf.sketches _
      (List.mem_map_of_mem (same.mem_iff.mp member))) [] distinct []
  rw [same.length_eq] at count slots
  rw [fields]
  refine (Read.bind_run (Reader.u64_leBytes wf.updates _)).trans ?_
  refine (Read.bind_run (Reader.u64_leBytes wf.evictedKeys _)).trans ?_
  refine (Read.bind_run (Reader.u32_leBytes (by omega) _)).trans ?_
  refine (Read.guard_run (Nat.not_lt.mpr wf.size) _).trans ?_
  refine (Read.bind_run (Reader.checkCount_run (by decide) ?_)).trans ?_
  · rw [List.append_nil]
    exact count
  exact Read.bind_run slots

end

def codec (hashing : Hashing) (cardinality : Cardinality F) : Codec (HllMap F) where
  algorithmId := algorithmId.hllMap
  hash := HllMap.hash
  toSnapshot := toSnapshot hashing
  fromSnapshot := fromSnapshot cardinality hashing
  same := Same

theorem same_decoded (cardinality : Cardinality F) {s : HllMap F} (wf : Wf s) :
    Same s (s.decoded cardinality) := by
  refine ⟨rfl, rfl, rfl, fun key => ?_, rfl, rfl⟩
  have perm := s.sorted_perm.symm.map (fun entry => (entry.1, entry.2.hll))
  have distinct : (keys (hlls s.map)).Nodup := by simpa using wf.distinct
  rw [hlls_decoded]
  exact (lookup_perm perm distinct key).symm

theorem decoded_wf (cardinality : Cardinality F) {s : HllMap F} (wf : Wf s) :
    Wf (s.decoded cardinality) := by
  have perm : (hlls s.sorted).Perm (hlls s.map) :=
    s.sorted_perm.map (fun entry : Bytes × HllSlot F => (entry.1, entry.2.hll))
  refine ⟨wf.maxKeys, wf.inRange, ?_, ?_, ?_, wf.evictedKeys, wf.updates⟩
  · rw [← keys_hlls, hlls_decoded, keys_hlls]
    exact (s.sorted_perm.map Prod.fst).nodup_iff.mpr wf.distinct
  · rw [← hlls_length, hlls_decoded, perm.length_eq, hlls_length]
    exact wf.size
  · rw [hlls_decoded]
    exact fun entry member => wf.sketches entry (perm.mem_iff.mp member)

theorem toSnapshot_eq_of_same {hashing : Hashing} {s t : HllMap F} (wf : Wf s)
    (distinct : (keys t.map).Nodup) (same : Same s t) (windowStart windowEnd : Nat) :
    t.toSnapshot hashing windowStart windowEnd = s.toSnapshot hashing windowStart windowEnd := by
  have perm : (hlls s.map).Perm (hlls t.map) :=
    perm_of_lookup (by simpa using wf.distinct) (by simpa using distinct)
      (fun key => (same.sketches key).symm)
  rw [toSnapshot, toSnapshot, payload_eq_of_perm wf perm same.updates same.evictedKeys, params,
    params, same.maxKeys, same.precision, same.hash]

theorem fromSnapshot_toSnapshot {hashing : Hashing} {cardinality : Cardinality F} {s : HllMap F}
    (wf : Wf s) (sized : Sized hashing s) {windowStart windowEnd : Nat}
    (start : windowStart < modulus) (stop : windowEnd < modulus) :
    fromSnapshot cardinality hashing (s.toSnapshot hashing windowStart windowEnd) =
      .ok (s.decoded cardinality) := by
  have envelope := read_sketch hashing (by decide : algorithmId.hllMap < 2 ^ 16) s.hash start
    stop (by simp [params] : s.params.length < 2 ^ 32) (sized.payload windowStart windowEnd)
  have top := wf.inRange.2
  unfold HyperLogLog.maxPrecision at top
  have fields : s.params = leBytes 8 s.maxKeys ++ (leBytes 1 s.precision ++ []) := by
    simp only [params, List.append_nil]
  have params : readParams s.params = .ok ((s.maxKeys, s.precision), []) := by
    rw [fields]
    refine (Read.bind_run (Reader.u64_leBytes sized.maxKeys _)).trans ?_
    exact Read.bind_run (Reader.u8_leBytes (by omega) _)
  unfold fromSnapshot toSnapshot
  simp only [envelope, params, readPayload_payload wf sized start stop, bind, Except.bind, ne_eq,
    not_true_eq_false, if_false, wf.maxKeys.ne', wf.inRange, and_self]
  rfl

theorem roundTrips {hashing : Hashing} {cardinality : Cardinality F} {s : HllMap F} (wf : Wf s)
    (sized : Sized hashing s) {windowStart windowEnd : Nat} (start : windowStart < modulus)
    (stop : windowEnd < modulus) :
    (codec hashing cardinality).RoundTrips hashing Wf s windowStart windowEnd where
  decodes := by
    have same := same_decoded cardinality wf
    exact ⟨_, fromSnapshot_toSnapshot wf sized start stop, same,
      toSnapshot_eq_of_same wf (decoded_wf cardinality wf).distinct same _ _⟩
  layout t valid same := toSnapshot_eq_of_same wf valid.distinct same _ _
  header := ⟨_, _, read_sketch hashing (by decide) s.hash start stop (by simp [params])
    (sized.payload windowStart windowEnd)⟩

end FlowSketch.Source.HllMap
