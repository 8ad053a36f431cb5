import FlowSketch.Source.HyperLogLog.Canonical
import FlowSketch.Source.Core.Wire

/-!
# Snapshots of HyperLogLogs

A sketch that insertions and merges built is the canonical one of its hashes, so its snapshot lists
sorted hashes below the sparse limit or registers in range, and both are accepted.
-/

namespace FlowSketch.Source.HyperLogLog
open Lib.Octets Lib.Word64 Source.Core

/-- Merging compares a digest of the precision; here the precisions themselves agree. -/
inductive Reachable (hashing : Hashing) : HyperLogLog → Prop
  | new {precision : Nat} {hash : HashSpec} {s : HyperLogLog}
      (created : HyperLogLog.new precision hash = .ok s) : Reachable hashing s
  | insert {s : HyperLogLog} (before : Reachable hashing s) (key : Bytes) :
      Reachable hashing (s.insert hashing key)
  | merge {s other t : HyperLogLog} (before : Reachable hashing s)
      (argument : Reachable hashing other) (precision : other.precision = s.precision)
      (merged : s.mergeFrom hashing other = .ok t) : Reachable hashing t

/-- The sketch of some set of hashes. -/
structure Wf (s : HyperLogLog) : Prop where
  inRange : minPrecision ≤ s.precision ∧ s.precision ≤ maxPrecision
  form : ∃ hashes, s.storage = storageOf s.precision hashes
  updates : s.updates < modulus

theorem mergeFrom_hash {hashing : Hashing} {s other t : HyperLogLog}
    (merged : s.mergeFrom hashing other = .ok t) : other.hash = s.hash := by
  obtain ⟨_, compatible, _⟩ := bind_ok merged
  have same := (SketchCompatibility.ensureMatches_ok_iff _ _).mp compatible
  exact (congrArg SketchCompatibility.hash same).symm

theorem mergeFrom_total (hashing : Hashing) {s other : HyperLogLog}
    (precision : other.precision = s.precision) (hash : other.hash = s.hash) :
    ∃ t, s.mergeFrom hashing other = .ok t := by
  have compatible : (s.compatibility hashing).ensureMatches (other.compatibility hashing) =
      .ok () := by
    rw [SketchCompatibility.ensureMatches_ok_iff]
    simp only [compatibility, paramsHash, precision, hash]
  unfold mergeFrom
  rw [compatible]
  exact ⟨_, rfl⟩

theorem Wf.insert {s : HyperLogLog} (wf : Wf s) (hashing : Hashing) (key : Bytes) :
    Wf (s.insert hashing key) := by
  obtain ⟨hashes, form⟩ := wf.form
  have setup := insertHash_setup { s with updates := wrappingAdd s.updates 1 }
    (hashing.hash64 key s.hash.seed)
  have ticked : { s with updates := wrappingAdd s.updates 1 }.storage =
      storageOf s.precision hashes := form
  have storage := insertHash_storage ticked (hashing.hash64 key s.hash.seed)
  have precision : (s.insert hashing key).precision = s.precision := setup.precision
  refine ⟨by rw [precision]; exact wf.inRange, ⟨_, by rw [precision]; exact storage⟩, ?_⟩
  have updates : (s.insert hashing key).updates = wrappingAdd s.updates 1 := setup.updates
  rw [updates]
  exact wrappingAdd_lt _ _

theorem Wf.merge {hashing : Hashing} {s other t : HyperLogLog} (left : Wf s) (right : Wf other)
    (precision : other.precision = s.precision) (merged : s.mergeFrom hashing other = .ok t) :
    Wf t ∧ t.precision = s.precision ∧ t.hash = s.hash := by
  obtain ⟨mine, formLeft⟩ := left.form
  obtain ⟨theirs, formRight⟩ := right.form
  rw [precision] at formRight
  obtain ⟨setup, storage⟩ := mergeStorage_storage formLeft formRight
  obtain ⟨_, _, result⟩ := bind_ok merged
  cases result
  refine ⟨⟨?_, ⟨mine ∪ theirs, ?_⟩, wrappingAdd_lt _ _⟩, setup.precision, setup.hash⟩
  · show minPrecision ≤ (s.mergeStorage other).precision ∧ _
    rw [setup.precision]
    exact left.inRange
  · show (s.mergeStorage other).storage = storageOf (s.mergeStorage other).precision _
    rw [setup.precision, storage]

theorem new_wf {precision : Nat} {hash : HashSpec} {s : HyperLogLog}
    (created : HyperLogLog.new precision hash = .ok s) :
    Wf s ∧ s = { precision, hash, storage := .empty, updates := 0 } := by
  unfold HyperLogLog.new at created
  split at created
  · cases created
  next inRange =>
    cases created
    refine ⟨⟨not_not.mp inRange, ⟨∅, ?_⟩, modulus_pos⟩, rfl⟩
    have few : (∅ : Finset UInt64).card ≤ sparseLimit precision := Nat.zero_le _
    simp only [storageOf, if_pos few, Finset.sort_empty, exactStorage]

theorem Reachable.wf {hashing : Hashing} {s : HyperLogLog} (run : Reachable hashing s) : Wf s := by
  induction run with
  | new created => exact (new_wf created).1
  | insert _ key wf => exact wf.insert hashing key
  | merge _ _ precision merged left right => exact (left.merge right precision merged).1

/-! ## Sparse payloads -/

theorem readHashes_sorted {list : List UInt64} (sorted : list.Pairwise (· < ·))
    (previous : Option Nat) (above : ∀ p ∈ previous, ∀ hash ∈ list, p < hash.toNat) (rest : Bytes) :
    readHashes list.length previous (list.flatMap (fun hash => leBytes 8 hash.toNat) ++ rest) =
      .ok (list, rest) := by
  induction list generalizing previous with
  | nil => rfl
  | cons hash list ih =>
    obtain ⟨least, sorted⟩ := List.pairwise_cons.mp sorted
    have ordered : ¬(previous.any (fun previous => previous ≥ hash.toNat)) = true := by
      cases previous with
      | none => simp
      | some p => simpa using above p rfl hash List.mem_cons_self
    have tail := ih sorted (some hash.toNat) (by
      intro p same other member
      obtain rfl := Option.some.inj same
      exact UInt64.lt_iff_toNat_lt.mp (least other member))
    rw [List.flatMap_cons, List.append_assoc]
    refine (Read.bind_run (Reader.u64_leBytes hash.toNat_lt _)).trans ?_
    refine (Read.guard_run ordered _).trans ?_
    refine (Read.bind_run tail).trans ?_
    rw [UInt64.ofNat_toNat]
    rfl

def sparseBytes (list : List UInt64) : Bytes :=
  leBytes 4 list.length ++ list.flatMap (fun hash => leBytes 8 hash.toNat)

theorem flatMap_leBytes_length (list : List UInt64) :
    (list.flatMap (fun hash => leBytes 8 hash.toNat)).length = list.length * 8 := by
  induction list with
  | nil => rfl
  | cons hash rest ih =>
    rw [List.flatMap_cons, List.length_append, ih, leBytes_length, List.length_cons]
    omega

theorem sparseLimit_le {precision : Nat} (top : precision ≤ maxPrecision) :
    sparseLimit precision ≤ 2 ^ 13 := by
  have bounded : 2 ^ precision ≤ 2 ^ 18 := Nat.pow_le_pow_right (by decide) top
  unfold sparseLimit sparseMemoryFraction
  omega

theorem readSparse_sparseBytes {precision : Nat} (top : precision ≤ maxPrecision)
    {list : List UInt64} (sorted : list.Pairwise (· < ·))
    (few : list.length ≤ sparseLimit precision) :
    readSparse precision (sparseBytes list) = .ok (exactStorage list, []) := by
  have small := sparseLimit_le top
  have enough : list.length * 8 ≤
      (list.flatMap (fun (hash : UInt64) => leBytes 8 hash.toNat) ++ []).length := by
    rw [List.append_nil, flatMap_leBytes_length]
  rw [sparseBytes, ← List.append_nil (list.flatMap _)]
  refine (Read.bind_run (Reader.u32_leBytes (by omega) _)).trans ?_
  refine (Read.guard_run (Nat.not_lt.mpr few) _).trans ?_
  refine (Read.bind_run (Reader.checkCount_run (by decide) enough)).trans ?_
  refine (Read.bind_run (readHashes_sorted sorted none (by simp) [])).trans ?_
  unfold exactStorage
  rcases list with _ | ⟨first, _ | ⟨second, rest⟩⟩ <;> rfl

/-! ## Dense payloads -/

theorem registersOf_bounded {precision : Nat} {hashes : Finset UInt64} :
    ∀ register ∈ registersOf precision hashes, register ≤ 64 - precision + 1 := by
  intro register member
  obtain ⟨i, _, rfl⟩ := List.mem_map.mp member
  exact registerOf_le precision hashes i

theorem readDense_registers {precision : Nat} {registers : List Nat}
    (size : registers.length = 2 ^ precision)
    (bounded : ∀ register ∈ registers, register ≤ 64 - precision + 1) :
    readDense precision (registers.map UInt8.ofNat) = .ok (.dense registers, []) := by
  have taken := Reader.take_append (registers.map UInt8.ofNat) []
  rw [List.length_map, size, List.append_nil] at taken
  have back : (registers.map UInt8.ofNat).map UInt8.toNat = registers := by
    rw [List.map_map]
    refine (List.map_congr_left fun register member => ?_).trans (List.map_id _)
    have small := bounded register member
    exact UInt8.toNat_ofNat_of_lt' (by simp only [UInt8.size]; omega)
  have none_over : registers.find? (fun register => register > 64 - precision + 1) = none := by
    rw [List.find?_eq_none]
    intro register member
    simpa using bounded register member
  refine (Read.bind_run taken).trans ?_
  simp only [back, none_over]
  rfl

/-! ## The whole sketch -/

theorem payload_exact {s : HyperLogLog} {list : List UInt64} (form : s.storage = exactStorage list) :
    s.payload = leBytes 8 s.updates ++ (leBytes 1 storageSparse ++ sparseBytes list) := by
  unfold payload
  rw [form]
  rcases list with _ | ⟨first, _ | ⟨second, rest⟩⟩ <;>
    simp [exactStorage, sparseBytes, List.append_assoc]

theorem sort_pairwise_lt (hashes : Finset UInt64) : (hashes.sort (· ≤ ·)).Pairwise (· < ·) :=
  (Finset.sortedLT_sort hashes).pairwise

theorem readPayload_payload {s : HyperLogLog} (wf : Wf s) :
    readPayload s.hash s.precision s.payload = .ok (s, []) := by
  obtain ⟨hashes, form⟩ := wf.form
  have empty_left : Reader.remaining [] = .ok (0, []) := rfl
  by_cases few : hashes.card ≤ sparseLimit s.precision
  · rw [storageOf, if_pos few] at form
    have size : (hashes.sort (· ≤ ·)).length ≤ sparseLimit s.precision := by
      rw [Finset.length_sort]
      exact few
    rw [payload_exact form]
    refine (Read.bind_run (Reader.u64_leBytes wf.updates _)).trans ?_
    refine (Read.bind_run (Reader.u8_leBytes (by decide) _)).trans ?_
    refine (Read.bind_run
      (readSparse_sparseBytes wf.inRange.2 (sort_pairwise_lt hashes) size)).trans ?_
    refine (Read.bind_run empty_left).trans ?_
    rw [← form]
    rfl
  · rw [storageOf, if_neg few] at form
    have fields : s.payload = leBytes 8 s.updates ++ (leBytes 1 storageDense ++
        (registersOf s.precision hashes).map UInt8.ofNat) := by
      unfold payload
      rw [form]
    rw [fields]
    refine (Read.bind_run (Reader.u64_leBytes wf.updates _)).trans ?_
    refine (Read.bind_run (Reader.u8_leBytes (by decide) _)).trans ?_
    refine (Read.bind_run
      (readDense_registers (by simp [registersOf]) registersOf_bounded)).trans ?_
    refine (Read.bind_run empty_left).trans ?_
    rw [← form]
    rfl

theorem payload_length {s : HyperLogLog} (wf : Wf s) : s.payload.length < 2 ^ 32 := by
  obtain ⟨hashes, form⟩ := wf.form
  have top := wf.inRange.2
  have few_bytes : 2 ^ s.precision ≤ 2 ^ 18 := Nat.pow_le_pow_right (by decide) top
  have limit := sparseLimit_le top
  by_cases few : hashes.card ≤ sparseLimit s.precision
  · rw [storageOf, if_pos few] at form
    rw [payload_exact form]
    simp only [sparseBytes, List.length_append, leBytes_length, flatMap_leBytes_length,
      Finset.length_sort]
    omega
  · rw [storageOf, if_neg few] at form
    unfold payload
    rw [form]
    simp only [List.length_append, leBytes_length, List.length_map, registersOf, List.length_range]
    omega

def codec (hashing : Hashing) : Codec HyperLogLog where
  algorithmId := algorithmId.hyperLogLog
  hash := HyperLogLog.hash
  toSnapshot := toSnapshot hashing
  fromSnapshot := fromSnapshot hashing
  same := Eq

theorem readSnapshot_toSnapshot (hashing : Hashing) {s : HyperLogLog} (wf : Wf s)
    {windowStart windowEnd : Nat} (start : windowStart < modulus) (stop : windowEnd < modulus) :
    readSnapshot hashing (s.toSnapshot hashing windowStart windowEnd) =
      .ok ({ version := snapshotVersion, algorithmId := algorithmId.hyperLogLog, hash := s.hash,
             windowStartNanos := windowStart, windowEndNanos := windowEnd },
           leBytes 1 s.precision, s.payload) :=
  read_sketch hashing (by decide) s.hash start stop (by simp) (payload_length wf)

theorem fromSnapshot_toSnapshot (hashing : Hashing) {s : HyperLogLog} (wf : Wf s)
    {windowStart windowEnd : Nat} (start : windowStart < modulus) (stop : windowEnd < modulus) :
    fromSnapshot hashing (s.toSnapshot hashing windowStart windowEnd) = .ok s := by
  have top := wf.inRange.2
  unfold maxPrecision at top
  have params := Reader.u8_leBytes (by omega : s.precision < 2 ^ 8) []
  rw [List.append_nil] at params
  unfold fromSnapshot
  simp only [readSnapshot_toSnapshot hashing wf start stop, params, readPayload_payload wf, bind,
    Except.bind, wf.inRange, ne_eq, not_true_eq_false, and_self, if_false]
  rfl

theorem roundTrips {hashing : Hashing} {valid : HyperLogLog → Prop} {s : HyperLogLog} (wf : Wf s)
    {windowStart windowEnd : Nat} (start : windowStart < modulus) (stop : windowEnd < modulus) :
    (codec hashing).RoundTrips hashing valid s windowStart windowEnd :=
  .of_eq (fun _ _ => Iff.rfl) (fromSnapshot_toSnapshot hashing wf start stop)
    ⟨_, _, readSnapshot_toSnapshot hashing wf start stop⟩

end FlowSketch.Source.HyperLogLog
