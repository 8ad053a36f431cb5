import FlowSketch.Source.Core.Wire
import FlowSketch.Source.Kll.Levels

/-!
# Snapshots of KLL sketches

Every level is written with its length. The decoder takes at most sixty-four levels, more than a
sketch of fewer than `2^48` items ever has.
-/

namespace FlowSketch.Source.KllSketch
open Lib.Octets Lib.Word64 Source.Core

/-- `k` is a `usize`, and the payload fits the 32 bits its length is written with. -/
structure Sized (s : KllSketch) : Prop where
  k : s.k < modulus
  n : s.n < 2 ^ 48
  payload : s.payload.length < 2 ^ 32

theorem writeLevel_length (items : List Nat) : (writeLevel items).length = 4 + items.length * 8 := by
  rw [writeLevel, List.length_append, leBytes_length, Reader.writeU64s_length]

theorem flatMap_writeLevel_length (levels : List (List Nat)) :
    levels.length * 4 ≤ (levels.flatMap writeLevel).length ∧
      ∀ items ∈ levels, items.length * 8 ≤ (levels.flatMap writeLevel).length := by
  induction levels with
  | nil => simp
  | cons items rest ih =>
    rw [List.flatMap_cons, List.length_append, writeLevel_length, List.length_cons,
      List.forall_mem_cons]
    refine ⟨by omega, by omega, fun other member => ?_⟩
    have bound := ih.2 other member
    omega

theorem readLevels_levels {levels : List (List Nat)} (short : ∀ items ∈ levels, items.length < 2 ^ 32)
    (words : ∀ items ∈ levels, ∀ item ∈ items, item < modulus) (rest : Bytes) :
    readLevels levels.length (levels.flatMap writeLevel ++ rest) = .ok (levels, rest) := by
  induction levels with
  | nil => rfl
  | cons items levels ih =>
    rw [List.forall_mem_cons] at short words
    have fields : (items :: levels).flatMap writeLevel ++ rest = leBytes 4 items.length ++
        (Reader.writeU64s items ++ (levels.flatMap writeLevel ++ rest)) := by
      simp only [List.flatMap_cons, writeLevel, List.append_assoc]
    have enough : items.length * 8 ≤
        (Reader.writeU64s items ++ (levels.flatMap writeLevel ++ rest)).length := by
      rw [List.length_append, Reader.writeU64s_length]
      omega
    rw [fields]
    refine (Read.bind_run (Reader.u32_leBytes short.1 _)).trans ?_
    refine (Read.bind_run (Reader.checkCount_run (by decide) enough)).trans ?_
    refine (Read.bind_run (Reader.u64s_writeU64s words.1 _)).trans ?_
    exact Read.bind_run (ih short.2 words.2)

/-- The decoder takes any words on at most sixty-four levels. -/
theorem readPayload_payload {s : KllSketch} (shape : Shape s) (few : s.levels.length ≤ maxLevels)
    (fits : s.payload.length < 2 ^ 32) :
    readPayload s.hash s.k s.payload = .ok (s, []) := by
  have fields : s.payload = leBytes 8 s.n ++ (leBytes 8 s.rngState.toNat ++ (leBytes 8 s.updates ++
      (leBytes 4 s.levels.length ++ (s.levels.flatMap writeLevel ++ [])))) := by
    simp only [payload, List.append_assoc, List.append_nil]
  obtain ⟨count, each⟩ := flatMap_writeLevel_length s.levels
  have inside : (s.levels.flatMap writeLevel).length < 2 ^ 32 := by
    have whole := fits
    rw [fields] at whole
    simp only [List.length_append, leBytes_length, List.length_nil] at whole
    omega
  have enough : s.levels.length * 4 ≤ (s.levels.flatMap writeLevel ++ []).length := by
    rw [List.append_nil]
    omega
  have levels := readLevels_levels
    (fun items member => by have bound := each items member; omega) shape.items []
  have nonempty : s.levels.isEmpty = false := by
    rw [List.isEmpty_eq_false_iff]
    exact List.length_pos_iff.mp shape.some_level
  rw [fields]
  refine (Read.bind_run (Reader.u64_leBytes shape.n _)).trans ?_
  refine (Read.bind_run (Reader.u64_leBytes s.rngState.toNat_lt _)).trans ?_
  refine (Read.bind_run (Reader.u64_leBytes shape.updates _)).trans ?_
  refine (Read.bind_run (Reader.u32_leBytes (by unfold maxLevels at few; omega) _)).trans ?_
  refine (Read.guard_run (Nat.not_lt.mpr few) _).trans ?_
  refine (Read.bind_run (Reader.checkCount_run (by decide) enough)).trans ?_
  refine (Read.bind_run levels).trans ?_
  simp only [nonempty, Bool.false_eq_true, if_false, UInt64.ofNat_toNat]
  rfl

def codec (hashing : Hashing) : Codec KllSketch where
  algorithmId := algorithmId.kll
  hash := KllSketch.hash
  toSnapshot := toSnapshot hashing
  fromSnapshot := fromSnapshot hashing
  same := Eq

theorem fromSnapshot_toSnapshot {hashing : Hashing} {s : KllSketch} (shape : Shape s)
    (few : s.levels.length ≤ maxLevels) (word : s.k < modulus) (fits : s.payload.length < 2 ^ 32)
    {windowStart windowEnd : Nat} (start : windowStart < modulus) (stop : windowEnd < modulus) :
    fromSnapshot hashing (s.toSnapshot hashing windowStart windowEnd) = .ok s := by
  have envelope := read_sketch hashing (by decide : algorithmId.kll < 2 ^ 16) s.hash start stop
    (by simp : (leBytes 8 s.k).length < 2 ^ 32) fits
  have params := Reader.u64_leBytes word []
  rw [List.append_nil] at params
  unfold fromSnapshot toSnapshot
  simp only [envelope, params, readPayload_payload shape few fits, bind, Except.bind, ne_eq,
    not_true_eq_false, if_false, Nat.not_lt.mpr shape.k]
  rfl

theorem roundTrips {hashing : Hashing} {valid : KllSketch → Prop} {s : KllSketch} (wf : Wf s)
    (sized : Sized s) {windowStart windowEnd : Nat} (start : windowStart < modulus)
    (stop : windowEnd < modulus) :
    (codec hashing).RoundTrips hashing valid s windowStart windowEnd :=
  .of_eq (fun _ _ => Iff.rfl)
    (fromSnapshot_toSnapshot wf.toShape (wf.levels_le sized.n) sized.k sized.payload start stop)
    ⟨_, _, read_sketch hashing (by decide) s.hash start stop (by simp) sized.payload⟩

end FlowSketch.Source.KllSketch
