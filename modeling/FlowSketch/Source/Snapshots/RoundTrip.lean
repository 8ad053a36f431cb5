import FlowSketch.Source.Snapshots.Tables
import FlowSketch.Source.Snapshots.Levels
import FlowSketch.Source.Snapshots.Counters
import FlowSketch.Source.Snapshots.Summaries
import FlowSketch.Source.Snapshots.Keyed

/-!
# The snapshots of the seven sketches

For every digest, a sketch that updates and merges lead to survives its snapshot. Merges of
HyperLogLogs, inside an HLLMap or not, have to be between sketches of one precision: the code compares
digests of the precision, and registers of a lower precision can be too high for the decoder.
-/

namespace FlowSketch.Source.Core

theorem Codec.RoundTrips.restrict {S : Type} {codec : Codec S} {hashing : Hashing}
    {valid valid' : S → Prop} {s : S} {windowStart windowEnd : Nat}
    (trip : codec.RoundTrips hashing valid s windowStart windowEnd)
    (stronger : ∀ t, valid' t → valid t) :
    codec.RoundTrips hashing valid' s windowStart windowEnd :=
  ⟨trip.decodes, fun t holds => trip.layout t (stronger t holds), trip.header⟩

end FlowSketch.Source.Core

namespace FlowSketch.Source.Snapshots
open Lib.Octets Lib.Word64 Source.Core

/-- Every reachable sketch that fits its length fields round-trips over every window. -/
def Survives {S : Type} (codec : Codec S) (hashing : Hashing) (reachable sized : S → Prop) : Prop :=
  ∀ s, reachable s → sized s → ∀ windowStart windowEnd, windowStart < modulus →
    windowEnd < modulus → codec.RoundTrips hashing reachable s windowStart windowEnd

theorem all_sketches_survive {F : Type} [LinearOrder F] (hashing : Hashing)
    (cardinality : Cardinality F) :
    Survives (CountMinSketch.codec hashing) hashing (CountMinSketch.Reachable hashing)
        CountMinSketch.Sized ∧
      Survives (CountSketch.codec hashing) hashing (CountSketch.Reachable hashing)
        CountSketch.Sized ∧
      Survives (HyperLogLog.codec hashing) hashing (HyperLogLog.Reachable hashing)
        (fun _ => True) ∧
      Survives (SpaceSaving.codec hashing) hashing (SpaceSaving.Updated hashing)
        SpaceSaving.Sized ∧
      Survives (MisraGries.codec hashing) hashing (MisraGries.Reachable hashing)
        MisraGries.Sized ∧
      Survives (HllMap.codec hashing cardinality) hashing (HllMap.Reachable hashing cardinality)
        (HllMap.Sized hashing) ∧
      Survives (KllSketch.codec hashing) hashing (KllSketch.Reachable hashing)
        KllSketch.Sized := by
  refine ⟨?_, ?_, ?_, ?_, ?_, ?_, ?_⟩
  · intro s run sized _ _ start stop
    exact CountMinSketch.roundTrips run.wf sized start stop
  · intro s run sized _ _ start stop
    exact CountSketch.roundTrips run.wf sized start stop
  · intro s run _ _ _ start stop
    exact HyperLogLog.roundTrips run.wf start stop
  · intro s run sized _ _ start stop
    exact (SpaceSaving.roundTrips run.fitting.wf run.bounded sized start stop).restrict
      fun _ other => other.fitting.wf
  · intro s run sized _ _ start stop
    exact (MisraGries.roundTrips run.wf sized start stop).restrict fun _ other => other.wf
  · intro s run sized _ _ start stop
    exact (HllMap.roundTrips run.wf sized start stop).restrict fun _ other => other.wf
  · intro s run sized _ _ start stop
    exact KllSketch.roundTrips run.wf sized start stop

/-- A digest that tells only the empty string apart. -/
def emptyOrNot : Hashing :=
  { hash64 := fun octets _ => if octets = [] then 1 else 0
    rowHash := fun _ _ _ => 0, signHash := fun _ _ _ => 0 }

/-- Two keys in sixteen registers. -/
def narrow : HyperLogLog :=
  ({ precision := 4, hash := HashSpec.new 0, storage := .empty, updates := 0 } : HyperLogLog)
    |>.insert emptyOrNot [] |>.insert emptyOrNot [1]

theorem narrow_reachable : HyperLogLog.Reachable emptyOrNot narrow := by
  have created : HyperLogLog.new 4 (HashSpec.new 0) = .ok
      { precision := 4, hash := HashSpec.new 0, storage := .empty, updates := 0 } := rfl
  exact .insert (.insert (.new created) []) [1]

theorem narrow_survives : ∃ t,
    HyperLogLog.fromSnapshot emptyOrNot (narrow.toSnapshot emptyOrNot 10 20) = .ok t ∧
      narrow = t := by
  have cardinality : Cardinality Nat := ⟨fun s => s.updates, 1⟩
  obtain ⟨_, _, hll, _⟩ := all_sketches_survive emptyOrNot cardinality
  have trip := hll narrow narrow_reachable trivial 10 20 (by decide) (by decide)
  obtain ⟨t, decoded, same, _⟩ := trip.decodes
  exact ⟨t, decoded, same⟩

/-- The same registers in a sketch of the next precision. -/
def widened : HyperLogLog :=
  { precision := 5, hash := HashSpec.new 0, storage := .dense (61 :: List.replicate 31 0), updates := 2 }

/-- A merge across precisions that the digests let through leaves a register the decoder refuses. -/
theorem mixed_precision_refused :
    HyperLogLog.Reachable emptyOrNot narrow ∧
      (∃ wide, HyperLogLog.new 5 (HashSpec.new 0) = .ok wide ∧
        wide.mergeFrom emptyOrNot narrow = .ok widened) ∧
      ∀ s, HyperLogLog.fromSnapshot emptyOrNot (widened.toSnapshot emptyOrNot 0 0) ≠ .ok s := by
  refine ⟨narrow_reachable, ⟨_, rfl, by decide +kernel⟩, ?_⟩
  have refused : (HyperLogLog.fromSnapshot emptyOrNot
      (widened.toSnapshot emptyOrNot 0 0)).toOption = none := by
    decide +kernel
  intro s decoded
  rw [decoded] at refused
  cases refused

end FlowSketch.Source.Snapshots
