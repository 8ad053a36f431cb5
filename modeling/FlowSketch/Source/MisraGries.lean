import FlowSketch.Lib.AssocMap
import FlowSketch.Source.Core.Wire

/-!
# Misra-Gries

`crates/flowsketch-algos/src/misra_gries.rs`. The counters are a hash map; the list order stands for
the order in which it iterates. `none` is a panic.
-/

namespace FlowSketch.Source
open Lib.Octets Lib.Word64 Source.Core

structure MisraGries where
  capacity : Nat
  hash : HashSpec
  counters : List (Bytes × Nat)
  totalWeight : Nat
  updates : Nat
  deriving DecidableEq, Repr

namespace MisraGries

def algorithm : String := "misra-gries"

def new (capacity : Nat) (hash : HashSpec) : Except SketchError MisraGries :=
  if capacity = 0 then .error (.invalidParam "misra-gries capacity must be positive")
  else .ok { capacity, hash, counters := [], totalWeight := 0, updates := 0 }

/-- `retain` after subtracting: a counter at zero is dropped. -/
def decrement (dec : Nat) (counters : List (Bytes × Nat)) : List (Bytes × Nat) :=
  (counters.map (fun (key, count) => (key, count - min count dec))).filter (fun entry => entry.2 > 0)

/-- The branch of `add` for a full summary; no counter is below the minimum, so `*c -= dec` does not
underflow. -/
def displace (s : MisraGries) (key : Bytes) (weight : Nat) : Option (List (Bytes × Nat)) := do
  let least ← (s.counters.map Prod.snd).min? -- "capacity > 0"
  let dec := min least weight
  let counters := decrement dec s.counters
  let leftover := weight - dec
  if leftover > 0 ∧ counters.length < s.capacity then
    return Lib.AssocMap.insert key leftover counters
  else return counters

def add (s : MisraGries) (key : Bytes) (weight : Nat) : Option MisraGries := do
  let s := { s with totalWeight := wrappingAdd s.totalWeight weight,
                    updates := wrappingAdd s.updates 1 }
  match s.counters.lookup key with
  | some count =>
    return { s with counters := Lib.AssocMap.insert key (wrappingAdd count weight) s.counters }
  | none =>
    if s.counters.length < s.capacity then
      return { s with counters := Lib.AssocMap.insert key weight s.counters }
    else
      let counters ← s.displace key weight
      return { s with counters }

def get (s : MisraGries) (key : Bytes) : Option Nat := s.counters.lookup key

/-- `while counters.len() > capacity`; every round drops at least the least counter, so as many
rounds as counters suffice. -/
def trimToCapacity (capacity : Nat) : Nat → List (Bytes × Nat) → List (Bytes × Nat)
  | 0, counters => counters
  | rounds + 1, counters =>
    if counters.length > capacity then
      let excess := counters.length - capacity
      let counts := (counters.map Prod.snd).mergeSort (· ≤ ·)
      trimToCapacity capacity rounds (decrement (counts.getD (excess - 1) 0) counters)
    else counters

def paramsHash (hashing : Hashing) (s : MisraGries) : UInt64 :=
  hashing.hash64 (leBytes 8 s.capacity) 0

def compatibility (hashing : Hashing) (s : MisraGries) : SketchCompatibility :=
  { algorithm, version := 1, hash := s.hash, paramsHash := s.paramsHash hashing }

/-- `*self.counters.entry(k).or_insert(0) += c`, over the other map. -/
def addAll (mine theirs : List (Bytes × Nat)) : List (Bytes × Nat) :=
  theirs.foldl (fun counters (key, count) =>
    Lib.AssocMap.insert key (wrappingAdd ((counters.lookup key).getD 0) count) counters) mine

def mergeFrom (hashing : Hashing) (self other : MisraGries) : Except SketchError MisraGries := do
  (self.compatibility hashing).ensureMatches (other.compatibility hashing)
  let summed := addAll self.counters other.counters
  return { self with counters := trimToCapacity self.capacity summed.length summed,
                     totalWeight := wrappingAdd self.totalWeight other.totalWeight,
                     updates := wrappingAdd self.updates other.updates }

def reset (s : MisraGries) : MisraGries := { s with counters := [], totalWeight := 0, updates := 0 }

def updateCount (s : MisraGries) : Nat := s.updates

/-! ## Snapshots -/

/-- The counters in the order of their keys. -/
def sorted (s : MisraGries) : List (Bytes × Nat) :=
  s.counters.mergeSort (fun left right => left.1 ≤ right.1)

def writeCounter (entry : Bytes × Nat) : Bytes :=
  Reader.writeLpBytes entry.1 ++ leBytes 8 entry.2

def payload (s : MisraGries) : Bytes :=
  leBytes 8 s.totalWeight ++ leBytes 8 s.updates ++ leBytes 4 s.counters.length ++
    s.sorted.flatMap writeCounter

def toSnapshot (hashing : Hashing) (s : MisraGries) (windowStart windowEnd : Nat) : Bytes :=
  writeSnapshot hashing
    { version := snapshotVersion, algorithmId := algorithmId.misraGries, hash := s.hash,
      windowStartNanos := windowStart, windowEndNanos := windowEnd }
    (leBytes 8 s.capacity) s.payload

/-- The decoding loop; a repeated key overwrites the earlier count. -/
def readCounters : Nat → List (Bytes × Nat) → Read (List (Bytes × Nat))
  | 0, counters => return counters
  | n + 1, counters => do
    let key ← Reader.lpBytes
    let count ← Reader.u64
    readCounters n (Lib.AssocMap.insert key count counters)

def readPayload (hash : HashSpec) (capacity : Nat) : Read MisraGries := do
  let totalWeight ← Reader.u64
  let updates ← Reader.u64
  let n ← Reader.u32
  if n > capacity then
    Reader.fail ("misra-gries snapshot counter count " ++ toString n ++ " exceeds capacity " ++
      toString capacity)
  -- Each counter encodes at least a u32 key length + u64 count.
  Reader.checkCount n (4 + 8)
  let counters ← readCounters n []
  return { capacity, hash, counters, totalWeight, updates }

def fromSnapshot (hashing : Hashing) (bytes : Bytes) : Except SketchError MisraGries := do
  let (header, params, payload) ← readSnapshot hashing bytes
  if header.algorithmId ≠ algorithmId.misraGries then
    throw (.snapshot "not a misra-gries snapshot")
  let (capacity, _) ← Reader.u64 params
  if capacity = 0 then
    throw (.snapshot "misra-gries snapshot capacity must be positive")
  let (summary, _) ← readPayload header.hash capacity payload
  return summary

end MisraGries

end FlowSketch.Source
