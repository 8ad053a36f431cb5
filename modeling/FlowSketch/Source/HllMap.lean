import FlowSketch.Lib.AssocMap
import FlowSketch.Source.HyperLogLog
import FlowSketch.Source.Core.Wire

/-!
# HLLMap

`crates/flowsketch-algos/src/hll_map.rs`: a bounded hash map from group keys to HyperLogLogs. The
estimated cardinality of a HyperLogLog is floating point in the source; here it is any function into
a linear order, which stands for `f64::total_cmp`. The map is a list of pairs in one of its iteration
orders, and the eviction heap a list from which the least pair of cardinality and key is popped.
-/

namespace FlowSketch.Source
open Lib.Octets Lib.Word64 Source.Core

/-- `HyperLogLog::cardinality` and the constant `1.0`. -/
structure Cardinality (F : Type) where
  of : HyperLogLog → F
  one : F

structure HllSlot (F : Type) where
  hll : HyperLogLog
  cachedCardinality : F
  dirty : Bool

structure HllMap (F : Type) where
  maxKeys : Nat
  precision : Nat
  hash : HashSpec
  map : List (Bytes × HllSlot F)
  eviction : List (F ×ₗ Bytes)
  evictedKeys : Nat
  updates : Nat

namespace HllMap

def algorithm : String := "hllmap"

variable {F : Type}

def new (maxKeys precision : Nat) (hash : HashSpec) : Except SketchError (HllMap F) := do
  if maxKeys = 0 then throw (.invalidParam "hllmap max_keys must be positive")
  let _ ← HyperLogLog.new precision hash
  return { maxKeys, precision, hash, map := [], eviction := [], evictedKeys := 0, updates := 0 }

section

variable [LinearOrder F] (cardinality : Cardinality F)

/-- `BinaryHeap::pop` on the reversed order: the least candidate. -/
def popLeast (heap : List (F ×ₗ Bytes)) : Option ((F ×ₗ Bytes) × List (F ×ₗ Bytes)) :=
  heap.min?.map (fun least => (least, heap.erase least))

/-- The eviction loop. A stale candidate is refreshed at most once, so one round more than there are
candidates suffices; `none` is the panic of an empty heap. -/
def evictLoop : Nat → HllMap F → Option (HllMap F)
  | 0, _ => none
  | rounds + 1, s =>
    match popLeast s.eviction with
    | none => none -- "a full HLLMap has an eviction candidate per slot"
    | some (candidate, eviction) =>
      let key := (ofLex candidate).2
      match s.map.lookup key with
      | none => evictLoop rounds { s with eviction }
      | some slot =>
        if slot.dirty ∨ slot.cachedCardinality ≠ (ofLex candidate).1 then
          let current := cardinality.of slot.hll
          evictLoop rounds
            { s with map := Lib.AssocMap.insert key
                       { slot with cachedCardinality := current, dirty := false } s.map
                     eviction := toLex (current, key) :: eviction }
        else
          some { s with map := s.map.filter (fun entry => entry.1 ≠ key), eviction
                        evictedKeys := wrappingAdd s.evictedKeys 1 }

def evictSmallest (s : HllMap F) : Option (HllMap F) :=
  evictLoop cardinality (s.eviction.length + 1) s

/-- `if self.map.len() >= self.max_keys` of `insert`. -/
def makeRoom (s : HllMap F) : Option (HllMap F) :=
  if s.map.length ≥ s.maxKeys then s.evictSmallest cardinality else some s

/-- Record that `key` saw distinct `item`. -/
protected def insert (hashing : Hashing) (s : HllMap F) (key item : Bytes) : Option (HllMap F) := do
  let s := { s with updates := wrappingAdd s.updates 1 }
  match s.map.lookup key with
  | some slot =>
    return { s with map := Lib.AssocMap.insert key
                      { slot with hll := slot.hll.insert hashing item, dirty := true } s.map }
  | none =>
    let s ← s.makeRoom cardinality
    let hll ← (HyperLogLog.new s.precision s.hash).toOption -- "validated params"
    return { s with map := Lib.AssocMap.insert key
                      { hll := hll.insert hashing item, cachedCardinality := cardinality.one
                        dirty := false } s.map
                    eviction := toLex (cardinality.one, key) :: s.eviction }

def rebuildEvictionHeap (s : HllMap F) : HllMap F :=
  let refresh (slot : HllSlot F) : HllSlot F :=
    { slot with cachedCardinality := cardinality.of slot.hll, dirty := false }
  { s with map := s.map.map (fun (key, slot) => (key, refresh slot))
           eviction := s.map.map (fun (key, slot) => toLex (cardinality.of slot.hll, key)) }

def paramsHash (hashing : Hashing) (s : HllMap F) : UInt64 :=
  hashing.hash64 (leBytes 8 s.maxKeys ++ leBytes 1 s.precision) 0

def compatibility (hashing : Hashing) (s : HllMap F) : SketchCompatibility :=
  { algorithm, version := 1, hash := s.hash, paramsHash := s.paramsHash hashing }

/-- The loop of `merge_from` over the other map. An inner merge that fails leaves the keys before it
merged. -/
def mergeEntries (hashing : Hashing) :
    List (Bytes × HllSlot F) → HllMap F → Except SketchError Unit × HllMap F
  | [], s => (.ok (), s)
  | (key, theirs) :: rest, s =>
    match s.map.lookup key with
    | some mine =>
      match mine.hll.mergeFrom hashing theirs.hll with
      | .ok hll =>
        mergeEntries hashing rest
          { s with map := Lib.AssocMap.insert key { mine with hll, dirty := true } s.map }
      | .error e => (.error e, s)
    | none =>
      mergeEntries hashing rest { s with map := Lib.AssocMap.insert key theirs s.map }

/-- `while self.map.len() > self.max_keys`; every eviction removes a key. -/
def trim : Nat → HllMap F → Option (HllMap F)
  | 0, s => some s
  | rounds + 1, s =>
    if s.map.length > s.maxKeys then do
      let s ← s.evictSmallest cardinality
      trim rounds s
    else some s

/-- The result of the call and the map it leaves behind. -/
def mergeInto (hashing : Hashing) (self other : HllMap F) :
    Option (Except SketchError Unit × HllMap F) :=
  match (self.compatibility hashing).ensureMatches (other.compatibility hashing) with
  | .error e => some (.error e, self)
  | .ok () =>
    match mergeEntries hashing other.map self with
    | (.error e, s) => some (.error e, s)
    | (.ok (), s) => do
      let s := s.rebuildEvictionHeap cardinality
      let s ← trim cardinality s.map.length s
      return (.ok (), { s with evictedKeys := wrappingAdd s.evictedKeys other.evictedKeys
                               updates := wrappingAdd s.updates other.updates })

def reset (s : HllMap F) : HllMap F :=
  { s with map := [], eviction := [], evictedKeys := 0, updates := 0 }

def updateCount (s : HllMap F) : Nat := s.updates

/-! ## Snapshots -/

/-- The slots in the order of their keys. -/
def sorted (s : HllMap F) : List (Bytes × HllSlot F) :=
  s.map.mergeSort (fun left right => left.1 ≤ right.1)

def params (s : HllMap F) : Bytes := leBytes 8 s.maxKeys ++ leBytes 1 s.precision

def writeSlot (hashing : Hashing) (windowStart windowEnd : Nat) (entry : Bytes × HllSlot F) : Bytes :=
  Reader.writeLpBytes entry.1 ++
    Reader.writeLpBytes (entry.2.hll.toSnapshot hashing windowStart windowEnd)

def payload (hashing : Hashing) (s : HllMap F) (windowStart windowEnd : Nat) : Bytes :=
  leBytes 8 s.updates ++ leBytes 8 s.evictedKeys ++ leBytes 4 s.map.length ++
    s.sorted.flatMap (writeSlot hashing windowStart windowEnd)

def toSnapshot (hashing : Hashing) (s : HllMap F) (windowStart windowEnd : Nat) : Bytes :=
  writeSnapshot hashing
    { version := snapshotVersion, algorithmId := algorithmId.hllMap, hash := s.hash,
      windowStartNanos := windowStart, windowEndNanos := windowEnd }
    s.params (s.payload hashing windowStart windowEnd)

def readParams : Read (Nat × Nat) := do
  let maxKeys ← Reader.u64
  let precision ← Reader.u8
  return (maxKeys, precision)

/-- The decoding loop; a repeated key overwrites the earlier slot. -/
def readSlots (hashing : Hashing) (hash : HashSpec) (precision : Nat) :
    Nat → List (Bytes × HllSlot F) → Read (List (Bytes × HllSlot F))
  | 0, slots => return slots
  | n + 1, slots => do
    let key ← Reader.lpBytes
    let inner ← Reader.lpBytes
    let hll ← (HyperLogLog.fromSnapshot hashing inner : Except SketchError HyperLogLog)
    if hll.precision ≠ precision then
      Reader.fail ("hllmap inner hll precision " ++ toString hll.precision ++
        " does not match outer precision " ++ toString precision)
    if hll.hash ≠ hash then
      Reader.fail "hllmap inner hll hash does not match outer hash"
    readSlots hashing hash precision n
      (Lib.AssocMap.insert key
        { hll, cachedCardinality := cardinality.of hll, dirty := false } slots)

def readPayload (hashing : Hashing) (hash : HashSpec) (maxKeys precision : Nat) :
    Read (HllMap F) := do
  let updates ← Reader.u64
  let evictedKeys ← Reader.u64
  let n ← Reader.u32
  if n > maxKeys then
    Reader.fail ("hllmap snapshot entry count " ++ toString n ++ " exceeds max_keys " ++
      toString maxKeys)
  -- Each entry encodes at least two u32 length prefixes (key + inner HLL snapshot).
  Reader.checkCount n (4 + 4)
  let map ← readSlots cardinality hashing hash precision n []
  let result : HllMap F := { maxKeys, precision, hash, map, eviction := [], evictedKeys, updates }
  return result.rebuildEvictionHeap cardinality

def fromSnapshot (hashing : Hashing) (bytes : Bytes) : Except SketchError (HllMap F) := do
  let (header, params, payload) ← readSnapshot hashing bytes
  if header.algorithmId ≠ algorithmId.hllMap then
    throw (.snapshot "not an hllmap snapshot")
  let ((maxKeys, precision), _) ← readParams params
  if maxKeys = 0 then
    throw (.snapshot "hllmap snapshot max_keys must be positive")
  if ¬(HyperLogLog.minPrecision ≤ precision ∧ precision ≤ HyperLogLog.maxPrecision) then
    throw (.snapshot ("hllmap snapshot precision must be in " ++ HyperLogLog.precisionRange ++
      ", got " ++ toString precision))
  let (map, _) ← readPayload cardinality hashing header.hash maxKeys precision payload
  return map

end

end HllMap

end FlowSketch.Source
