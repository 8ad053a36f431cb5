import FlowSketch.Lib.BinaryHeap
import FlowSketch.Lib.CounterSummary
import FlowSketch.Lib.Word64
import FlowSketch.Source.Core.Snapshot

/-!
# SpaceSaving

`crates/flowsketch-algos/src/space_saving.rs`: an arena of slots, a digest index over it and an
indexed binary heap of slot numbers, updated in place. `None` is a panic: the `expect` calls of
`remove_from_index` and `replace_min` are its only sources here, and slot reads past the arena give
the default slot. The `HashMap` is a function from digests; nothing iterates over it.
-/

namespace FlowSketch.Source
open Lib.Octets Lib.Word64 Lib.BinaryHeap Source.Core
open Lib.CounterSummary (Entry)

/-- Guaranteed (lower-bound) count. -/
def guaranteed (e : Entry) : Nat := wrappingSub e.count e.error

structure Slot where
  key : Bytes
  digest : UInt64
  entry : Entry
  heapIndex : Nat
  deriving DecidableEq, Repr, Inhabited

/-- The eviction order of slots: count, then digest, then key bytes. -/
def Slot.rank (slot : Slot) : Nat ×ₗ Nat ×ₗ Bytes :=
  toLex (slot.entry.count, toLex (slot.digest.toNat, slot.key))

inductive IndexBucket where
  | one (slot : Nat)
  | many (slots : List Nat)
  deriving DecidableEq, Repr

structure SpaceSaving where
  capacity : Nat
  hash : HashSpec
  slots : List Slot
  keyIndex : UInt64 → Option IndexBucket
  minHeap : List Nat
  totalWeight : Nat
  updates : Nat

namespace SpaceSaving

def algorithm : String := "spacesaving"

def new (capacity : Nat) (hash : HashSpec) : Except SketchError SpaceSaving :=
  if capacity = 0 then .error (.invalidParam "spacesaving capacity must be positive")
  else .ok { capacity, hash, slots := [], keyIndex := fun _ => none, minHeap := [],
             totalWeight := 0, updates := 0 }

def slotAt (s : SpaceSaving) (index : Nat) : Slot := s.slots.getD index default

def heapAt (s : SpaceSaving) (index : Nat) : Nat := s.minHeap.getD index 0

/-! ## Digest index -/

def keyDigest (hashing : Hashing) (s : SpaceSaving) (key : Bytes) : UInt64 :=
  hashing.hash64 key (s.hash.seed ^^^ 0x5350414345534156)

def findSlotWithDigest (s : SpaceSaving) (key : Bytes) (digest : UInt64) : Option Nat :=
  match s.keyIndex digest with
  | none => none
  | some (.one index) => if (s.slotAt index).key = key then some index else none
  | some (.many indices) => indices.find? (fun index => (s.slotAt index).key = key)

def findSlot (hashing : Hashing) (s : SpaceSaving) (key : Bytes) : Option Nat :=
  s.findSlotWithDigest key (s.keyDigest hashing key)

def addToIndex (s : SpaceSaving) (digest : UInt64) (slotIndex : Nat) : SpaceSaving :=
  let bucket :=
    match s.keyIndex digest with
    | none => IndexBucket.one slotIndex
    | some (.one existing) => .many [existing, slotIndex]
    | some (.many indices) => .many (indices ++ [slotIndex])
  { s with keyIndex := Function.update s.keyIndex digest (some bucket) }

/-- `Vec::swap_remove`: the last element takes the place of the removed one. -/
def swapRemove (indices : List Nat) (position : Nat) : List Nat :=
  (indices.set position (indices.getLastD 0)).dropLast

def removeFromIndex (s : SpaceSaving) (digest : UInt64) (slotIndex : Nat) : Option SpaceSaving :=
  match s.keyIndex digest with
  | none => none -- "slot digest must exist in key index"
  | some (.one _) => some { s with keyIndex := Function.update s.keyIndex digest none }
  | some (.many indices) =>
    match indices.idxOf? slotIndex with
    | none => none -- "slot must exist in collision bucket"
    | some position =>
      let indices := swapRemove indices position
      let bucket := if indices.length = 1 then IndexBucket.one (indices.headD 0) else .many indices
      some { s with keyIndex := Function.update s.keyIndex digest (some bucket) }

/-! ## Heap of slots -/

def slotIsLess (s : SpaceSaving) (left right : Nat) : Bool :=
  (s.slotAt left).rank < (s.slotAt right).rank

def heapSlotIsLess (s : SpaceSaving) (left right : Nat) : Bool :=
  s.slotIsLess (s.heapAt left) (s.heapAt right)

def setHeapIndex (slots : List Slot) (slotIndex heapIndex : Nat) : List Slot :=
  slots.modify slotIndex (fun slot => { slot with heapIndex })

def swapHeap (s : SpaceSaving) (left right : Nat) : SpaceSaving :=
  let minHeap := (s.minHeap.set left (s.heapAt right)).set right (s.heapAt left)
  let slots := setHeapIndex s.slots (minHeap.getD left 0) left
  { s with minHeap, slots := setHeapIndex slots (minHeap.getD right 0) right }

def heapOps : HeapOps SpaceSaving where
  size s := s.minHeap.length
  less := heapSlotIsLess
  swap := swapHeap

def siftUp (s : SpaceSaving) (index : Nat) : SpaceSaving := heapOps.siftUp s index

def siftDown (s : SpaceSaving) (index : Nat) : SpaceSaving := heapOps.siftDown s index

def insertEntryWithDigest (s : SpaceSaving) (key : Bytes) (digest : UInt64) (count error : Nat) :
    SpaceSaving :=
  let slotIndex := s.slots.length
  let heapIndex := s.minHeap.length
  let slot : Slot := { key, digest, entry := { count, error }, heapIndex }
  let s := { s with slots := s.slots ++ [slot] }
  let s := s.addToIndex digest slotIndex
  let s := { s with minHeap := s.minHeap ++ [slotIndex] }
  s.siftUp heapIndex

def insertEntry (hashing : Hashing) (s : SpaceSaving) (key : Bytes) (count error : Nat) :
    SpaceSaving :=
  s.insertEntryWithDigest key (s.keyDigest hashing key) count error

/-- Overwrites the least slot; the old key is handed back for its buffer. -/
def replaceMin (s : SpaceSaving) (key : Bytes) (digest : UInt64) (count error : Nat) :
    Option (SpaceSaving × Bytes) := do
  let slotIndex ← s.minHeap.head? -- "capacity > 0"
  let s ← s.removeFromIndex (s.slotAt slotIndex).digest slotIndex
  let oldKey := (s.slotAt slotIndex).key
  let overwrite (slot : Slot) : Slot := { slot with key, digest, entry := { count, error } }
  let s := { s with slots := s.slots.modify slotIndex overwrite }
  let s := s.addToIndex digest slotIndex
  return (s.siftDown 0, oldKey)

def minimumCount (s : SpaceSaving) : Nat :=
  match s.minHeap.head? with
  | some index => (s.slotAt index).entry.count
  | none => 0

/-! ## Updates -/

/-- `total_weight += weight; updates += 1`. -/
def tally (s : SpaceSaving) (weight : Nat) : SpaceSaving :=
  { s with totalWeight := wrappingAdd s.totalWeight weight, updates := wrappingAdd s.updates 1 }

/-- The branch of `add` for a tracked key. -/
def raise (s : SpaceSaving) (slotIndex weight : Nat) : SpaceSaving :=
  let s := { s with slots := s.slots.modify slotIndex (fun slot =>
    { slot with entry := { slot.entry with count := wrappingAdd slot.entry.count weight } }) }
  -- Counts only increase, so the node can move down but never up.
  s.siftDown (s.slotAt slotIndex).heapIndex

def add (hashing : Hashing) (s : SpaceSaving) (key : Bytes) (weight : Nat) : Option SpaceSaving :=
  let s := s.tally weight
  let digest := s.keyDigest hashing key
  match s.findSlotWithDigest key digest with
  | some slotIndex => some (s.raise slotIndex weight)
  | none =>
    if s.slots.length < s.capacity then some (s.insertEntryWithDigest key digest weight 0)
    else
      let minimum := s.minimumCount
      (s.replaceMin key digest (wrappingAdd minimum weight) minimum).map Prod.fst

/-- The second component is the caller's key buffer afterwards. -/
def addKeyBuf (hashing : Hashing) (s : SpaceSaving) (key : Bytes) (weight : Nat) :
    Option (SpaceSaving × Bytes) :=
  let s := s.tally weight
  let digest := s.keyDigest hashing key
  match s.findSlotWithDigest key digest with
  | some slotIndex => some (s.raise slotIndex weight, []) -- `key.clear()`
  | none =>
    let fresh : Bytes := [] -- `Vec::with_capacity`, swapped into the caller's buffer
    if s.slots.length < s.capacity then
      some (s.insertEntryWithDigest key digest weight 0, fresh)
    else
      let minimum := s.minimumCount
      (s.replaceMin key digest (wrappingAdd minimum weight) minimum).map
        (fun (s, scratch) => (s, scratch.take 0)) -- `scratch.clear()`

def get (hashing : Hashing) (s : SpaceSaving) (key : Bytes) : Option Entry :=
  (s.findSlot hashing key).map (fun index => (s.slotAt index).entry)

/-- `b.count.cmp(&a.count).then_with(|| a.key.cmp(&b.key))` is not greater. -/
def retainBefore (a b : Bytes × Entry) : Bool :=
  b.2.count < a.2.count ∨ b.2.count = a.2.count ∧ a.1 ≤ b.1

/-- Tracked keys sorted by count descending, trimmed to `limit`. -/
def topK (s : SpaceSaving) (limit : Nat) : List (Bytes × Entry) :=
  ((s.slots.map (fun slot => (slot.key, slot.entry))).mergeSort retainBefore).take limit

/-! ## Snapshots, merging, reset -/

def paramsHash (hashing : Hashing) (s : SpaceSaving) : UInt64 :=
  hashing.hash64 (leBytes 8 s.capacity) 0

def compatibility (hashing : Hashing) (s : SpaceSaving) : SketchCompatibility :=
  { algorithm, version := 1, hash := s.hash, paramsHash := s.paramsHash hashing }

/-- The decoding loop over the declared number of entries. -/
def readEntries (hashing : Hashing) : Nat → SpaceSaving → Read SpaceSaving
  | 0, summary => return summary
  | n + 1, summary => do
    let key ← Reader.lpBytes
    let count ← Reader.u64
    let error ← Reader.u64
    if error > count then
      Reader.fail ("spacesaving snapshot entry error " ++ toString error ++ " exceeds count " ++
        toString count)
    let digest := summary.keyDigest hashing key
    if (summary.findSlotWithDigest key digest).isSome then
      Reader.fail "spacesaving snapshot contains a duplicate key"
    readEntries hashing n (summary.insertEntryWithDigest key digest count error)

def readPayload (hashing : Hashing) (hash : HashSpec) (capacity : Nat) : Read SpaceSaving := do
  let totalWeight ← Reader.u64
  let updates ← Reader.u64
  let n ← Reader.u32
  if n > capacity then
    Reader.fail ("spacesaving snapshot entry count " ++ toString n ++ " exceeds capacity " ++
      toString capacity)
  -- Each entry encodes at least a u32 key length + count + error.
  Reader.checkCount n (4 + 8 + 8)
  let summary ← (SpaceSaving.new capacity hash : Except SketchError SpaceSaving)
  readEntries hashing n { summary with totalWeight, updates }

/-- `usize` is 64 bits wide, so every encoded capacity fits the platform. -/
def fromSnapshot (hashing : Hashing) (bytes : Bytes) : Except SketchError SpaceSaving := do
  let (header, params, payload) ← readSnapshot hashing bytes
  if header.algorithmId ≠ algorithmId.spaceSaving then
    throw (.snapshot "not a spacesaving snapshot")
  let (capacity, _) ← Reader.u64 params
  if capacity = 0 then
    throw (.snapshot "spacesaving snapshot capacity must be positive")
  let (summary, _) ← readPayload hashing header.hash capacity payload
  return summary

/-- Clear the three structures, keeping parameters and totals. -/
def clear (s : SpaceSaving) : SpaceSaving :=
  { s with slots := [], keyIndex := fun _ => none, minHeap := [] }

/-- The count charged to a key this summary does not track. -/
def missingCharge (s : SpaceSaving) : Nat :=
  if s.slots.length ≥ s.capacity then s.minimumCount else 0

/-- Both passes of `merge_from` over the slots, before sorting. -/
def mergedEntries (hashing : Hashing) (self other : SpaceSaving) : List (Bytes × Entry) :=
  let selfMin := self.missingCharge
  let otherMin := other.missingCharge
  let mine := self.slots.map (fun slot =>
    let (otherCount, otherError) :=
      match other.get hashing slot.key with
      | some otherEntry => (otherEntry.count, otherEntry.error)
      | none => (otherMin, otherMin)
    (slot.key, { count := wrappingAdd slot.entry.count otherCount,
                 error := wrappingAdd slot.entry.error otherError : Entry }))
  let theirs := (other.slots.filter (fun slot => (self.get hashing slot.key).isNone)).map
    (fun slot => (slot.key, { count := wrappingAdd slot.entry.count selfMin,
                              error := wrappingAdd slot.entry.error selfMin : Entry }))
  mine ++ theirs

def mergeFrom (hashing : Hashing) (self other : SpaceSaving) : Except SketchError SpaceSaving := do
  (self.compatibility hashing).ensureMatches (other.compatibility hashing)
  let merged := ((mergedEntries hashing self other).mergeSort retainBefore).take self.capacity
  let s := merged.foldl (fun s (key, entry) => s.insertEntry hashing key entry.count entry.error)
    self.clear
  return { s with totalWeight := wrappingAdd self.totalWeight other.totalWeight,
                  updates := wrappingAdd self.updates other.updates }

def reset (s : SpaceSaving) : SpaceSaving :=
  { s.clear with totalWeight := 0, updates := 0 }

def updateCount (s : SpaceSaving) : Nat := s.updates

end SpaceSaving

end FlowSketch.Source
