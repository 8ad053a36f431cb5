import FlowSketch.Source.Core.Wire

/-!
# KLL

`crates/flowsketch-algos/src/kll.rs`: buffers of items of weight `2^level`; a buffer over its capacity
is sorted and every other item of it moves up one level.
-/

namespace FlowSketch.Source
open Lib.Octets Lib.Word64 Source.Core

structure KllSketch where
  k : Nat
  hash : HashSpec
  levels : List (List Nat)
  n : Nat
  rngState : UInt64
  updates : Nat
  deriving DecidableEq, Repr

namespace KllSketch

def algorithm : String := "kll"
def minLevelCapacity : Nat := 8
def maxLevels : Nat := 64

def new (k : Nat) (hash : HashSpec) : Except SketchError KllSketch :=
  if k < minLevelCapacity then
    .error (.invalidParam ("kll k must be >= " ++ toString minLevelCapacity ++ ", got " ++ toString k))
  else .ok { k, hash, levels := [[]], n := 0, rngState := splitmix64 (hash.seed ^^^ 0x6B6C6C00),
             updates := 0 }

/-- `cap * 2 / 3`, as often as there are levels above. -/
def decayed (k : Nat) : Nat → Nat
  | 0 => k
  | depth + 1 => decayed k depth * 2 % modulus / 3

/-- `k` at the top, decaying by 2/3 per level below, floored at 8. -/
def capacity (s : KllSketch) (level : Nat) : Nat :=
  max (decayed s.k (s.levels.length - 1 - level)) minLevelCapacity

def nextBit (s : KllSketch) : Bool × KllSketch :=
  let rngState := splitmix64 s.rngState
  (rngState &&& 1 = 1, { s with rngState })

/-- `step_by(2)`. -/
def everyOther : List Nat → List Nat
  | [] => []
  | [item] => [item]
  | item :: _ :: rest => item :: everyOther rest

/-- One round of the loop at a level over its capacity. -/
def compactLevel (s : KllSketch) (level : Nat) : KllSketch :=
  let levels := if level + 1 = s.levels.length then s.levels ++ [[]] else s.levels
  let buffer := (levels.getD level []).mergeSort (· ≤ ·)
  let (bit, s) := { s with levels := levels.set level [] }.nextBit
  let promoted := everyOther (buffer.drop bit.toNat)
  { s with levels := s.levels.modify (level + 1) (fun items => items ++ promoted) }

/-- `while level < levels.len()`. -/
def compressFrom : Nat → Nat → KllSketch → KllSketch
  | 0, _, s => s
  | rounds + 1, level, s =>
    if level < s.levels.length then
      if (s.levels.getD level []).length ≤ s.capacity level then compressFrom rounds (level + 1) s
      else compressFrom rounds (level + 1) (s.compactLevel level)
    else s

def itemCount (s : KllSketch) : Nat := (s.levels.map List.length).sum

/-- A level past the last one takes more than eight items to open and keeps about half of them, so
the loop makes fewer rounds than there are levels and items. -/
def compress (s : KllSketch) : KllSketch := s.compressFrom (s.levels.length + s.itemCount) 0

def insert (s : KllSketch) (value : Nat) : KllSketch :=
  { s with n := wrappingAdd s.n 1, updates := wrappingAdd s.updates 1,
           levels := s.levels.modify 0 (fun items => items ++ [value]) }.compress

def paramsHash (hashing : Hashing) (s : KllSketch) : UInt64 := hashing.hash64 (leBytes 8 s.k) 0

def compatibility (hashing : Hashing) (s : KllSketch) : SketchCompatibility :=
  { algorithm, version := 1, hash := s.hash, paramsHash := s.paramsHash hashing }

/-- Levels joined one by one; the shorter sketch is extended by empty ones. -/
def joinLevels : List (List Nat) → List (List Nat) → List (List Nat)
  | mine :: left, theirs :: right => (mine ++ theirs) :: joinLevels left right
  | left, [] => left
  | [], right => right

def mergeFrom (hashing : Hashing) (self other : KllSketch) : Except SketchError KllSketch := do
  (self.compatibility hashing).ensureMatches (other.compatibility hashing)
  return { self with levels := joinLevels self.levels other.levels,
                     n := wrappingAdd self.n other.n,
                     updates := wrappingAdd self.updates other.updates,
                     rngState := splitmix64 (self.rngState ^^^ other.rngState) }.compress

/-- The generator keeps its state. -/
def reset (s : KllSketch) : KllSketch := { s with levels := [[]], n := 0, updates := 0 }

def updateCount (s : KllSketch) : Nat := s.updates

/-! ## Queries -/

/-- Every item with the weight of its level. -/
def weighted (s : KllSketch) : List (Nat × Nat) :=
  s.levels.zipIdx.flatMap (fun (items, level) => items.map (fun item => (item, 2 ^ (level % 64))))

/-- The item at which the running weight reaches `target`, or the last one. -/
def itemAt (target : Nat) : Nat → List (Nat × Nat) → Option Nat
  | _, [] => none
  | acc, (item, weight) :: rest =>
    let acc := wrappingAdd acc weight
    if acc ≥ target then some item
    else
      match rest with
      | [] => some item
      | _ => itemAt target acc rest

def quantile (s : KllSketch) (q : Float) : Option Nat :=
  if s.n = 0 then none
  else
    let q := if q < 0.0 then 0.0 else if q > 1.0 then 1.0 else q
    let sorted := s.weighted.mergeSort (fun left right => left.1 ≤ right.1)
    let total := sorted.foldl (fun total item => wrappingAdd total item.2) 0
    let target := (max (Float.ceil (q * Float.ofNat total)) 1.0).toUInt64.toNat
    itemAt target 0 sorted

/-- The weights of the items up to `value` and of all items, as `rank` sums them. -/
def rankSums (s : KllSketch) (value : Nat) : Nat × Nat :=
  s.weighted.foldl (fun sums entry =>
    (if entry.1 ≤ value then wrappingAdd sums.1 entry.2 else sums.1, wrappingAdd sums.2 entry.2)) (0, 0)

def rank (s : KllSketch) (value : Nat) : Float :=
  if s.n = 0 then 0.0
  else Float.ofNat (s.rankSums value).1 / Float.ofNat (s.rankSums value).2

def rankError (s : KllSketch) : Float := 2.3 / Float.ofNat s.k

/-! ## Snapshots -/

def writeLevel (items : List Nat) : Bytes := leBytes 4 items.length ++ Reader.writeU64s items

def payload (s : KllSketch) : Bytes :=
  leBytes 8 s.n ++ leBytes 8 s.rngState.toNat ++ leBytes 8 s.updates ++
    leBytes 4 s.levels.length ++ s.levels.flatMap writeLevel

def toSnapshot (hashing : Hashing) (s : KllSketch) (windowStart windowEnd : Nat) : Bytes :=
  writeSnapshot hashing
    { version := snapshotVersion, algorithmId := algorithmId.kll, hash := s.hash,
      windowStartNanos := windowStart, windowEndNanos := windowEnd }
    (leBytes 8 s.k) s.payload

def readLevels : Nat → Read (List (List Nat))
  | 0 => return []
  | n + 1 => do
    let len ← Reader.u32
    Reader.checkCount len 8
    let level ← Reader.u64s len
    let rest ← readLevels n
    return level :: rest

def readPayload (hash : HashSpec) (k : Nat) : Read KllSketch := do
  let n ← Reader.u64
  let rngState ← Reader.u64
  let updates ← Reader.u64
  let numLevels ← Reader.u32
  if numLevels > maxLevels then
    Reader.fail ("kll snapshot has " ++ toString numLevels ++ " levels, maximum is " ++
      toString maxLevels)
  -- Each level needs at least its u32 length prefix; each item is a u64.
  Reader.checkCount numLevels 4
  let levels ← readLevels numLevels
  let levels := if levels.isEmpty then [[]] else levels
  return { k, hash, levels, n, rngState := UInt64.ofNat rngState, updates }

def fromSnapshot (hashing : Hashing) (bytes : Bytes) : Except SketchError KllSketch := do
  let (header, params, payload) ← readSnapshot hashing bytes
  if header.algorithmId ≠ algorithmId.kll then
    throw (.snapshot "not a kll snapshot")
  let (k, _) ← Reader.u64 params
  if k < minLevelCapacity then
    throw (.snapshot ("kll snapshot k must be >= " ++ toString minLevelCapacity ++ ", got " ++
      toString k))
  let (sketch, _) ← readPayload header.hash k payload
  return sketch

end KllSketch

end FlowSketch.Source
