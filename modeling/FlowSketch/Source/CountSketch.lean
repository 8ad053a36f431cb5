import FlowSketch.Source.CountMin

/-!
# CountSketch

`crates/flowsketch-algos/src/count_sketch.rs`: rows of signed counters. Counters are `i64`, so sums
and products wrap around zero.
-/

namespace FlowSketch.Source
open Lib.Octets Lib.Word64 Source.Core

structure CountSketch where
  width : Nat
  depth : Nat
  hash : HashSpec
  table : List Int
  updates : Nat
  deriving DecidableEq, Repr

/-- The `i64` with the same residue. -/
def wrapI64 (x : Int) : Int := x.bmod modulus

namespace CountSketch

def algorithm : String := "count-sketch"

def new (width depth : Nat) (hash : HashSpec) : Except SketchError CountSketch :=
  if width = 0 ∨ depth = 0 then
    .error (.invalidParam "count-sketch width and depth must be positive")
  else .ok { width, depth, hash, table := List.replicate (width * depth) 0, updates := 0 }

def cell (hashing : Hashing) (s : CountSketch) (key : Bytes) (row : Nat) : Nat :=
  row * s.width + hashing.index s.hash key row s.width

/-- Signed update (turnstile model). -/
def updateSigned (hashing : Hashing) (s : CountSketch) (key : Bytes) (value : Int) : CountSketch :=
  let table := (List.range s.depth).foldl (fun table row =>
    table.modify (s.cell hashing key row)
      (fun count => wrapI64 (count + wrapI64 (hashing.sign s.hash key row * value)))) s.table
  { s with table, updates := wrappingAdd s.updates 1 }

/-- `value as i64`. -/
def update (hashing : Hashing) (s : CountSketch) (key : Bytes) (value : Nat) : CountSketch :=
  s.updateSigned hashing key (wrapI64 value)

/-- Median-of-rows signed estimate, rounded toward zero on even depth. -/
def estimateSigned (hashing : Hashing) (s : CountSketch) (key : Bytes) : Int :=
  let ests := ((List.range s.depth).map (fun row =>
    wrapI64 (hashing.sign s.hash key row * s.table.getD (s.cell hashing key row) 0))).mergeSort
      (· ≤ ·)
  let mid := ests.length / 2
  if ests.length % 2 = 1 then ests.getD mid 0
  else (wrapI64 (ests.getD (mid - 1) 0 + ests.getD mid 0)).tdiv 2

def paramsHash (hashing : Hashing) (s : CountSketch) : UInt64 :=
  hashing.hash64 (leBytes 8 s.width ++ leBytes 8 s.depth) 0

def compatibility (hashing : Hashing) (s : CountSketch) : SketchCompatibility :=
  { algorithm, version := 1, hash := s.hash, paramsHash := s.paramsHash hashing }

def mergeFrom (hashing : Hashing) (self other : CountSketch) : Except SketchError CountSketch := do
  (self.compatibility hashing).ensureMatches (other.compatibility hashing)
  return { self with table := addCells (fun a b => wrapI64 (a + b)) self.table other.table,
                     updates := wrappingAdd self.updates other.updates }

def reset (s : CountSketch) : CountSketch :=
  { s with table := s.table.map (fun _ => 0), updates := 0 }

def updateCount (s : CountSketch) : Nat := s.updates

/-! ## Snapshots -/

/-- `i64::to_le_bytes` writes the two's complement. -/
def word (x : Int) : Nat := (x % modulus).toNat

def params (s : CountSketch) : Bytes := leBytes 4 s.width ++ leBytes 4 s.depth

def payload (s : CountSketch) : Bytes :=
  leBytes 8 s.updates ++ Reader.writeU64s (s.table.map word)

def toSnapshot (hashing : Hashing) (s : CountSketch) (windowStart windowEnd : Nat) : Bytes :=
  writeSnapshot hashing
    { version := snapshotVersion, algorithmId := algorithmId.countSketch, hash := s.hash,
      windowStartNanos := windowStart, windowEndNanos := windowEnd }
    s.params s.payload

def readParams : Read (Nat × Nat) := do
  let width ← Reader.u32
  let depth ← Reader.u32
  return (width, depth)

/-- `i64::from_le_bytes` is the signed reading of the word. -/
def readPayload (hash : HashSpec) (width depth : Nat) : Read CountSketch := do
  let updates ← Reader.u64
  Reader.checkCount (width * depth) 8
  let words ← Reader.u64s (width * depth)
  return { width, depth, hash, table := words.map (fun (w : Nat) => wrapI64 w), updates }

def fromSnapshot (hashing : Hashing) (bytes : Bytes) : Except SketchError CountSketch := do
  let (header, params, payload) ← readSnapshot hashing bytes
  if header.algorithmId ≠ algorithmId.countSketch then
    throw (.snapshot "not a count-sketch snapshot")
  let ((width, depth), _) ← readParams params
  if width = 0 ∨ depth = 0 then
    throw (.snapshot "count-sketch snapshot width and depth must be positive")
  let (sketch, _) ← readPayload header.hash width depth payload
  return sketch

end CountSketch

end FlowSketch.Source
