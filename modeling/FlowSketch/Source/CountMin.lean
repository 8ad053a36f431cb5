import FlowSketch.Source.Core.Wire

/-!
# Count-Min

`crates/flowsketch-algos/src/count_min.rs`: `depth` rows of `width` counters, stored row by row. The
dimension and error formulas are floating point and left out. A table that exists has been allocated,
so the product of its dimensions is taken exactly.
-/

namespace FlowSketch.Source
open Lib.Octets Lib.Word64 Source.Core

structure CountMinSketch where
  width : Nat
  depth : Nat
  conservative : Bool
  hash : HashSpec
  table : List Nat
  totalWeight : Nat
  updates : Nat
  deriving DecidableEq, Repr

/-- `for (a, b) in a.iter_mut().zip(b) { *a += *b }`: cells past the shorter table stay. -/
def addCells (sum : α → α → α) : List α → List α → List α
  | a :: mine, b :: theirs => sum a b :: addCells sum mine theirs
  | mine, _ => mine

namespace CountMinSketch

def algorithm : String := "count-min"

def new (width depth : Nat) (conservative : Bool) (hash : HashSpec) :
    Except SketchError CountMinSketch :=
  if width = 0 ∨ depth = 0 then
    .error (.invalidParam "count-min width and depth must be positive")
  else .ok { width, depth, conservative, hash, table := List.replicate (width * depth) 0,
             totalWeight := 0, updates := 0 }

/-- The cell of `key` in `row`. -/
def cell (hashing : Hashing) (s : CountMinSketch) (key : Bytes) (row : Nat) : Nat :=
  row * s.width + hashing.index s.hash key row s.width

def estimateU64 (hashing : Hashing) (s : CountMinSketch) (key : Bytes) : Nat :=
  (List.range s.depth).foldl (fun least row => min least (s.table.getD (s.cell hashing key row) 0))
    (modulus - 1)

/-- The second pass of a conservative update: raise each row up to `target`, never past it. -/
def raiseRows (hashing : Hashing) (s : CountMinSketch) (key : Bytes) (target : Nat) : List Nat :=
  (List.range s.depth).foldl (fun table row =>
    table.modify (s.cell hashing key row) (fun count => if count < target then target else count))
    s.table

def addRows (hashing : Hashing) (s : CountMinSketch) (key : Bytes) (value : Nat) : List Nat :=
  (List.range s.depth).foldl (fun table row =>
    table.modify (s.cell hashing key row) (fun count => wrappingAdd count value)) s.table

def update (hashing : Hashing) (s : CountMinSketch) (key : Bytes) (value : Nat) : CountMinSketch :=
  let table :=
    if s.conservative then
      s.raiseRows hashing key (wrappingAdd (s.estimateU64 hashing key) value)
    else s.addRows hashing key value
  { s with table, totalWeight := wrappingAdd s.totalWeight value,
           updates := wrappingAdd s.updates 1 }

def paramsHash (hashing : Hashing) (s : CountMinSketch) : UInt64 :=
  hashing.hash64 (leBytes 8 s.width ++ leBytes 8 s.depth ++ leBytes 1 s.conservative.toNat) 0

def compatibility (hashing : Hashing) (s : CountMinSketch) : SketchCompatibility :=
  { algorithm, version := 1, hash := s.hash, paramsHash := s.paramsHash hashing }

def mergeFrom (hashing : Hashing) (self other : CountMinSketch) :
    Except SketchError CountMinSketch := do
  (self.compatibility hashing).ensureMatches (other.compatibility hashing)
  return { self with table := addCells wrappingAdd self.table other.table,
                     totalWeight := wrappingAdd self.totalWeight other.totalWeight,
                     updates := wrappingAdd self.updates other.updates }

def reset (s : CountMinSketch) : CountMinSketch :=
  { s with table := s.table.map (fun _ => 0), totalWeight := 0, updates := 0 }

def updateCount (s : CountMinSketch) : Nat := s.updates

/-! ## Snapshots -/

/-- Dimensions are written as `u32`, longer ones truncated. -/
def params (s : CountMinSketch) : Bytes :=
  leBytes 4 s.width ++ leBytes 4 s.depth ++ leBytes 1 s.conservative.toNat

def payload (s : CountMinSketch) : Bytes :=
  leBytes 8 s.totalWeight ++ leBytes 8 s.updates ++ Reader.writeU64s s.table

def toSnapshot (hashing : Hashing) (s : CountMinSketch) (windowStart windowEnd : Nat) : Bytes :=
  writeSnapshot hashing
    { version := snapshotVersion, algorithmId := algorithmId.countMin, hash := s.hash,
      windowStartNanos := windowStart, windowEndNanos := windowEnd }
    s.params s.payload

def readParams : Read (Nat × Nat × Bool) := do
  let width ← Reader.u32
  let depth ← Reader.u32
  let conservative ← Reader.u8
  return (width, depth, decide (conservative ≠ 0))

def readPayload (hash : HashSpec) (width depth : Nat) (conservative : Bool) :
    Read CountMinSketch := do
  let totalWeight ← Reader.u64
  let updates ← Reader.u64
  Reader.checkCount (width * depth) 8
  let table ← Reader.u64s (width * depth)
  return { width, depth, conservative, hash, table, totalWeight, updates }

/-- Two `u32` dimensions cannot overflow a 64-bit `usize`, so `checked_mul` succeeds. -/
def fromSnapshot (hashing : Hashing) (bytes : Bytes) : Except SketchError CountMinSketch := do
  let (header, params, payload) ← readSnapshot hashing bytes
  if header.algorithmId ≠ algorithmId.countMin then
    throw (.snapshot "not a count-min snapshot")
  let ((width, depth, conservative), _) ← readParams params
  if width = 0 ∨ depth = 0 then
    throw (.snapshot "count-min snapshot width and depth must be positive")
  let (sketch, _) ← readPayload header.hash width depth conservative payload
  return sketch

end CountMinSketch

end FlowSketch.Source
