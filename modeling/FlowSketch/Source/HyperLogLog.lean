import FlowSketch.Lib.Word64
import FlowSketch.Source.Core.Snapshot

/-!
# HyperLogLog

`crates/flowsketch-algos/src/hll.rs`. Few distinct hashes are kept as they are, in a sorted vector;
past `sparse_limit` they are folded into one register for each index. Registers are bytes in the
source and `Nat` here. The estimator itself is floating point and left out; nothing else in the
sketch reads it.
-/

namespace FlowSketch.Source
open Lib.Octets Lib.Word64 Source.Core

inductive RegisterStorage where
  | empty
  | singleton (hash : UInt64)
  | sparse (hashes : List UInt64)
  | dense (registers : List Nat)
  deriving DecidableEq, Repr

/-- The hashes a form that is not dense still holds. -/
def RegisterStorage.hashes : RegisterStorage → List UInt64
  | .empty => []
  | .singleton hash => [hash]
  | .sparse hashes => hashes
  | .dense _ => []

structure HyperLogLog where
  precision : Nat
  hash : HashSpec
  storage : RegisterStorage
  updates : Nat
  deriving DecidableEq, Repr

namespace HyperLogLog

def algorithm : String := "hll"
def minPrecision : Nat := 4
def maxPrecision : Nat := 18
def storageSparse : Nat := 0
def storageDense : Nat := 1
def sparseMemoryFraction : Nat := 4

def precisionRange : String := "[" ++ toString minPrecision ++ ", " ++ toString maxPrecision ++ "]"

def new (precision : Nat) (hash : HashSpec) : Except SketchError HyperLogLog :=
  if ¬(minPrecision ≤ precision ∧ precision ≤ maxPrecision) then
    .error (.invalidParam ("hll precision must be in " ++ precisionRange ++ ", got " ++
      toString precision))
  else .ok { precision, hash, storage := .empty, updates := 0 }

def sparseLimit (precision : Nat) : Nat := max (2 ^ precision / (sparseMemoryFraction * 8)) 1

/-! ## Registers -/

/-- `u64::leading_zeros`. -/
def leadingZeros (x : UInt64) : Nat := if x = 0 then 64 else 63 - x.toNat.log2

def registerIndex (precision : Nat) (hash : UInt64) : Nat := hash.toNat >>> (64 - precision)

/-- Position of the leftmost 1-bit in the bits after the index. -/
def rho (precision : Nat) (hash : UInt64) : Nat :=
  min (leadingZeros (hash <<< UInt64.ofNat precision) + 1) (64 - precision + 1)

def updateRegister (precision : Nat) (registers : List Nat) (hash : UInt64) : List Nat :=
  registers.modify (registerIndex precision hash)
    (fun register => if rho precision hash > register then rho precision hash else register)

def denseOf (precision : Nat) (hashes : List UInt64) : List Nat :=
  hashes.foldl (updateRegister precision) (List.replicate (2 ^ precision) 0)

/-- The registers `ensure_dense` leaves. -/
def ensureDense (s : HyperLogLog) : List Nat :=
  match s.storage with
  | .dense registers => registers
  | storage => denseOf s.precision storage.hashes

/-! ## Updates -/

/-- The fall-through of `insert_hash`: densify, then update one register. -/
def insertDense (s : HyperLogLog) (hash : UInt64) : HyperLogLog :=
  { s with storage := .dense (updateRegister s.precision s.ensureDense hash) }

/-- `binary_search` finds a hash exactly when the sorted vector holds it, and otherwise reports where
it has to stand. -/
def insertHash (s : HyperLogLog) (hash : UInt64) : HyperLogLog :=
  match s.storage with
  | .empty => { s with storage := .singleton hash }
  | .singleton existing =>
    if existing = hash then s
    else if sparseLimit s.precision > 1 then
      { s with storage := .sparse ([existing, hash].mergeSort (· ≤ ·)) }
    else s.insertDense hash
  | .sparse hashes =>
    if hash ∈ hashes then s
    else if hashes.length < sparseLimit s.precision then
      { s with storage := .sparse (hashes.orderedInsert (· ≤ ·) hash) }
    else s.insertDense hash
  | .dense registers => { s with storage := .dense (updateRegister s.precision registers hash) }

protected def insert (hashing : Hashing) (s : HyperLogLog) (key : Bytes) : HyperLogLog :=
  { s with updates := wrappingAdd s.updates 1 }.insertHash (hashing.hash64 key s.hash.seed)

def paramsHash (hashing : Hashing) (s : HyperLogLog) : UInt64 :=
  hashing.hash64 [UInt8.ofNat s.precision] 0

def compatibility (hashing : Hashing) (s : HyperLogLog) : SketchCompatibility :=
  { algorithm, version := 1, hash := s.hash, paramsHash := s.paramsHash hashing }

/-- `for (a, b) in mine.iter_mut().zip(theirs)`: registers past the shorter vector stay. -/
def maxRegisters : List Nat → List Nat → List Nat
  | a :: mine, b :: theirs => (if b > a then b else a) :: maxRegisters mine theirs
  | mine, _ => mine

def mergeStorage (self other : HyperLogLog) : HyperLogLog :=
  match other.storage with
  | .empty => self
  | .singleton hash => self.insertHash hash
  | .sparse hashes => hashes.foldl insertHash self
  | .dense theirs => { self with storage := .dense (maxRegisters self.ensureDense theirs) }

def mergeFrom (hashing : Hashing) (self other : HyperLogLog) : Except SketchError HyperLogLog := do
  (self.compatibility hashing).ensureMatches (other.compatibility hashing)
  let merged := self.mergeStorage other
  return { merged with updates := wrappingAdd self.updates other.updates }

/-- Vectors are cleared in place, so a sparse sketch stays sparse and a dense one dense. -/
def reset (s : HyperLogLog) : HyperLogLog :=
  let storage :=
    match s.storage with
    | .empty => RegisterStorage.empty
    | .singleton _ => .empty
    | .sparse _ => .sparse []
    | .dense registers => .dense (registers.map (fun _ => 0))
  { s with storage, updates := 0 }

def updateCount (s : HyperLogLog) : Nat := s.updates

/-! ## Snapshots -/

def payload (s : HyperLogLog) : Bytes :=
  leBytes 8 s.updates ++
    match s.storage with
    | .empty => leBytes 1 storageSparse ++ leBytes 4 0
    | .singleton hash => leBytes 1 storageSparse ++ leBytes 4 1 ++ leBytes 8 hash.toNat
    | .sparse hashes =>
      leBytes 1 storageSparse ++ leBytes 4 hashes.length ++
        hashes.flatMap (fun hash => leBytes 8 hash.toNat)
    | .dense registers => leBytes 1 storageDense ++ registers.map UInt8.ofNat

def toSnapshot (hashing : Hashing) (s : HyperLogLog) (windowStart windowEnd : Nat) : Bytes :=
  writeSnapshot hashing
    { version := snapshotVersion, algorithmId := algorithmId.hyperLogLog, hash := s.hash,
      windowStartNanos := windowStart, windowEndNanos := windowEnd }
    (leBytes 1 s.precision) s.payload

/-- The sparse decoding loop; `previous` is the last hash read. -/
def readHashes : Nat → Option Nat → Read (List UInt64)
  | 0, _ => return []
  | n + 1, previous => do
    let hash ← Reader.u64
    if previous.any (fun previous => previous ≥ hash) then
      Reader.fail "hll sparse hashes must be strictly sorted and unique"
    let rest ← readHashes n (some hash)
    return UInt64.ofNat hash :: rest

def readSparse (precision : Nat) : Read RegisterStorage := do
  let count ← Reader.u32
  if count > sparseLimit precision then
    Reader.fail ("hll sparse hash count " ++ toString count ++ " exceeds limit " ++
      toString (sparseLimit precision))
  Reader.checkCount count 8
  let hashes ← readHashes count none
  return match hashes with
    | [] => .empty
    | [hash] => .singleton hash
    | _ => .sparse hashes

def readDense (precision : Nat) : Read RegisterStorage := do
  let octets ← Reader.take (2 ^ precision)
  let registers := octets.map UInt8.toNat
  let maxRegister := 64 - precision + 1
  match registers.find? (fun register => register > maxRegister) with
  | some register =>
    Reader.fail ("hll snapshot register must be <= " ++ toString maxRegister ++
      " for precision " ++ toString precision ++ ", got " ++ toString register)
  | none => return .dense registers

def readPayload (hash : HashSpec) (precision : Nat) : Read HyperLogLog := do
  let updates ← Reader.u64
  let encoding ← Reader.u8
  let storage ←
    if encoding = storageSparse then readSparse precision
    else if encoding = storageDense then readDense precision
    else Reader.fail ("unknown hll storage encoding " ++ toString encoding)
  let left ← Reader.remaining
  if left ≠ 0 then Reader.fail "trailing bytes in hll snapshot payload"
  return { precision, hash, storage, updates }

def fromSnapshot (hashing : Hashing) (bytes : Bytes) : Except SketchError HyperLogLog := do
  let (header, params, payload) ← readSnapshot hashing bytes
  if header.algorithmId ≠ algorithmId.hyperLogLog then
    throw (.snapshot "not an hll snapshot")
  let (precision, _) ← Reader.u8 params
  if ¬(minPrecision ≤ precision ∧ precision ≤ maxPrecision) then
    throw (.snapshot ("hll snapshot precision must be in " ++ precisionRange ++ ", got " ++
      toString precision))
  let (sketch, _) ← readPayload header.hash precision payload
  return sketch

end HyperLogLog

end FlowSketch.Source
