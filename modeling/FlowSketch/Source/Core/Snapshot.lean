import FlowSketch.Source.Core.Sketch

/-!
# The `FSK1` snapshot envelope

`crates/flowsketch-core/src/snapshot.rs`. A `Reader` is the bytes not read yet; its operations run in
`Read`, which hands the rest on or stops at the first decode error. A `Writer` is the bytes written
so far, so writing is appending.
-/

namespace FlowSketch.Source.Core
open Lib.Octets

def magic : Bytes := [0x46, 0x53, 0x4B, 0x31]
def snapshotVersion : Nat := 2

namespace algorithmId
def countMin : Nat := 1
def countSketch : Nat := 2
def hyperLogLog : Nat := 3
def spaceSaving : Nat := 4
def misraGries : Nat := 5
def hllMap : Nat := 6
def kll : Nat := 8
end algorithmId

structure SnapshotHeader where
  version : Nat
  algorithmId : Nat
  hash : HashSpec
  windowStartNanos : Nat
  windowEndNanos : Nat
  deriving DecidableEq, Repr

abbrev Read := StateT Bytes (Except SketchError)

theorem bind_ok {α β : Type} {first : Except SketchError α} {next : α → Except SketchError β}
    {result : β} (success : (first >>= next) = .ok result) :
    ∃ value, first = .ok value ∧ next value = .ok result := by
  cases first with
  | error e => cases success
  | ok value => exact ⟨value, rfl, success⟩

theorem map_ok {α β : Type} {first : Except SketchError α} {f : α → β} {result : β}
    (success : first.map f = .ok result) : ∃ value, first = .ok value ∧ f value = result := by
  cases first with
  | error e => cases success
  | ok value => exact ⟨value, rfl, Except.ok.inj success⟩

theorem throw_ok {condition : Prop} [Decidable condition] {α : Type} {e : SketchError}
    {next : Unit → Except SketchError α} {result : α}
    (success : (if condition then throw e >>= next else next ()) = .ok result) :
    ¬condition ∧ next () = .ok result := by
  split at success
  · cases success
  next unmet => exact ⟨unmet, success⟩

theorem Read.bind_ok {α β : Type} {first : Read α} {next : α → Read β} {rest : Bytes}
    {result : β × Bytes} (success : (first >>= next) rest = .ok result) :
    ∃ value later, first rest = .ok (value, later) ∧ next value later = .ok result := by
  change (first rest >>= fun read => next read.1 read.2) = .ok result at success
  cases reading : first rest with
  | error e =>
    rw [reading] at success
    cases success
  | ok read =>
    rw [reading] at success
    exact ⟨read.1, read.2, rfl, success⟩

theorem Read.lift_ok {α : Type} {result : Except SketchError α} {rest later : Bytes} {value : α}
    (success : (liftM result : Read α) rest = .ok (value, later)) :
    result = .ok value ∧ later = rest := by
  cases result with
  | error e => cases success
  | ok found =>
    cases success
    exact ⟨rfl, rfl⟩

namespace Reader

def fail {α : Type} (message : String) : Read α := fun _ => .error (.snapshot message)

/-- A guard that fails with a message passes only if its condition is false. -/
theorem guard_ok {condition : Prop} [Decidable condition] {α : Type} {message : String}
    {next : Unit → Read α} {rest : Bytes} {result : α × Bytes}
    (success : (if condition then fail message >>= next else next ()) rest = .ok result) :
    ¬condition ∧ next () rest = .ok result := by
  split at success
  · cases success
  next unmet => exact ⟨unmet, success⟩

def remaining : Read Nat := fun rest => .ok (rest.length, rest)

def take (n : Nat) : Read Bytes := fun rest =>
  if rest.length < n then .error (.snapshot "unexpected end of snapshot")
  else .ok (rest.take n, rest.drop n)

/-- The little-endian integers: `u8`, `u16`, `u32` and `u64` are this at widths 1, 2, 4 and 8. -/
def int (width : Nat) : Read Nat := do
  let octets ← take width
  return leValue octets

def u8 : Read Nat := int 1
def u16 : Read Nat := int 2
def u32 : Read Nat := int 4
def u64 : Read Nat := int 8

def lpBytes : Read Bytes := do
  let n ← u32
  take n

def checkCount (count minBytesEach : Nat) : Read Unit := do
  let left ← remaining
  if count > left / max minBytesEach 1 then
    fail ("declared count " ++ toString count ++ " cannot fit in the " ++ toString left ++
      " bytes remaining")

theorem checkCount_ok {count minBytesEach : Nat} {rest later : Bytes} {u : Unit}
    (success : checkCount count minBytesEach rest = .ok (u, later)) : later = rest := by
  obtain ⟨_, _, looked, success⟩ := Read.bind_ok success
  cases looked
  split at success
  · cases success
  · cases success
    rfl

end Reader

/-- The part of the envelope the checksum covers. -/
def snapshotBody (header : SnapshotHeader) (params payload : Bytes) : Bytes :=
  magic ++ leBytes 2 header.version ++ leBytes 2 header.algorithmId ++
    leBytes 1 (match header.hash.family with | .fsk1 => 0) ++ leBytes 8 header.hash.seed.toNat ++
    leBytes 2 header.hash.version.toNat ++ leBytes 8 header.windowStartNanos ++
    leBytes 8 header.windowEndNanos ++ leBytes 4 params.length ++ params ++
    leBytes 4 payload.length ++ payload

def writeSnapshot (hashing : Hashing) (header : SnapshotHeader) (params payload : Bytes) : Bytes :=
  let body := snapshotBody header params payload
  body ++ leBytes 8 (hashing.hash64 body 0).toNat

def readBody : Read (SnapshotHeader × Bytes × Bytes) := do
  let found ← Reader.take 4
  if found ≠ magic then Reader.fail "bad magic (expected FSK1)"
  let version ← Reader.u16
  if version ≠ snapshotVersion then
    Reader.fail ("unsupported snapshot version " ++ toString version)
  let algorithmId ← Reader.u16
  let familyId ← Reader.u8
  if familyId ≠ 0 then Reader.fail ("unknown hash family id " ++ toString familyId)
  let seed ← Reader.u64
  let hashVersion ← Reader.u16
  let windowStartNanos ← Reader.u64
  let windowEndNanos ← Reader.u64
  let paramsLen ← Reader.u32
  let params ← Reader.take paramsLen
  let payloadLen ← Reader.u32
  let payload ← Reader.take payloadLen
  return ({ version, algorithmId,
            hash := { family := .fsk1, seed := UInt64.ofNat seed, version := UInt16.ofNat hashVersion },
            windowStartNanos, windowEndNanos }, params, payload)

/-- Bytes left after the payload are ignored, as in the source. -/
def readSnapshot (hashing : Hashing) (bytes : Bytes) :
    Except SketchError (SnapshotHeader × Bytes × Bytes) :=
  if bytes.length < 4 + 2 + 2 + 11 + 16 + 8 + 8 then .error (.snapshot "snapshot too short")
  else
    let body := bytes.take (bytes.length - 8)
    let tail := bytes.drop (bytes.length - 8)
    if (hashing.hash64 body 0).toNat ≠ leValue tail then .error (.snapshot "checksum mismatch")
    else (readBody body).map Prod.fst

end FlowSketch.Source.Core
