import FlowSketch.Lib.Octets

/-!
# Sketch errors, hash specifications and merge compatibility

`crates/flowsketch-core/src/{error,hash,sketch}.rs`. The two hash functions the sketches draw on are
fields of `Hashing`, so that a result about a sketch holds for every digest and every row hash;
`fsk1` is the family the code ships.
-/

namespace FlowSketch.Source.Core
open Lib.Octets

inductive SketchError where
  | invalidParam (message : String)
  | incompatibleMerge (message : String)
  | snapshot (message : String)
  | backpressure (message : String)
  deriving DecidableEq, Repr

inductive HashFamily where
  | fsk1
  deriving DecidableEq, Repr

def hashVersion : UInt16 := 2

structure HashSpec where
  family : HashFamily
  seed : UInt64
  version : UInt16
  deriving DecidableEq, Repr

def HashSpec.new (seed : UInt64) : HashSpec :=
  { family := .fsk1, seed, version := hashVersion }

structure Hashing where
  /-- `hash64(bytes, seed)`. -/
  hash64 : Bytes → UInt64 → UInt64
  /-- The word `RowHashes::index` reduces modulo the table width. -/
  rowHash : HashSpec → Bytes → Nat → UInt64
  /-- The word whose lowest bit is the sign of `RowHashes::sign`. -/
  signHash : HashSpec → Bytes → Nat → UInt64

def splitmix64 (x : UInt64) : UInt64 :=
  let x := x + 0x9E3779B97F4A7C15
  let x := (x ^^^ (x >>> 30)) * 0xBF58476D1CE4E5B9
  let x := (x ^^^ (x >>> 27)) * 0x94D049BB133111EB
  x ^^^ (x >>> 31)

def fnvOffset : UInt64 := 0xCBF29CE484222325
def fnvPrime : UInt64 := 0x00000100000001B3

def hash64 (bytes : Bytes) (seed : UInt64) : UInt64 :=
  splitmix64 (bytes.foldl (fun h b => (h ^^^ b.toUInt64) * fnvPrime) (fnvOffset ^^^ splitmix64 seed))

/-- `rotate_left` by `1 ≤ n < 64`, the only amounts the row hash uses. -/
def rotateLeft (x n : UInt64) : UInt64 := (x <<< n) ||| (x >>> (64 - n))

def rowHash (spec : HashSpec) (key : Bytes) (row : Nat) : UInt64 :=
  let h1 := hash64 key spec.seed
  let h2 := hash64 key (spec.seed ^^^ 0xA5A5A5A55A5A5A5A) ||| 1
  let domain := splitmix64 (UInt64.ofNat row ^^^ 0xD6E8FEB86659FD93)
  splitmix64 (h1 ^^^ rotateLeft h2 (UInt64.ofNat (row % 2 ^ 32 % 63 + 1)) ^^^ domain)

def rotateRight (x n : UInt64) : UInt64 := (x >>> n) ||| (x <<< (64 - n))

def signHash (spec : HashSpec) (key : Bytes) (row : Nat) : UInt64 :=
  let h1 := hash64 key spec.seed
  let h2 := hash64 key (spec.seed ^^^ 0xA5A5A5A55A5A5A5A) ||| 1
  let domain := splitmix64 (UInt64.ofNat row ^^^ 0xA4093822299F31D0)
  splitmix64 (h1 ^^^ rotateRight h2 (UInt64.ofNat (row % 2 ^ 32 % 63 + 1)) ^^^ domain)

def fsk1 : Hashing := { hash64, rowHash, signHash }

/-- `RowHashes::index`. -/
def Hashing.index (hashing : Hashing) (spec : HashSpec) (key : Bytes) (row width : Nat) : Nat :=
  (hashing.rowHash spec key row).toNat % width

/-- `RowHashes::sign`. -/
def Hashing.sign (hashing : Hashing) (spec : HashSpec) (key : Bytes) (row : Nat) : Int :=
  if hashing.signHash spec key row &&& 1 = 1 then 1 else -1

structure SketchCompatibility where
  algorithm : String
  version : UInt16
  hash : HashSpec
  paramsHash : UInt64
  deriving DecidableEq, Repr

def HashSpec.debug (h : HashSpec) : String :=
  "HashSpec \x7b family: Fsk1, seed: " ++ toString h.seed ++ ", version: " ++ toString h.version ++
    " \x7d"

def SketchCompatibility.debug (c : SketchCompatibility) : String :=
  "SketchCompatibility \x7b algorithm: " ++ c.algorithm.quote ++ ", version: " ++
    toString c.version ++ ", hash: " ++ c.hash.debug ++ ", params_hash: " ++
    toString c.paramsHash ++ " \x7d"

def SketchCompatibility.ensureMatches (self other : SketchCompatibility) :
    Except SketchError Unit :=
  if self ≠ other then
    .error (.incompatibleMerge
      ("sketches are not merge-compatible: " ++ self.debug ++ " vs " ++ other.debug))
  else .ok ()

theorem SketchCompatibility.ensureMatches_ok_iff (self other : SketchCompatibility) :
    self.ensureMatches other = .ok () ↔ self = other := by
  unfold ensureMatches
  split <;> simp_all

@[simp] theorem SketchCompatibility.ensureMatches_self (self : SketchCompatibility) :
    self.ensureMatches self = .ok () :=
  (ensureMatches_ok_iff self self).mpr rfl

/-- A merge that checks first and cannot fail afterwards. -/
theorem SketchCompatibility.checked_ok_iff {S : Type} (self other : SketchCompatibility) (merged : S) :
    (∃ t, (do self.ensureMatches other; return merged : Except SketchError S) = .ok t) ↔
      self = other := by
  rw [← ensureMatches_ok_iff]
  cases self.ensureMatches other with
  | ok _ => exact iff_of_true ⟨merged, rfl⟩ rfl
  | error e => exact iff_of_false (fun ⟨_, done⟩ => nomatch done) nofun

theorem SketchCompatibility.checked_error_iff {S : Type} (self other : SketchCompatibility)
    (merged : S) :
    (∃ e, (do self.ensureMatches other; return merged : Except SketchError S) = .error e) ↔
      self ≠ other := by
  rw [Ne, ← ensureMatches_ok_iff]
  cases self.ensureMatches other with
  | ok _ => exact iff_of_false (fun ⟨_, failed⟩ => nomatch failed) (fun apart => apart rfl)
  | error e => exact iff_of_true ⟨e, rfl⟩ nofun

end FlowSketch.Source.Core
