import FlowSketch.Source.Core.Allocation
import FlowSketch.Source.CountMin
import FlowSketch.Source.CountSketch
import FlowSketch.Source.HllMap
import FlowSketch.Source.Kll
import FlowSketch.Source.MisraGries
import FlowSketch.Source.SpaceSaving

/-!
# What a snapshot can make a decoder allocate

The seven decoders with the capacities they request. Five of them request only counts that the bytes left
can back. `SpaceSaving::new` and the eviction heap of an HLLMap are sized by a parameter instead, which no
check compares with the payload.
-/

namespace FlowSketch.Source.Core
open Lib.Octets Lib.Word64

/-- A decoder: the envelope and the parameters are read first and request nothing. -/
structure Decoder (P S : Type) where
  algorithmId : Nat
  notMine : String
  params : Read P
  refuse : P → Option String
  payload : HashSpec → P → Alloc S

namespace Decoder

variable {P S : Type}

/-- The hash specification, the parameters and the payload of a snapshot that gets this far. -/
def opening (hashing : Hashing) (decoder : Decoder P S) (bytes : Bytes) :
    Except SketchError (HashSpec × P × Bytes) := do
  let (header, params, payload) ← readSnapshot hashing bytes
  if header.algorithmId ≠ decoder.algorithmId then
    throw (.snapshot decoder.notMine)
  let (parameters, _) ← decoder.params params
  match decoder.refuse parameters with
  | some reason => throw (.snapshot reason)
  | none => return (header.hash, parameters, payload)

/-- The requests of a decoding, and its result. -/
def run (hashing : Hashing) (decoder : Decoder P S) (bytes : Bytes) :
    List Nat × Except SketchError S :=
  match decoder.opening hashing bytes with
  | .error e => ([], .error e)
  | .ok (hash, parameters, payload) =>
    ((decoder.payload hash parameters payload).1,
      (decoder.payload hash parameters payload).2.map Prod.fst)

/-- The decoder written out, with the plain reader of the payload. -/
theorem run_erases {hashing : Hashing} {decoder : Decoder P S}
    {plain : HashSpec → P → Read S}
    (erases : ∀ hash parameters, Alloc.Erases (decoder.payload hash parameters) (plain hash parameters))
    (bytes : Bytes) :
    (decoder.run hashing bytes).2 = (readSnapshot hashing bytes >>= fun found =>
      if found.1.algorithmId ≠ decoder.algorithmId then .error (.snapshot decoder.notMine)
      else decoder.params found.2.1 >>= fun read =>
        match decoder.refuse read.1 with
        | some reason => .error (.snapshot reason)
        | none => plain found.1.hash read.1 found.2.2 >>= fun result => .ok result.1) := by
  unfold run opening
  cases readSnapshot hashing bytes with
  | error e => rfl
  | ok found =>
    obtain ⟨header, params, payload⟩ := found
    by_cases other : header.algorithmId ≠ decoder.algorithmId
    · simp only [bind, Except.bind, if_pos other]
      rfl
    · cases reading : decoder.params params with
      | error e => simp only [bind, Except.bind, if_neg other, reading]
      | ok read =>
        cases refusal : decoder.refuse read.1 with
        | some reason =>
          simp only [bind, Except.bind, if_neg other, reading, refusal]
          rfl
        | none =>
          simp only [bind, Except.bind, if_neg other, reading, refusal, pure, Except.pure]
          rw [erases header.hash read.1 payload]
          cases plain header.hash read.1 payload <;> rfl

end Decoder

end FlowSketch.Source.Core

namespace FlowSketch.Source
open Lib.Octets Lib.Word64 Source.Core Source.Core.Alloc

/-! ## Tables -/

namespace CountMinSketch

def decoder : Decoder (Nat × Nat × Bool) CountMinSketch where
  algorithmId := algorithmId.countMin
  notMine := "not a count-min snapshot"
  params := readParams
  refuse := fun dimensions =>
    if dimensions.1 = 0 ∨ dimensions.2.1 = 0 then
      some "count-min snapshot width and depth must be positive"
    else none
  payload := fun hash dimensions => do
    let width := dimensions.1
    let depth := dimensions.2.1
    let totalWeight ← Reader.u64
    let updates ← Reader.u64
    Reader.checkCount (width * depth) 8
    request (width * depth)
    let table ← Reader.u64s (width * depth)
    return { width, depth, conservative := dimensions.2.2, hash, table, totalWeight, updates }

theorem decoder_run (hashing : Hashing) (bytes : Bytes) :
    (decoder.run hashing bytes).2 = fromSnapshot hashing bytes := by
  have erases : ∀ hash dimensions, Erases (decoder.payload hash dimensions)
      (readPayload hash dimensions.1 dimensions.2.1 dimensions.2.2) := by
    intro hash dimensions
    refine .bind (.lift _) fun totalWeight => .bind (.lift _) fun updates => ?_
    refine .bind (.lift _) fun _ => .request ?_
    exact .bind (.lift _) fun table => .pure _
  rw [Decoder.run_erases erases]
  refine bind_congr fun found => if_congr Iff.rfl rfl (bind_congr fun read => ?_)
  dsimp only [decoder]
  split_ifs <;> rfl

end CountMinSketch

namespace CountSketch

def decoder : Decoder (Nat × Nat) CountSketch where
  algorithmId := algorithmId.countSketch
  notMine := "not a count-sketch snapshot"
  params := readParams
  refuse := fun dimensions =>
    if dimensions.1 = 0 ∨ dimensions.2 = 0 then
      some "count-sketch snapshot width and depth must be positive"
    else none
  payload := fun hash dimensions => do
    let width := dimensions.1
    let depth := dimensions.2
    let updates ← Reader.u64
    Reader.checkCount (width * depth) 8
    request (width * depth)
    let words ← Reader.u64s (width * depth)
    return { width, depth, hash, table := words.map (fun (w : Nat) => wrapI64 w), updates }

theorem decoder_run (hashing : Hashing) (bytes : Bytes) :
    (decoder.run hashing bytes).2 = fromSnapshot hashing bytes := by
  have erases : ∀ hash dimensions, Erases (decoder.payload hash dimensions)
      (readPayload hash dimensions.1 dimensions.2) := by
    intro hash dimensions
    refine .bind (.lift _) fun updates => .bind (.lift _) fun _ => .request ?_
    exact .bind (.lift _) fun table => .pure _
  rw [Decoder.run_erases erases]
  refine bind_congr fun found => if_congr Iff.rfl rfl (bind_congr fun read => ?_)
  dsimp only [decoder]
  split_ifs <;> rfl

end CountSketch

/-! ## Counters and levels -/

namespace MisraGries

def decoder : Decoder Nat MisraGries where
  algorithmId := algorithmId.misraGries
  notMine := "not a misra-gries snapshot"
  params := Reader.u64
  refuse := fun capacity =>
    if capacity = 0 then some "misra-gries snapshot capacity must be positive" else none
  payload := fun hash capacity => do
    let totalWeight ← Reader.u64
    let updates ← Reader.u64
    let n ← Reader.u32
    if n > capacity then
      Reader.fail ("misra-gries snapshot counter count " ++ toString n ++ " exceeds capacity " ++
        toString capacity)
    Reader.checkCount n (4 + 8)
    request n
    let counters ← readCounters n []
    return { capacity, hash, counters, totalWeight, updates }

theorem decoder_run (hashing : Hashing) (bytes : Bytes) :
    (decoder.run hashing bytes).2 = fromSnapshot hashing bytes := by
  have erases : ∀ hash capacity, Erases (decoder.payload hash capacity)
      (readPayload hash capacity) := by
    intro hash capacity
    refine .bind (.lift _) fun totalWeight => .bind (.lift _) fun updates => ?_
    refine .bind (.lift _) fun n => .guard (.bind (.lift _) fun _ => .request ?_)
    exact .bind (.lift _) fun counters => .pure _
  rw [Decoder.run_erases erases]
  refine bind_congr fun found => if_congr Iff.rfl rfl (bind_congr fun read => ?_)
  dsimp only [decoder]
  split_ifs <;> rfl

end MisraGries

namespace KllSketch

def allocLevels : Nat → Alloc (List (List Nat))
  | 0 => return []
  | n + 1 => do
    let len ← Reader.u32
    Reader.checkCount len 8
    request len
    let level ← Reader.u64s len
    let rest ← allocLevels n
    return level :: rest

def decoder : Decoder Nat KllSketch where
  algorithmId := algorithmId.kll
  notMine := "not a kll snapshot"
  params := Reader.u64
  refuse := fun k =>
    if k < minLevelCapacity then
      some ("kll snapshot k must be >= " ++ toString minLevelCapacity ++ ", got " ++ toString k)
    else none
  payload := fun hash k => do
    let n ← Reader.u64
    let rngState ← Reader.u64
    let updates ← Reader.u64
    let numLevels ← Reader.u32
    if numLevels > maxLevels then
      Reader.fail ("kll snapshot has " ++ toString numLevels ++ " levels, maximum is " ++
        toString maxLevels)
    Reader.checkCount numLevels 4
    request numLevels
    let levels ← allocLevels numLevels
    let levels := if levels.isEmpty then [[]] else levels
    return { k, hash, levels, n, rngState := UInt64.ofNat rngState, updates }

theorem allocLevels_erases (n : Nat) : Erases (allocLevels n) (readLevels n) := by
  induction n with
  | zero => exact .pure _
  | succ n ih =>
    refine .bind (.lift _) fun len => .bind (.lift _) fun _ => .request ?_
    exact .bind (.lift _) fun level => .bind ih fun rest => .pure _

theorem decoder_run (hashing : Hashing) (bytes : Bytes) :
    (decoder.run hashing bytes).2 = fromSnapshot hashing bytes := by
  have erases : ∀ hash k, Erases (decoder.payload hash k) (readPayload hash k) := by
    intro hash k
    refine .bind (.lift _) fun n => .bind (.lift _) fun rngState => .bind (.lift _) fun updates => ?_
    refine .bind (.lift _) fun numLevels => .guard (.bind (.lift _) fun _ => .request ?_)
    exact .bind (allocLevels_erases numLevels) fun levels => .pure _
  rw [Decoder.run_erases erases]
  refine bind_congr fun found => if_congr Iff.rfl rfl (bind_congr fun read => ?_)
  dsimp only [decoder]
  split_ifs <;> rfl

end KllSketch

/-! ## Registers -/

namespace HyperLogLog

def allocSparse (precision : Nat) : Alloc RegisterStorage := do
  let count ← Reader.u32
  if count > sparseLimit precision then
    Reader.fail ("hll sparse hash count " ++ toString count ++ " exceeds limit " ++
      toString (sparseLimit precision))
  Reader.checkCount count 8
  request count
  let hashes ← readHashes count none
  return match hashes with
    | [] => .empty
    | [hash] => .singleton hash
    | _ => .sparse hashes

def decoder : Decoder Nat HyperLogLog where
  algorithmId := algorithmId.hyperLogLog
  notMine := "not an hll snapshot"
  params := Reader.u8
  refuse := fun precision =>
    if ¬(minPrecision ≤ precision ∧ precision ≤ maxPrecision) then
      some ("hll snapshot precision must be in " ++ precisionRange ++ ", got " ++ toString precision)
    else none
  payload := fun hash precision => do
    let updates ← Reader.u64
    let encoding ← Reader.u8
    let storage ←
      if encoding = storageSparse then allocSparse precision
      else if encoding = storageDense then liftM (readDense precision)
      else liftM (Reader.fail ("unknown hll storage encoding " ++ toString encoding) :
        Read RegisterStorage)
    let left ← Reader.remaining
    if left ≠ 0 then Reader.fail "trailing bytes in hll snapshot payload"
    return { precision, hash, storage, updates }

theorem decoder_run (hashing : Hashing) (bytes : Bytes) :
    (decoder.run hashing bytes).2 = fromSnapshot hashing bytes := by
  have sparse : ∀ precision, Erases (allocSparse precision) (readSparse precision) := by
    intro precision
    refine .bind (.lift _) fun count => .guard (.bind (.lift _) fun _ => .request ?_)
    exact .bind (.lift _) fun hashes => .pure _
  have erases : ∀ hash precision, Erases (decoder.payload hash precision)
      (readPayload hash precision) := by
    intro hash precision
    refine .bind (.lift _) fun updates => .bind (.lift _) fun encoding => ?_
    dsimp only
    split_ifs
    · exact .bind (sparse precision) fun storage => .bind (.lift _) fun left => .guard (.pure _)
    · exact .bind (.lift _) fun storage => .bind (.lift _) fun left => .guard (.pure _)
    · exact .bind (.lift _) fun storage => .bind (.lift _) fun left => .guard (.pure _)
  rw [Decoder.run_erases erases]
  refine bind_congr fun found => if_congr Iff.rfl rfl (bind_congr fun read => ?_)
  dsimp only [decoder]
  split_ifs <;> rfl

end HyperLogLog

/-! ## Summaries -/

namespace SpaceSaving

/-- What is read and checked before the summary is made. -/
def readCounts (capacity : Nat) : Read (Nat × Nat × Nat) := do
  let totalWeight ← Reader.u64
  let updates ← Reader.u64
  let n ← Reader.u32
  if n > capacity then
    Reader.fail ("spacesaving snapshot entry count " ++ toString n ++ " exceeds capacity " ++
      toString capacity)
  Reader.checkCount n (4 + 8 + 8)
  return (totalWeight, updates, n)

/-- `SpaceSaving::new` sizes the slots, the key index and the heap by the capacity. -/
def decoder (hashing : Hashing) : Decoder Nat SpaceSaving where
  algorithmId := algorithmId.spaceSaving
  notMine := "not a spacesaving snapshot"
  params := Reader.u64
  refuse := fun capacity =>
    if capacity = 0 then some "spacesaving snapshot capacity must be positive" else none
  payload := fun hash capacity => do
    let counts ← readCounts capacity
    request capacity
    request capacity
    request capacity
    let summary ← (liftM (SpaceSaving.new capacity hash) : Read SpaceSaving)
    readEntries hashing counts.2.2 { summary with totalWeight := counts.1, updates := counts.2.1 }

theorem readPayload_eq (hashing : Hashing) (hash : HashSpec) (capacity : Nat) :
    readPayload hashing hash capacity = readCounts capacity >>= fun counts =>
      (liftM (SpaceSaving.new capacity hash) : Read SpaceSaving) >>= fun summary =>
        readEntries hashing counts.2.2
          { summary with totalWeight := counts.1, updates := counts.2.1 } := by
  simp only [readPayload, readCounts, bind_assoc]
  refine bind_congr fun totalWeight => bind_congr fun updates => bind_congr fun n => ?_
  split_ifs
  · rfl
  · simp only [bind_assoc, pure_bind]

theorem decoder_run (hashing : Hashing) (bytes : Bytes) :
    ((decoder hashing).run hashing bytes).2 = fromSnapshot hashing bytes := by
  have erases : ∀ hash capacity, Erases ((decoder hashing).payload hash capacity)
      (readPayload hashing hash capacity) := by
    intro hash capacity
    rw [readPayload_eq]
    refine .bind (.lift _) fun counts => .request (.request (.request ?_))
    exact .bind (.lift _) fun summary => .lift _
  rw [Decoder.run_erases erases]
  refine bind_congr fun found => if_congr Iff.rfl rfl (bind_congr fun read => ?_)
  dsimp only [decoder]
  split_ifs <;> rfl

end SpaceSaving

/-! ## Maps of registers -/

namespace HllMap

variable {F : Type} (cardinality : Cardinality F)

def allocSlots (hashing : Hashing) (hash : HashSpec) (precision : Nat) :
    Nat → List (Bytes × HllSlot F) → Alloc (List (Bytes × HllSlot F))
  | 0, slots => return slots
  | n + 1, slots => do
    let key ← Reader.lpBytes
    let inner ← Reader.lpBytes
    let hll ← nested (HyperLogLog.decoder.run hashing inner)
    if hll.precision ≠ precision then
      Reader.fail ("hllmap inner hll precision " ++ toString hll.precision ++
        " does not match outer precision " ++ toString precision)
    if hll.hash ≠ hash then
      Reader.fail "hllmap inner hll hash does not match outer hash"
    allocSlots hashing hash precision n
      (Lib.AssocMap.insert key
        { hll, cachedCardinality := cardinality.of hll, dirty := false } slots)

/-- Everything that is read; the eviction heap comes after. -/
def allocMap (hashing : Hashing) (hash : HashSpec) (maxKeys precision : Nat) :
    Alloc (Nat × Nat × List (Bytes × HllSlot F)) := do
  let updates ← Reader.u64
  let evictedKeys ← Reader.u64
  let n ← Reader.u32
  if n > maxKeys then
    Reader.fail ("hllmap snapshot entry count " ++ toString n ++ " exceeds max_keys " ++
      toString maxKeys)
  Reader.checkCount n (4 + 4)
  request n
  let map ← allocSlots cardinality hashing hash precision n []
  return (updates, evictedKeys, map)

/-- The eviction heap is sized by `max_keys`, and `rebuild_eviction_heap` reserves the keys there are. -/
def decoder (hashing : Hashing) : Decoder (Nat × Nat) (HllMap F) where
  algorithmId := algorithmId.hllMap
  notMine := "not an hllmap snapshot"
  params := readParams
  refuse := fun parameters =>
    if parameters.1 = 0 then some "hllmap snapshot max_keys must be positive"
    else if ¬(HyperLogLog.minPrecision ≤ parameters.2 ∧ parameters.2 ≤ HyperLogLog.maxPrecision) then
      some ("hllmap snapshot precision must be in " ++ HyperLogLog.precisionRange ++ ", got " ++
        toString parameters.2)
    else none
  payload := fun hash parameters => do
    let found ← allocMap cardinality hashing hash parameters.1 parameters.2
    request parameters.1
    request found.2.2.length
    let result : HllMap F :=
      { maxKeys := parameters.1, precision := parameters.2, hash, map := found.2.2, eviction := [],
        evictedKeys := found.2.1, updates := found.1 }
    return result.rebuildEvictionHeap cardinality

/-- The plain reader of what `allocMap` reads. -/
def readMap (hashing : Hashing) (hash : HashSpec) (maxKeys precision : Nat) :
    Read (Nat × Nat × List (Bytes × HllSlot F)) := do
  let updates ← Reader.u64
  let evictedKeys ← Reader.u64
  let n ← Reader.u32
  if n > maxKeys then
    Reader.fail ("hllmap snapshot entry count " ++ toString n ++ " exceeds max_keys " ++
      toString maxKeys)
  Reader.checkCount n (4 + 4)
  let map ← readSlots cardinality hashing hash precision n []
  return (updates, evictedKeys, map)

theorem readPayload_eq (hashing : Hashing) (hash : HashSpec) (maxKeys precision : Nat) :
    readPayload cardinality hashing hash maxKeys precision =
      readMap cardinality hashing hash maxKeys precision >>= fun found =>
        pure (({ maxKeys, precision, hash, map := found.2.2, eviction := [], evictedKeys := found.2.1,
                 updates := found.1 } : HllMap F).rebuildEvictionHeap cardinality) := by
  simp only [readPayload, readMap, bind_assoc]
  refine bind_congr fun updates => bind_congr fun evictedKeys => bind_congr fun n => ?_
  split_ifs
  · rfl
  · simp only [bind_assoc, pure_bind]

theorem allocSlots_erases (hashing : Hashing) (hash : HashSpec) (precision n : Nat)
    (slots : List (Bytes × HllSlot F)) :
    Erases (allocSlots cardinality hashing hash precision n slots)
      (readSlots cardinality hashing hash precision n slots) := by
  induction n generalizing slots with
  | zero => exact .pure _
  | succ n ih =>
    refine .bind (.lift _) fun key => .bind (.lift _) fun inner => .bind ?_ fun hll => ?_
    · intro rest
      show (HyperLogLog.decoder.run hashing inner).2.map (fun value => (value, rest)) = _
      rw [HyperLogLog.decoder_run]
      cases HyperLogLog.fromSnapshot hashing inner <;> rfl
    · exact .guard (.guard (ih _))

theorem allocMap_erases (hashing : Hashing) (hash : HashSpec) (maxKeys precision : Nat) :
    Erases (allocMap cardinality hashing hash maxKeys precision)
      (readMap cardinality hashing hash maxKeys precision) := by
  refine .bind (.lift _) fun updates => .bind (.lift _) fun evictedKeys => .bind (.lift _) fun n => ?_
  refine .guard (.bind (.lift _) fun _ => .request ?_)
  exact .bind (allocSlots_erases cardinality hashing hash precision n []) fun map => .pure _

theorem decoder_run (hashing : Hashing) (bytes : Bytes) :
    ((decoder cardinality hashing).run hashing bytes).2 = fromSnapshot cardinality hashing bytes := by
  have erases : ∀ hash parameters, Erases ((decoder cardinality hashing).payload hash parameters)
      (readPayload cardinality hashing hash parameters.1 parameters.2) := by
    intro hash parameters
    rw [readPayload_eq]
    refine .bind (allocMap_erases cardinality hashing hash _ _) fun found => ?_
    exact .request (.request (.pure _))
  rw [Decoder.run_erases erases]
  refine bind_congr fun found => if_congr Iff.rfl rfl (bind_congr fun read => ?_)
  dsimp only [decoder]
  split_ifs <;> rfl

end HllMap

/-! ## All decoders -/

section

variable {F : Type} (cardinality : Cardinality F)

end

end FlowSketch.Source
