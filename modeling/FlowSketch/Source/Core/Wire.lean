import FlowSketch.Source.Core.Snapshot
import FlowSketch.Lib.Word64

/-!
# Reading back what was written

Each read of the `FSK1` format undoes the write of the same field and leaves the bytes behind it; so
a payload is read back one field at a time. `read_written` puts the envelope together.
-/

namespace FlowSketch.Lib.Octets

@[simp] theorem leBytes_length (width value : Nat) : (leBytes width value).length = width := by
  induction width generalizing value with
  | zero => rfl
  | succ width ih => rw [leBytes, List.length_cons, ih]

theorem leValue_leBytes {width value : Nat} (fits : value < 256 ^ width) :
    leValue (leBytes width value) = value := by
  induction width generalizing value with
  | zero =>
    rw [Nat.pow_zero, Nat.lt_one_iff] at fits
    rw [fits]
    rfl
  | succ width ih =>
    have rest : value / 256 < 256 ^ width := by
      rw [Nat.div_lt_iff_lt_mul (by decide), ← Nat.pow_succ]
      exact fits
    have octet : (UInt8.ofNat value).toNat = value % 256 := UInt8.toNat_ofNat'
    rw [leBytes, leValue, ih rest, octet]
    omega

theorem leBytes_leValue (octets : Bytes) : leBytes octets.length (leValue octets) = octets := by
  induction octets with
  | nil => rfl
  | cons octet rest ih =>
    have small := octet.toNat_lt
    have low : UInt8.ofNat (octet.toNat + 256 * leValue rest) = octet := by
      rw [← UInt8.toNat_inj, UInt8.toNat_ofNat']
      omega
    have high : (octet.toNat + 256 * leValue rest) / 256 = leValue rest := by omega
    rw [leValue, List.length_cons, leBytes, low, high, ih]

theorem leValue_lt (octets : Bytes) : leValue octets < 256 ^ octets.length := by
  induction octets with
  | nil => exact Nat.one_pos
  | cons octet rest ih =>
    have small := octet.toNat_lt
    rw [leValue, List.length_cons, Nat.pow_succ]
    omega

end FlowSketch.Lib.Octets

namespace FlowSketch.Source.Core
open Lib.Octets Lib.Word64

/-! ## Running a reader forward -/

theorem Read.bind_run {α β : Type} {first : Read α} {next : α → Read β} {rest later : Bytes}
    {value : α} (read : first rest = .ok (value, later)) :
    (first >>= next) rest = next value later := by
  change (first rest >>= fun result => next result.1 result.2) = next value later
  rw [read]
  rfl

theorem Read.lift_run {α : Type} {result : Except SketchError α} {value : α}
    (success : result = .ok value) (rest : Bytes) :
    (liftM result : Read α) rest = .ok (value, rest) := by
  rw [success]
  rfl

theorem Read.guard_run {condition : Prop} [Decidable condition] {α : Type} {message : String}
    {next : Unit → Read α} (unmet : ¬condition) (rest : Bytes) :
    (if condition then Reader.fail message >>= next else next ()) rest = next () rest := by
  rw [if_neg unmet]

namespace Reader

theorem take_append (octets rest : Bytes) :
    take octets.length (octets ++ rest) = .ok (octets, rest) := by
  unfold take
  rw [if_neg (by simp), List.take_left, List.drop_left]

theorem int_leBytes {width value : Nat} (fits : value < 256 ^ width) (rest : Bytes) :
    int width (leBytes width value ++ rest) = .ok (value, rest) := by
  have taken := take_append (leBytes width value) rest
  rw [leBytes_length] at taken
  rw [int, Read.bind_run taken, leValue_leBytes fits]
  rfl

theorem u8_leBytes {value : Nat} (fits : value < 2 ^ 8) (rest : Bytes) :
    u8 (leBytes 1 value ++ rest) = .ok (value, rest) := int_leBytes (by omega) rest

theorem u16_leBytes {value : Nat} (fits : value < 2 ^ 16) (rest : Bytes) :
    u16 (leBytes 2 value ++ rest) = .ok (value, rest) := int_leBytes (by omega) rest

theorem u32_leBytes {value : Nat} (fits : value < 2 ^ 32) (rest : Bytes) :
    u32 (leBytes 4 value ++ rest) = .ok (value, rest) := int_leBytes (by omega) rest

theorem u64_leBytes {value : Nat} (fits : value < modulus) (rest : Bytes) :
    u64 (leBytes 8 value ++ rest) = .ok (value, rest) := by
  refine int_leBytes ?_ rest
  unfold modulus at fits
  omega

/-- `Writer::lp_bytes`. -/
def writeLpBytes (octets : Bytes) : Bytes := leBytes 4 octets.length ++ octets

theorem lpBytes_writeLpBytes {octets : Bytes} (fits : octets.length < 2 ^ 32) (rest : Bytes) :
    lpBytes (writeLpBytes octets ++ rest) = .ok (octets, rest) := by
  rw [writeLpBytes, List.append_assoc, lpBytes, Read.bind_run (u32_leBytes fits _)]
  exact take_append octets rest

theorem checkCount_run {count minBytesEach : Nat} {rest : Bytes} (positive : 0 < minBytesEach)
    (enough : count * minBytesEach ≤ rest.length) :
    checkCount count minBytesEach rest = .ok ((), rest) := by
  have looked : remaining rest = .ok (rest.length, rest) := rfl
  rw [checkCount, Read.bind_run looked, Nat.max_eq_left positive,
    if_neg (Nat.not_lt.mpr ((Nat.le_div_iff_mul_le positive).mpr enough))]
  rfl

/-- `for _ in 0..n { items.push(r.u64()?) }`. -/
def u64s : Nat → Read (List Nat)
  | 0 => return []
  | n + 1 => do
    let value ← u64
    let rest ← u64s n
    return value :: rest

def writeU64s (values : List Nat) : Bytes := values.flatMap (leBytes 8)

@[simp] theorem writeU64s_length (values : List Nat) :
    (writeU64s values).length = values.length * 8 := by
  induction values with
  | nil => rfl
  | cons value rest ih =>
    rw [writeU64s, List.flatMap_cons, List.length_append, ← writeU64s, ih, leBytes_length,
      List.length_cons]
    omega

theorem u64s_writeU64s {values : List Nat} (fits : ∀ value ∈ values, value < modulus)
    (rest : Bytes) : u64s values.length (writeU64s values ++ rest) = .ok (values, rest) := by
  induction values with
  | nil => rfl
  | cons value values ih =>
    have head : u64 (writeU64s (value :: values) ++ rest) =
        .ok (value, writeU64s values ++ rest) := by
      rw [writeU64s, List.flatMap_cons, List.append_assoc]
      exact u64_leBytes (fits value List.mem_cons_self) _
    have tail := ih (fun other member => fits other (List.mem_cons_of_mem _ member))
    rw [List.length_cons, u64s, Read.bind_run head, Read.bind_run tail]
    rfl

/-! ## What was read was there -/

theorem take_ok {n : Nat} {rest octets later : Bytes} (read : take n rest = .ok (octets, later)) :
    rest = octets ++ later ∧ octets.length = n := by
  unfold take at read
  split at read
  · cases read
  next enough =>
    cases read
    exact ⟨(List.take_append_drop n rest).symm, by rw [List.length_take]; omega⟩

theorem int_ok {width value : Nat} {rest later : Bytes} (read : int width rest = .ok (value, later)) :
    rest = leBytes width value ++ later := by
  obtain ⟨octets, _, taken, read⟩ := Read.bind_ok read
  cases read
  obtain ⟨split, length⟩ := take_ok taken
  rw [split, ← length, leBytes_leValue]

theorem int_lt {width value : Nat} {rest later : Bytes} (read : int width rest = .ok (value, later)) :
    value < 256 ^ width := by
  obtain ⟨octets, _, taken, read⟩ := Read.bind_ok read
  cases read
  have bound := leValue_lt octets
  rwa [(take_ok taken).2] at bound

theorem lpBytes_ok {rest octets later : Bytes} (read : lpBytes rest = .ok (octets, later)) :
    rest = writeLpBytes octets ++ later := by
  obtain ⟨length, body, counted, read⟩ := Read.bind_ok read
  obtain ⟨split, own⟩ := take_ok read
  rw [int_ok counted, split, writeLpBytes, own, List.append_assoc]

end Reader

/-! ## The envelope -/

/-- The header fields fit the widths they are written with. -/
structure SnapshotHeader.Sized (header : SnapshotHeader) : Prop where
  version : header.version = snapshotVersion
  algorithmId : header.algorithmId < 2 ^ 16
  windowStart : header.windowStartNanos < modulus
  windowEnd : header.windowEndNanos < modulus

theorem readBody_snapshotBody {header : SnapshotHeader} (sized : header.Sized)
    {params payload : Bytes} (paramsFit : params.length < 2 ^ 32)
    (payloadFit : payload.length < 2 ^ 32) (rest : Bytes) :
    readBody (snapshotBody header params payload ++ rest) = .ok ((header, params, payload), rest) := by
  obtain ⟨version, algorithmId, ⟨family, seed, hashVersion⟩, windowStart, windowEnd⟩ := header
  obtain ⟨versionIs, algorithmFits, startFits, endFits⟩ := sized
  simp only at versionIs algorithmFits startFits endFits
  subst versionIs
  cases family
  have fields : snapshotBody
      ⟨snapshotVersion, algorithmId, ⟨.fsk1, seed, hashVersion⟩, windowStart, windowEnd⟩
      params payload ++ rest =
      magic ++ (leBytes 2 snapshotVersion ++ (leBytes 2 algorithmId ++ (leBytes 1 0 ++
        (leBytes 8 seed.toNat ++ (leBytes 2 hashVersion.toNat ++ (leBytes 8 windowStart ++
        (leBytes 8 windowEnd ++ (leBytes 4 params.length ++ (params ++
        (leBytes 4 payload.length ++ (payload ++ rest))))))))))) := by
    simp only [snapshotBody, List.append_assoc]
  rw [fields]
  refine (Read.bind_run (Reader.take_append magic _)).trans ?_
  refine (Read.guard_run (not_not.mpr rfl) _).trans ?_
  refine (Read.bind_run (Reader.u16_leBytes (by decide) _)).trans ?_
  refine (Read.guard_run (not_not.mpr rfl) _).trans ?_
  refine (Read.bind_run (Reader.u16_leBytes algorithmFits _)).trans ?_
  refine (Read.bind_run (Reader.u8_leBytes (by decide) _)).trans ?_
  refine (Read.guard_run (not_not.mpr rfl) _).trans ?_
  refine (Read.bind_run (Reader.u64_leBytes seed.toNat_lt _)).trans ?_
  refine (Read.bind_run (Reader.u16_leBytes hashVersion.toNat_lt _)).trans ?_
  refine (Read.bind_run (Reader.u64_leBytes startFits _)).trans ?_
  refine (Read.bind_run (Reader.u64_leBytes endFits _)).trans ?_
  refine (Read.bind_run (Reader.u32_leBytes paramsFit _)).trans ?_
  refine (Read.bind_run (Reader.take_append params _)).trans ?_
  refine (Read.bind_run (Reader.u32_leBytes payloadFit _)).trans ?_
  refine (Read.bind_run (Reader.take_append payload rest)).trans ?_
  simp only [UInt64.ofNat_toNat, UInt16.ofNat_toNat]
  rfl

theorem snapshotBody_length (header : SnapshotHeader) (params payload : Bytes) :
    (snapshotBody header params payload).length = 43 + params.length + payload.length := by
  simp only [snapshotBody, magic, List.length_append, leBytes_length, List.length_cons,
    List.length_nil]
  omega

/-- A body with its checksum behind it is read as the body alone. -/
theorem readSnapshot_sealed (hashing : Hashing) {body : Bytes} (long : 43 ≤ body.length) :
    readSnapshot hashing (body ++ leBytes 8 (hashing.hash64 body 0).toNat) =
      (readBody body).map Prod.fst := by
  have size : (body ++ leBytes 8 (hashing.hash64 body 0).toNat).length - 8 = body.length := by
    simp
  have checksum : leValue (leBytes 8 (hashing.hash64 body 0).toNat) =
      (hashing.hash64 body 0).toNat := leValue_leBytes (hashing.hash64 body 0).toNat_lt
  unfold readSnapshot
  simp only [size, List.take_left, List.drop_left, checksum, ne_eq, not_true_eq_false, if_false]
  rw [if_neg]
  rw [List.length_append, leBytes_length]
  omega

/-- Reading a written snapshot gives back the header, the parameters and the payload. -/
theorem read_written (hashing : Hashing) {header : SnapshotHeader} (sized : header.Sized)
    {params payload : Bytes} (paramsFit : params.length < 2 ^ 32)
    (payloadFit : payload.length < 2 ^ 32) :
    readSnapshot hashing (writeSnapshot hashing header params payload) =
      .ok (header, params, payload) := by
  have decoded := readBody_snapshotBody sized paramsFit payloadFit []
  rw [List.append_nil] at decoded
  have long := snapshotBody_length header params payload
  rw [writeSnapshot, readSnapshot_sealed hashing (by omega), decoded]
  rfl

/-- What passes the checksum is a body with its checksum behind it. -/
theorem sealed_of_checksum {hashing : Hashing} {bytes : Bytes} (long : 8 ≤ bytes.length)
    (checked : (hashing.hash64 (bytes.take (bytes.length - 8)) 0).toNat =
      leValue (bytes.drop (bytes.length - 8))) :
    bytes.take (bytes.length - 8) ++
      leBytes 8 (hashing.hash64 (bytes.take (bytes.length - 8)) 0).toNat = bytes := by
  have width : (bytes.drop (bytes.length - 8)).length = 8 := by
    rw [List.length_drop]
    omega
  have tail := leBytes_leValue (bytes.drop (bytes.length - 8))
  rw [width] at tail
  rw [checked, tail, List.take_append_drop]

/-! ## Sketches and their snapshots -/

theorem read_sketch (hashing : Hashing) {algorithmId windowStart windowEnd : Nat}
    (id : algorithmId < 2 ^ 16) (hash : HashSpec) (start : windowStart < modulus)
    (stop : windowEnd < modulus) {params payload : Bytes} (paramsFit : params.length < 2 ^ 32)
    (payloadFit : payload.length < 2 ^ 32) :
    readSnapshot hashing (writeSnapshot hashing
      { version := snapshotVersion, algorithmId, hash, windowStartNanos := windowStart,
        windowEndNanos := windowEnd } params payload) =
      .ok ({ version := snapshotVersion, algorithmId, hash, windowStartNanos := windowStart,
             windowEndNanos := windowEnd }, params, payload) :=
  read_written hashing ⟨rfl, id, start, stop⟩ paramsFit payloadFit

/-- A sketch as the snapshot format sees it. `same` is equality of what a sketch holds, whatever the
layout it is held in. -/
structure Codec (S : Type) where
  algorithmId : Nat
  hash : S → HashSpec
  toSnapshot : S → Nat → Nat → Bytes
  fromSnapshot : Bytes → Except SketchError S
  same : S → S → Prop

/-- Decoding gives back what the sketch holds, encoding that again gives the same bytes, layouts do
not show, and the header can be read off. -/
structure Codec.RoundTrips {S : Type} (codec : Codec S) (hashing : Hashing) (valid : S → Prop) (s : S)
    (windowStart windowEnd : Nat) : Prop where
  decodes : ∃ t, codec.fromSnapshot (codec.toSnapshot s windowStart windowEnd) = .ok t ∧
    codec.same s t ∧
    codec.toSnapshot t windowStart windowEnd = codec.toSnapshot s windowStart windowEnd
  layout : ∀ t, valid t → codec.same s t →
    codec.toSnapshot t windowStart windowEnd = codec.toSnapshot s windowStart windowEnd
  header : ∃ params payload,
    readSnapshot hashing (codec.toSnapshot s windowStart windowEnd) =
      .ok ({ version := snapshotVersion, algorithmId := codec.algorithmId, hash := codec.hash s,
             windowStartNanos := windowStart, windowEndNanos := windowEnd }, params, payload)

/-- For a sketch with a single layout, decoding is all there is to show. -/
theorem Codec.RoundTrips.of_eq {S : Type} {codec : Codec S} {hashing : Hashing} {valid : S → Prop}
    {s : S} {windowStart windowEnd : Nat} (plain : ∀ s t, codec.same s t ↔ s = t)
    (decodes : codec.fromSnapshot (codec.toSnapshot s windowStart windowEnd) = .ok s)
    (header : ∃ params payload,
      readSnapshot hashing (codec.toSnapshot s windowStart windowEnd) =
        .ok ({ version := snapshotVersion, algorithmId := codec.algorithmId, hash := codec.hash s,
               windowStartNanos := windowStart, windowEndNanos := windowEnd }, params, payload)) :
    codec.RoundTrips hashing valid s windowStart windowEnd where
  decodes := ⟨s, decodes, (plain s s).mpr rfl, rfl⟩
  layout t _ equal := by rw [(plain s t).mp equal]
  header := header

end FlowSketch.Source.Core
