import FlowSketch.Source.Core.Wire

/-!
# Push batches

`crates/flowsketch-gateway/src/batch.rs`: the `FSKB` envelope of one push of an agent. Names are UTF-8 and
bounded, every part is written with its length, and a checksum closes the body.
-/

namespace FlowSketch.Source.Gateway
open Lib.Octets Lib.Word64 Source.Core

/-! ## Strings -/

/-- `str::as_bytes`. -/
def asBytes (value : String) : Bytes := value.toByteArray.data.toList

/-- `String::from_utf8`. -/
def fromUtf8 (bytes : Bytes) : Option String := String.fromUTF8? ⟨bytes.toArray⟩

/-- `char::is_whitespace`: the `White_Space` property. -/
def isWhitespace (c : Char) : Bool :=
  (0x09 ≤ c.toNat && c.toNat ≤ 0x0D) || c.toNat = 0x20 || c.toNat = 0x85 || c.toNat = 0xA0 ||
    c.toNat = 0x1680 || (0x2000 ≤ c.toNat && c.toNat ≤ 0x200A) || c.toNat = 0x2028 ||
    c.toNat = 0x2029 || c.toNat = 0x202F || c.toNat = 0x205F || c.toNat = 0x3000

/-- `str::trim`, as the characters left. -/
def trim (value : String) : List Char :=
  ((value.toList.dropWhile isWhitespace).reverse.dropWhile isWhitespace).reverse

theorem fromUtf8_asBytes (value : String) : fromUtf8 (asBytes value) = some value := by
  have whole : (⟨(asBytes value).toArray⟩ : ByteArray) = value.toByteArray := by
    rw [asBytes, Array.toArray_toList]
  rw [fromUtf8, whole, String.fromUTF8?, dif_pos value.isValidUTF8]
  rfl

theorem asBytes_of_fromUtf8 {bytes : Bytes} {value : String} (read : fromUtf8 bytes = some value) :
    asBytes value = bytes := by
  unfold fromUtf8 String.fromUTF8? at read
  split at read
  · cases read
    exact List.toList_toArray
  · cases read

theorem asBytes_inj {left right : String} (same : asBytes left = asBytes right) : left = right := by
  have both := fromUtf8_asBytes left
  rw [same, fromUtf8_asBytes] at both
  exact (Option.some.inj both).symm

theorem trim_isEmpty_iff (value : String) :
    (trim value).isEmpty ↔ ∀ c ∈ value.toList, isWhitespace c := by
  rw [trim, List.isEmpty_iff, List.reverse_eq_nil_iff, List.dropWhile_eq_nil_iff]
  constructor
  · intro blank
    have nothing : value.toList.dropWhile isWhitespace = [] := by
      by_contra some_left
      have first := List.head_dropWhile_not isWhitespace some_left
      rw [blank _ (List.mem_reverse.mpr (List.head_mem some_left))] at first
      exact Bool.false_ne_true first.symm
    exact List.dropWhile_eq_nil_iff.mp nothing
  · intro blank c member
    exact blank c (List.dropWhile_subset _ (List.mem_reverse.mp member))

/-! ## The envelope -/

def batchMagic : Bytes := [0x46, 0x53, 0x4B, 0x42]
def batchVersion : Nat := 1
def maxEntries : Nat := 4096
def maxNodeNameBytes : Nat := 253
def maxQueryNameBytes : Nat := 256
def maxComponentNameBytes : Nat := 128

structure PushEntry where
  queryName : String
  component : String
  snapshot : Bytes
  deriving DecidableEq, Repr

structure PushBatch where
  node : String
  entries : List PushEntry
  deriving DecidableEq, Repr

def PushEntry.write (entry : PushEntry) : Bytes :=
  Reader.writeLpBytes (asBytes entry.queryName) ++ Reader.writeLpBytes (asBytes entry.component) ++
    Reader.writeLpBytes entry.snapshot

namespace PushBatch

/-- Everything before the checksum. -/
def body (batch : PushBatch) : Bytes :=
  batchMagic ++ leBytes 2 batchVersion ++ Reader.writeLpBytes (asBytes batch.node) ++
    leBytes 4 batch.entries.length ++ batch.entries.flatMap PushEntry.write

def encode (hashing : Hashing) (batch : PushBatch) : Bytes :=
  batch.body ++ leBytes 8 (hashing.hash64 batch.body 0).toNat

end PushBatch

def utf8Bounded (bytes : Bytes) (what : String) (maxBytes : Nat) : Except SketchError String :=
  if bytes.isEmpty then .error (.snapshot ("push batch " ++ what ++ " must not be empty"))
  else if bytes.length > maxBytes then
    .error (.snapshot ("push batch " ++ what ++ " is " ++ toString bytes.length ++ " bytes (max " ++
      toString maxBytes ++ ")"))
  else
    match fromUtf8 bytes with
    | none => .error (.snapshot ("push batch " ++ what ++ " is not UTF-8"))
    | some value =>
      if (trim value).isEmpty then .error (.snapshot ("push batch " ++ what ++ " must not be blank"))
      else .ok value

def readName (what : String) (maxBytes : Nat) : Read String := do
  let bytes ← Reader.lpBytes
  liftM (utf8Bounded bytes what maxBytes)

def readEntries : Nat → Read (List PushEntry)
  | 0 => return []
  | n + 1 => do
    let queryName ← readName "query name" maxQueryNameBytes
    let component ← readName "component" maxComponentNameBytes
    let snapshot ← Reader.lpBytes
    let rest ← readEntries n
    return { queryName, component, snapshot } :: rest

def readBatch : Read PushBatch := do
  let found ← Reader.take 4
  if found ≠ batchMagic then Reader.fail "bad magic (expected FSKB)"
  let version ← Reader.u16
  if version ≠ batchVersion then
    Reader.fail ("unsupported push batch version " ++ toString version)
  let node ← readName "node" maxNodeNameBytes
  let count ← Reader.u32
  if count > maxEntries then
    Reader.fail ("push batch declares " ++ toString count ++ " entries (max " ++ toString maxEntries ++
      ")")
  let entries ← readEntries count
  let left ← Reader.remaining
  if left ≠ 0 then Reader.fail "trailing bytes after push batch entries"
  return { node, entries }

def PushBatch.decode (hashing : Hashing) (bytes : Bytes) : Except SketchError PushBatch :=
  if bytes.length < 4 + 2 + 4 + 4 + 8 then .error (.snapshot "push batch too short")
  else
    let body := bytes.take (bytes.length - 8)
    let tail := bytes.drop (bytes.length - 8)
    if (hashing.hash64 body 0).toNat ≠ leValue tail then
      .error (.snapshot "push batch checksum mismatch")
    else (readBatch body).map Prod.fst

/-! ## Names -/

/-- Not blank, and within the limit. -/
structure WellNamed (name : String) (maxBytes : Nat) : Prop where
  nonblank : ∃ c ∈ name.toList, ¬isWhitespace c
  short : (asBytes name).length ≤ maxBytes

/-- Exactly the well-formed names are taken. -/
theorem utf8Bounded_ok_iff {bytes : Bytes} {what : String} {maxBytes : Nat} {value : String} :
    utf8Bounded bytes what maxBytes = .ok value ↔ asBytes value = bytes ∧ WellNamed value maxBytes := by
  constructor
  · intro taken
    unfold utf8Bounded at taken
    split at taken
    · cases taken
    split at taken
    · cases taken
    next short =>
      split at taken
      · cases taken
      next found read =>
        split at taken
        · cases taken
        next visible =>
          cases taken
          have own := asBytes_of_fromUtf8 read
          refine ⟨own, ?_, by rw [own]; omega⟩
          rw [trim_isEmpty_iff] at visible
          push Not at visible
          exact visible
  · rintro ⟨rfl, ⟨c, member, visible⟩, short⟩
    have some_byte : ¬(asBytes value).isEmpty := by
      intro empty
      have same : asBytes value = asBytes "" := List.isEmpty_iff.mp empty
      rw [asBytes_inj same] at member
      cases member
    have shown : ¬(trim value).isEmpty := fun blank => visible ((trim_isEmpty_iff value).mp blank c member)
    rw [utf8Bounded, if_neg some_byte, if_neg (Nat.not_lt.mpr short), fromUtf8_asBytes]
    exact if_neg shown

theorem readName_run {name what : String} {maxBytes : Nat} (wellNamed : WellNamed name maxBytes)
    (fits : (asBytes name).length < 2 ^ 32) (rest : Bytes) :
    readName what maxBytes (Reader.writeLpBytes (asBytes name) ++ rest) = .ok (name, rest) := by
  rw [readName, Read.bind_run (Reader.lpBytes_writeLpBytes fits rest)]
  exact Read.lift_run (utf8Bounded_ok_iff.mpr ⟨rfl, wellNamed⟩) rest

theorem readName_ok {name what : String} {maxBytes : Nat} {rest later : Bytes}
    (read : readName what maxBytes rest = .ok (name, later)) :
    rest = Reader.writeLpBytes (asBytes name) ++ later ∧ WellNamed name maxBytes := by
  obtain ⟨bytes, behind, taken, read⟩ := Read.bind_ok read
  obtain ⟨checked, rfl⟩ := Read.lift_ok read
  obtain ⟨rfl, wellNamed⟩ := utf8Bounded_ok_iff.mp checked
  exact ⟨Reader.lpBytes_ok taken, wellNamed⟩

/-- Of a written name only that name is read. -/
theorem readName_written {name value what : String} {maxBytes : Nat} {rest later : Bytes}
    (fits : (asBytes name).length < 2 ^ 32)
    (read : readName what maxBytes (Reader.writeLpBytes (asBytes name) ++ rest) = .ok (value, later)) :
    value = name ∧ later = rest ∧ WellNamed name maxBytes := by
  obtain ⟨bytes, behind, taken, read⟩ := Read.bind_ok read
  rw [Reader.lpBytes_writeLpBytes fits] at taken
  cases taken
  obtain ⟨checked, rfl⟩ := Read.lift_ok read
  obtain ⟨same, wellNamed⟩ := utf8Bounded_ok_iff.mp checked
  cases asBytes_inj same
  exact ⟨rfl, rfl, wellNamed⟩

/-! ## Entries -/

structure PushEntry.WellFormed (entry : PushEntry) : Prop where
  queryName : WellNamed entry.queryName maxQueryNameBytes
  component : WellNamed entry.component maxComponentNameBytes

/-- Every part fits the 32 bits its length is written with. -/
structure PushEntry.Sized (entry : PushEntry) : Prop where
  queryName : (asBytes entry.queryName).length < 2 ^ 32
  component : (asBytes entry.component).length < 2 ^ 32
  snapshot : entry.snapshot.length < 2 ^ 32

theorem PushEntry.write_append (entry : PushEntry) (rest : Bytes) :
    entry.write ++ rest = Reader.writeLpBytes (asBytes entry.queryName) ++
      (Reader.writeLpBytes (asBytes entry.component) ++ (Reader.writeLpBytes entry.snapshot ++ rest)) := by
  simp only [PushEntry.write, List.append_assoc]

theorem readEntries_run {entries : List PushEntry} (sized : ∀ entry ∈ entries, entry.Sized)
    (wellFormed : ∀ entry ∈ entries, entry.WellFormed) (rest : Bytes) :
    readEntries entries.length (entries.flatMap PushEntry.write ++ rest) = .ok (entries, rest) := by
  induction entries with
  | nil => rfl
  | cons entry entries ih =>
    rw [List.forall_mem_cons] at sized wellFormed
    rw [List.flatMap_cons, List.append_assoc, PushEntry.write_append]
    refine (Read.bind_run (readName_run wellFormed.1.queryName sized.1.queryName _)).trans ?_
    refine (Read.bind_run (readName_run wellFormed.1.component sized.1.component _)).trans ?_
    refine (Read.bind_run (Reader.lpBytes_writeLpBytes sized.1.snapshot _)).trans ?_
    exact Read.bind_run (ih sized.2 wellFormed.2)

theorem readEntries_ok {count : Nat} {entries : List PushEntry} {rest later : Bytes}
    (read : readEntries count rest = .ok (entries, later)) :
    rest = entries.flatMap PushEntry.write ++ later ∧ entries.length = count := by
  induction count generalizing entries rest later with
  | zero =>
    cases read
    exact ⟨rfl, rfl⟩
  | succ count ih =>
    obtain ⟨queryName, _, first, read⟩ := Read.bind_ok read
    obtain ⟨component, _, second, read⟩ := Read.bind_ok read
    obtain ⟨snapshot, _, third, read⟩ := Read.bind_ok read
    obtain ⟨others, _, tail, read⟩ := Read.bind_ok read
    cases read
    obtain ⟨split, length⟩ := ih tail
    refine ⟨?_, by rw [List.length_cons, length]⟩
    rw [(readName_ok first).1, (readName_ok second).1, Reader.lpBytes_ok third, split,
      List.flatMap_cons, List.append_assoc, PushEntry.write_append]

theorem readEntries_written {entries found : List PushEntry} {rest later : Bytes}
    (sized : ∀ entry ∈ entries, entry.Sized)
    (read : readEntries entries.length (entries.flatMap PushEntry.write ++ rest) = .ok (found, later)) :
    found = entries ∧ later = rest ∧ ∀ entry ∈ entries, entry.WellFormed := by
  induction entries generalizing found later with
  | nil =>
    cases read
    exact ⟨rfl, rfl, by simp⟩
  | cons entry entries ih =>
    rw [List.forall_mem_cons] at sized
    rw [List.flatMap_cons, List.append_assoc, PushEntry.write_append] at read
    obtain ⟨_, _, first, read⟩ := Read.bind_ok read
    obtain ⟨rfl, rfl, queryNamed⟩ := readName_written sized.1.queryName first
    obtain ⟨_, _, second, read⟩ := Read.bind_ok read
    obtain ⟨rfl, rfl, componentNamed⟩ := readName_written sized.1.component second
    obtain ⟨_, _, third, read⟩ := Read.bind_ok read
    rw [Reader.lpBytes_writeLpBytes sized.1.snapshot] at third
    cases third
    obtain ⟨_, _, tail, done⟩ := Read.bind_ok read
    obtain ⟨rfl, rfl, others⟩ := ih sized.2 tail
    cases done
    exact ⟨rfl, rfl, List.forall_mem_cons.mpr ⟨⟨queryNamed, componentNamed⟩, others⟩⟩

/-! ## Batches -/

namespace PushBatch

structure WellFormed (batch : PushBatch) : Prop where
  node : WellNamed batch.node maxNodeNameBytes
  count : batch.entries.length ≤ maxEntries
  entries : ∀ entry ∈ batch.entries, entry.WellFormed

structure Sized (batch : PushBatch) : Prop where
  node : (asBytes batch.node).length < 2 ^ 32
  count : batch.entries.length < 2 ^ 32
  entries : ∀ entry ∈ batch.entries, entry.Sized

theorem body_fields (batch : PushBatch) :
    batch.body = batchMagic ++ (leBytes 2 batchVersion ++ (Reader.writeLpBytes (asBytes batch.node) ++
      (leBytes 4 batch.entries.length ++ (batch.entries.flatMap PushEntry.write ++ [])))) := by
  simp only [body, List.append_assoc, List.append_nil]

theorem readBatch_run {batch : PushBatch} (sized : batch.Sized) (wellFormed : batch.WellFormed) :
    readBatch batch.body = .ok (batch, []) := by
  rw [body_fields]
  refine (Read.bind_run (Reader.take_append batchMagic _)).trans ?_
  refine (Read.guard_run (not_not.mpr rfl) _).trans ?_
  refine (Read.bind_run (Reader.u16_leBytes (by decide) _)).trans ?_
  refine (Read.guard_run (not_not.mpr rfl) _).trans ?_
  refine (Read.bind_run (readName_run wellFormed.node sized.node _)).trans ?_
  refine (Read.bind_run (Reader.u32_leBytes sized.count _)).trans ?_
  refine (Read.guard_run (Nat.not_lt.mpr wellFormed.count) _).trans ?_
  refine (Read.bind_run (readEntries_run sized.entries wellFormed.entries [])).trans ?_
  have looked : Reader.remaining [] = .ok (0, []) := rfl
  refine (Read.bind_run looked).trans ?_
  exact Read.guard_run (not_not.mpr rfl) _

theorem readBatch_written {batch found : PushBatch} {later : Bytes} (sized : batch.Sized)
    (read : readBatch batch.body = .ok (found, later)) : found = batch ∧ batch.WellFormed := by
  rw [body_fields] at read
  obtain ⟨_, _, first, read⟩ := Read.bind_ok read
  cases (Reader.take_append batchMagic _).symm.trans first
  obtain ⟨_, read⟩ := Reader.guard_ok read
  obtain ⟨_, _, second, read⟩ := Read.bind_ok read
  cases (Reader.u16_leBytes (by decide) _).symm.trans second
  obtain ⟨_, read⟩ := Reader.guard_ok read
  obtain ⟨_, _, named, read⟩ := Read.bind_ok read
  obtain ⟨rfl, rfl, node⟩ := readName_written sized.node named
  obtain ⟨_, _, counted, read⟩ := Read.bind_ok read
  cases (Reader.u32_leBytes sized.count _).symm.trans counted
  obtain ⟨few, read⟩ := Reader.guard_ok read
  obtain ⟨_, _, listed, read⟩ := Read.bind_ok read
  obtain ⟨rfl, rfl, entries⟩ := readEntries_written sized.entries listed
  obtain ⟨_, _, looked, read⟩ := Read.bind_ok read
  cases looked
  obtain ⟨_, read⟩ := Reader.guard_ok read
  cases read
  exact ⟨rfl, node, Nat.le_of_not_lt few, entries⟩

theorem readBatch_ok {batch : PushBatch} {rest later : Bytes}
    (read : readBatch rest = .ok (batch, later)) : rest = batch.body := by
  obtain ⟨found, _, first, read⟩ := Read.bind_ok read
  obtain ⟨magical, read⟩ := Reader.guard_ok read
  obtain ⟨version, _, second, read⟩ := Read.bind_ok read
  obtain ⟨current, read⟩ := Reader.guard_ok read
  obtain ⟨node, _, named, read⟩ := Read.bind_ok read
  obtain ⟨count, _, counted, read⟩ := Read.bind_ok read
  obtain ⟨_, read⟩ := Reader.guard_ok read
  obtain ⟨entries, behind, listed, read⟩ := Read.bind_ok read
  obtain ⟨left, _, looked, read⟩ := Read.bind_ok read
  cases looked
  obtain ⟨whole, read⟩ := Reader.guard_ok read
  cases read
  obtain ⟨split, length⟩ := readEntries_ok listed
  rw [body_fields, (Reader.take_ok first).1, Reader.int_ok second, (readName_ok named).1,
    Reader.int_ok counted, split, not_not.mp magical, not_not.mp current, length,
    List.length_eq_zero_iff.mp (not_not.mp whole)]

theorem body_length (batch : PushBatch) : 14 ≤ batch.body.length := by
  rw [body_fields]
  simp only [batchMagic, Reader.writeLpBytes, List.length_append, leBytes_length, List.length_cons,
    List.length_nil]
  omega

theorem decode_encode (hashing : Hashing) (batch : PushBatch) :
    decode hashing (batch.encode hashing) = (readBatch batch.body).map Prod.fst := by
  have long := body_length batch
  unfold decode encode
  generalize batch.body = body at long
  have size : (body ++ leBytes 8 (hashing.hash64 body 0).toNat).length - 8 = body.length := by simp
  have checksum : leValue (leBytes 8 (hashing.hash64 body 0).toNat) =
      (hashing.hash64 body 0).toNat := leValue_leBytes (hashing.hash64 body 0).toNat_lt
  simp only [size, List.take_left, List.drop_left, checksum, ne_eq, not_true_eq_false, if_false]
  rw [if_neg]
  rw [List.length_append, leBytes_length]
  omega

theorem encode_of_decode {hashing : Hashing} {bytes : Bytes} {batch : PushBatch}
    (decoded : decode hashing bytes = .ok batch) : batch.encode hashing = bytes := by
  unfold decode at decoded
  split at decoded
  · cases decoded
  next long =>
    dsimp only at decoded
    split at decoded
    · cases decoded
    next checked =>
      obtain ⟨⟨found, later⟩, read, rfl⟩ := map_ok decoded
      have body := readBatch_ok read
      rw [encode, ← body, sealed_of_checksum (by omega) (not_not.mp checked)]

/-- The envelope is a bijection between the well-formed batches and the byte strings it accepts. -/
theorem envelope_bijective (hashing : Hashing) :
    (∀ batch : PushBatch, batch.Sized →
      (batch.WellFormed ↔ decode hashing (batch.encode hashing) = .ok batch) ∧
      (¬batch.WellFormed → ∃ e, decode hashing (batch.encode hashing) = .error e)) ∧
    (∀ bytes batch, decode hashing bytes = .ok batch → batch.encode hashing = bytes) ∧
    (∀ bytes bytes' batch, decode hashing bytes = .ok batch → decode hashing bytes' = .ok batch →
      bytes = bytes') := by
  refine ⟨fun batch sized => ?_, fun bytes batch => encode_of_decode,
    fun bytes bytes' batch first second => ?_⟩
  · have written : ∀ found, decode hashing (batch.encode hashing) = .ok found → batch.WellFormed := by
      intro found decoded
      rw [decode_encode] at decoded
      obtain ⟨⟨_, _⟩, read, _⟩ := map_ok decoded
      exact (readBatch_written sized read).2
    refine ⟨⟨fun wellFormed => ?_, written batch⟩, fun malformed => ?_⟩
    · rw [decode_encode, readBatch_run sized wellFormed]
      rfl
    · cases result : decode hashing (batch.encode hashing) with
      | error e => exact ⟨e, rfl⟩
      | ok found => exact absurd (written found result) malformed
  · rw [← encode_of_decode first, encode_of_decode second]

end PushBatch

end FlowSketch.Source.Gateway
