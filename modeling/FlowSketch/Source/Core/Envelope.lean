import FlowSketch.Source.Core.Wire

/-!
# One encoding for a snapshot

`read_snapshot` stops after the payload. What it accepts is the encoding of what it returns, unless the
body goes on behind the payload: the checksum covers those bytes, but nothing reads them.
-/

namespace FlowSketch.Source.Core
open Lib.Octets Lib.Word64

/-- The `u32` at `offset`. -/
def u32At (bytes : Bytes) (offset : Nat) : Nat := leValue ((bytes.drop offset).take 4)

def declaredParamsLength (bytes : Bytes) : Nat := u32At bytes 35
def declaredPayloadLength (bytes : Bytes) : Nat := u32At bytes (39 + declaredParamsLength bytes)

/-- The payload ends where the checksum begins. -/
def Filled (bytes : Bytes) : Prop :=
  bytes.length = 39 + declaredParamsLength bytes + 4 + declaredPayloadLength bytes + 8

theorem u32At_append {front : Bytes} {value : Nat} (fits : value < 2 ^ 32) (rest : Bytes) :
    u32At (front ++ (leBytes 4 value ++ rest)) front.length = value := by
  rw [u32At, List.drop_left, List.take_left' (leBytes_length 4 value)]
  exact leValue_leBytes fits

/-- What was read is what the body begins with. -/
theorem readBody_ok {rest later params payload : Bytes} {header : SnapshotHeader}
    (read : readBody rest = .ok ((header, params, payload), later)) :
    rest = snapshotBody header params payload ++ later ∧ params.length < 2 ^ 32 ∧
      payload.length < 2 ^ 32 := by
  obtain ⟨found, _, first, read⟩ := Read.bind_ok read
  obtain ⟨magical, read⟩ := Reader.guard_ok read
  obtain ⟨version, _, second, read⟩ := Read.bind_ok read
  obtain ⟨current, read⟩ := Reader.guard_ok read
  obtain ⟨algorithmId, _, third, read⟩ := Read.bind_ok read
  obtain ⟨familyId, _, fourth, read⟩ := Read.bind_ok read
  obtain ⟨known, read⟩ := Reader.guard_ok read
  obtain ⟨seed, _, fifth, read⟩ := Read.bind_ok read
  obtain ⟨hashVersion, _, sixth, read⟩ := Read.bind_ok read
  obtain ⟨windowStart, _, seventh, read⟩ := Read.bind_ok read
  obtain ⟨windowEnd, _, eighth, read⟩ := Read.bind_ok read
  obtain ⟨paramsLength, _, ninth, read⟩ := Read.bind_ok read
  obtain ⟨params, _, tenth, read⟩ := Read.bind_ok read
  obtain ⟨payloadLength, _, eleventh, read⟩ := Read.bind_ok read
  obtain ⟨payload, _, twelfth, read⟩ := Read.bind_ok read
  cases read
  obtain ⟨split, rfl⟩ := Reader.take_ok tenth
  obtain ⟨split', rfl⟩ := Reader.take_ok twelfth
  have seedWord : (UInt64.ofNat seed).toNat = seed :=
    UInt64.toNat_ofNat_of_lt' (Reader.int_lt fifth)
  have versionWord : (UInt16.ofNat hashVersion).toNat = hashVersion :=
    UInt16.toNat_ofNat_of_lt' (Reader.int_lt sixth)
  refine ⟨?_, Reader.int_lt ninth, Reader.int_lt eleventh⟩
  rw [(Reader.take_ok first).1, Reader.int_ok second, Reader.int_ok third, Reader.int_ok fourth,
    Reader.int_ok fifth, Reader.int_ok sixth, Reader.int_ok seventh, Reader.int_ok eighth,
    Reader.int_ok ninth, split, Reader.int_ok eleventh, split', not_not.mp magical,
    not_not.mp known]
  simp only [snapshotBody, seedWord, versionWord, List.append_assoc]

/-- What is accepted is a snapshot with bytes of any kind behind its payload, and the checksum of all
of it. -/
theorem readSnapshot_ok {hashing : Hashing} {bytes params payload : Bytes} {header : SnapshotHeader}
    (read : readSnapshot hashing bytes = .ok (header, params, payload)) :
    ∃ hidden, bytes = snapshotBody header params payload ++ hidden ++
        leBytes 8 (hashing.hash64 (snapshotBody header params payload ++ hidden) 0).toNat ∧
      params.length < 2 ^ 32 ∧ payload.length < 2 ^ 32 := by
  unfold readSnapshot at read
  split at read
  · cases read
  next long =>
    dsimp only at read
    split at read
    · cases read
    next checked =>
      obtain ⟨⟨_, hidden⟩, body, rfl⟩ := map_ok read
      obtain ⟨split, fits⟩ := readBody_ok body
      refine ⟨hidden, ?_, fits⟩
      rw [← split, sealed_of_checksum (by omega) (not_not.mp checked)]

/-- The lengths a body declares are those of its parts. -/
theorem declared_lengths {header : SnapshotHeader} {params payload : Bytes}
    (paramsFit : params.length < 2 ^ 32) (payloadFit : payload.length < 2 ^ 32) (rest : Bytes) :
    declaredParamsLength (snapshotBody header params payload ++ rest) = params.length ∧
      declaredPayloadLength (snapshotBody header params payload ++ rest) = payload.length := by
  obtain ⟨front, front35, split⟩ : ∃ front : Bytes, front.length = 35 ∧
      snapshotBody header params payload ++ rest = front ++ (leBytes 4 params.length ++
        (params ++ (leBytes 4 payload.length ++ (payload ++ rest)))) := by
    obtain ⟨version, algorithmId, ⟨family, seed, hashVersion⟩, windowStart, windowEnd⟩ := header
    cases family
    exact ⟨magic ++ leBytes 2 version ++ leBytes 2 algorithmId ++ leBytes 1 0 ++
      leBytes 8 seed.toNat ++ leBytes 2 hashVersion.toNat ++ leBytes 8 windowStart ++
      leBytes 8 windowEnd, by simp [magic], by simp only [snapshotBody, List.append_assoc]⟩
  have first : declaredParamsLength (snapshotBody header params payload ++ rest) = params.length := by
    rw [declaredParamsLength, split, ← front35, u32At_append paramsFit]
  refine ⟨first, ?_⟩
  have behind : (front ++ (leBytes 4 params.length ++ params)).length = 39 + params.length := by
    simp only [List.length_append, leBytes_length, front35]
    omega
  have nested : front ++ (leBytes 4 params.length ++
      (params ++ (leBytes 4 payload.length ++ (payload ++ rest)))) =
      front ++ (leBytes 4 params.length ++ params) ++
        (leBytes 4 payload.length ++ (payload ++ rest)) := by
    simp only [List.append_assoc]
  rw [declaredPayloadLength, first, split, nested, ← behind, u32At_append payloadFit]

/-- Nothing is hidden exactly when the payload reaches the checksum. -/
theorem filled_iff {header : SnapshotHeader} {params payload hidden checksum : Bytes}
    (paramsFit : params.length < 2 ^ 32) (payloadFit : payload.length < 2 ^ 32)
    (width : checksum.length = 8) :
    Filled (snapshotBody header params payload ++ hidden ++ checksum) ↔ hidden = [] := by
  obtain ⟨paramsLength, payloadLength⟩ :=
    @declared_lengths header _ _ paramsFit payloadFit (hidden ++ checksum)
  have size := snapshotBody_length header params payload
  rw [List.append_assoc, Filled, paramsLength, payloadLength, ← List.length_eq_zero_iff,
    List.length_append, List.length_append, width, size]
  omega

theorem written_iff_filled {hashing : Hashing} {bytes params payload : Bytes}
    {header : SnapshotHeader}
    (read : readSnapshot hashing bytes = .ok (header, params, payload)) :
    writeSnapshot hashing header params payload = bytes ↔ Filled bytes := by
  obtain ⟨hidden, rfl, paramsFit, payloadFit⟩ := readSnapshot_ok read
  rw [filled_iff paramsFit payloadFit (leBytes_length 8 _)]
  constructor
  · intro same
    have lengths := congrArg List.length same
    rw [writeSnapshot] at lengths
    simp only [List.length_append, leBytes_length] at lengths
    exact List.length_eq_zero_iff.mp (by omega)
  · rintro rfl
    rw [writeSnapshot, List.append_nil]

/-- An accepted byte string is the encoding of what it holds exactly when its payload reaches the
checksum; and of a snapshot there is one such byte string. -/
theorem envelope_canonical_iff {hashing : Hashing} {bytes params payload : Bytes}
    {header : SnapshotHeader}
    (read : readSnapshot hashing bytes = .ok (header, params, payload)) :
    (writeSnapshot hashing header params payload = bytes ↔ Filled bytes) ∧
      ∀ other, readSnapshot hashing other = .ok (header, params, payload) → Filled bytes →
        Filled other → other = bytes := by
  refine ⟨written_iff_filled read, fun other read' filled filled' => ?_⟩
  rw [← (written_iff_filled read).mpr filled, (written_iff_filled read').mpr filled']

def sampleHeader : SnapshotHeader :=
  { version := snapshotVersion, algorithmId := algorithmId.kll, hash := HashSpec.new 1
    windowStartNanos := 0, windowEndNanos := 10 }

theorem sampleHeader_sized : sampleHeader.Sized :=
  ⟨rfl, by decide, by decide, by decide⟩

def sampleSnapshot : Bytes := writeSnapshot fsk1 sampleHeader [1] [2, 3]

theorem sampleSnapshot_filled :
    readSnapshot fsk1 sampleSnapshot = .ok (sampleHeader, [1], [2, 3]) ∧ Filled sampleSnapshot := by
  have read : readSnapshot fsk1 sampleSnapshot = .ok (sampleHeader, [1], [2, 3]) :=
    read_written fsk1 sampleHeader_sized (by decide) (by decide)
  exact ⟨read, (envelope_canonical_iff read).1.mp rfl⟩

def paddedBody : Bytes := snapshotBody sampleHeader [1] [2, 3] ++ [4]

/-- The sample with one more byte under the checksum. -/
def paddedSnapshot : Bytes := paddedBody ++ leBytes 8 (fsk1.hash64 paddedBody 0).toNat

/-- It is accepted as the sample, which it is not. -/
theorem paddedSnapshot_accepted :
    readSnapshot fsk1 paddedSnapshot = .ok (sampleHeader, [1], [2, 3]) ∧
      writeSnapshot fsk1 sampleHeader [1] [2, 3] ≠ paddedSnapshot := by
  constructor
  · rw [paddedSnapshot, readSnapshot_sealed fsk1 (by decide), paddedBody,
      readBody_snapshotBody sampleHeader_sized (by decide) (by decide)]
    rfl
  · intro same
    have lengths := congrArg List.length same
    rw [writeSnapshot, paddedSnapshot, paddedBody] at lengths
    simp only [List.length_append, leBytes_length, List.length_cons, List.length_nil] at lengths
    omega

end FlowSketch.Source.Core
