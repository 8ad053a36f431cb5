import FlowSketch.Source.Core.Wire
import FlowSketch.Source.Pcap.Parse

/-!
# The capture file reader

`crates/flowsketch-pcap/src/lib.rs`: a classic capture file is a header of 24 octets and records, each
a fixed header of 16 octets in front of the captured ones. `PcapReader` reads them off a byte source,
in either byte order and with micro- or nanoseconds. The source here is the octets that are left of
it, so a read fails only when they run out; a failed read consumes them.
-/

namespace FlowSketch.Source.Pcap
open Lib.Octets Source.Core

inductive PcapError where
  | io
  | badMagic (magic : UInt32)
  | truncated
  | invalidTimestamp
  deriving DecidableEq, Repr

structure PcapReader where
  reader : Bytes
  swapped : Bool
  /-- Multiplier converting the sub-second field to nanoseconds. -/
  subsecToNanos : Nat
  linktype : UInt32
  packetsRead : UInt64
  deriving DecidableEq, Repr

def magicUsec : UInt32 := 0xA1B2C3D4
def magicNsec : UInt32 := 0xA1B23C4D

/-- `u32::from_le_bytes`. -/
def fromLeBytes (b : Bytes) : UInt32 := UInt32.ofNat (leValue b)

/-- `u32::to_le_bytes`. -/
def toLeBytes (v : UInt32) : Bytes := leBytes 4 v.toNat

/-- `u32::swap_bytes`. -/
def swapBytes (v : UInt32) : UInt32 := fromLeBytes (toLeBytes v).reverse

/-- `read_exact`: the next `n` octets and those behind them. -/
def readExact (n : Nat) (reader : Bytes) : Option (Bytes × Bytes) :=
  if n ≤ reader.length then some (reader.take n, reader.drop n) else none

/-- The closure `read_u32` of `new`, and `u32_at`. -/
def u32Of (swapped : Bool) (b : Bytes) : UInt32 :=
  if swapped then swapBytes (fromLeBytes b) else fromLeBytes b

def PcapReader.new (reader : Bytes) : Except PcapError PcapReader :=
  match readExact 24 reader with
  | none => .error .io
  | some (header, reader) =>
    let magic := fromLeBytes (slice header 0 4)
    let opened := fun swapped subsecToNanos =>
      .ok { reader, swapped, subsecToNanos, linktype := u32Of swapped (slice header 20 24)
            packetsRead := 0 }
    if magic = magicUsec then opened false 1000
    else if magic = magicNsec then opened false 1
    else if swapBytes magic = magicUsec then opened true 1000
    else if swapBytes magic = magicNsec then opened true 1
    else .error (.badMagic magic)

def PcapReader.u32At (r : PcapReader) (b : Bytes) : UInt32 := u32Of r.swapped b

/-- `(ts_nanos, original_len, captured_bytes)`. -/
structure Packet where
  tsNanos : UInt64
  originalLen : UInt32
  captured : Bytes
  deriving DecidableEq, Repr

/-- No sane snapshot length exceeds 256 KiB. -/
def captureLimit : Nat := 256 * 1024

/-- Next raw packet, or nothing at the end of the file. -/
def PcapReader.nextPacket (r : PcapReader) : Except PcapError (Option Packet) × PcapReader :=
  match readExact 16 r.reader with
  | none => (.ok none, { r with reader := [] })
  | some (rec, rest) =>
    let tsSec := (r.u32At (slice rec 0 4)).toNat
    let tsSubsec := (r.u32At (slice rec 4 8)).toNat
    let caplen := (r.u32At (slice rec 8 12)).toNat
    let origlen := r.u32At (slice rec 12 16)
    if caplen > captureLimit then (.error .truncated, { r with reader := rest })
    else if origlen.toNat < caplen then (.error .truncated, { r with reader := rest })
    else if tsSubsec ≥ 1000000000 / r.subsecToNanos then
      (.error .invalidTimestamp, { r with reader := rest })
    else
      match readExact caplen rest with
      | none => (.error .truncated, { r with reader := [] })
      | some (data, rest) =>
        (.ok (some { tsNanos := UInt64.ofNat (tsSec * 1000000000 + tsSubsec * r.subsecToNanos)
                     originalLen := origlen, captured := data }),
          { r with reader := rest, packetsRead := r.packetsRead + 1 })

/-- What at most `calls` calls of `next_packet` return until one of them stops: the packets, and `Ok`
for the end of the file. -/
def PcapReader.readPackets : Nat → PcapReader → Option (List Packet × Except PcapError Unit)
  | 0, _ => none
  | calls + 1, r =>
    match r.nextPacket with
    | (.error error, _) => some ([], .error error)
    | (.ok none, _) => some ([], .ok ())
    | (.ok (some packet), r) =>
      (readPackets calls r).map (fun later => (packet :: later.1, later.2))

/-- The event of a packet with the time of its record. Its bytes are those on the wire. -/
def stamped (packet : Packet) (event : FlowEvent) : FlowEvent :=
  { event with
    tsNanos := packet.tsNanos
    bytes := if event.bytes = 0 then packet.originalLen else event.bytes
    direction := .unknown }

/-- The loop of `next_event_into`, with the rounds it has left. -/
def PcapReader.nextEventWithin :
    Nat → PcapReader → Option (Except PcapError (Option FlowEvent) × PcapReader)
  | 0, _ => none
  | rounds + 1, r =>
    match r.nextPacket with
    | (.error error, r) => some (.error error, r)
    | (.ok none, r) => some (.ok none, r)
    | (.ok (some packet), r) =>
      match parsePacketWithWireLen r.linktype packet.captured packet.originalLen with
      | none => nextEventWithin rounds r
      | some event => some (.ok (some (stamped packet event)), r)

/-- Next parseable flow event. A round takes at least sixteen octets, so these are rounds enough. -/
def PcapReader.nextEvent (r : PcapReader) : Option (Except PcapError (Option FlowEvent) × PcapReader) :=
  r.nextEventWithin (r.reader.length + 1)

/-- What at most `calls` calls of `next_event` return until one of them stops. -/
def PcapReader.readEvents : Nat → PcapReader → Option (List FlowEvent × Except PcapError Unit)
  | 0, _ => none
  | calls + 1, r =>
    match r.nextEvent with
    | none => none
    | some (.error error, _) => some ([], .error error)
    | some (.ok none, _) => some ([], .ok ())
    | some (.ok (some event), r) =>
      (readEvents calls r).map (fun later => (event :: later.1, later.2))

/-! ## Well-formed files -/

/-- `v` in the byte order of a file. -/
def wordBytes (swapped : Bool) (v : UInt32) : Bytes :=
  if swapped then (toLeBytes v).reverse else toLeBytes v

/-- A file header: byte order, time unit, the sixteen octets the reader passes over, and link type. -/
structure FileHeader where
  swapped : Bool
  nanos : Bool
  between : Bytes
  linktype : UInt32
  sized : between.length = 16

namespace FileHeader

def magic (header : FileHeader) : UInt32 := if header.nanos then magicNsec else magicUsec

def subsecToNanos (header : FileHeader) : Nat := if header.nanos then 1 else 1000

def bytes (header : FileHeader) : Bytes :=
  wordBytes header.swapped header.magic ++ header.between ++ wordBytes header.swapped header.linktype

end FileHeader

/-- A record of a file: the captured octets are at most 256 KiB and at most the original length, and
the sub-second field is less than a second. -/
structure Record (header : FileHeader) where
  tsSec : UInt32
  tsSubsec : UInt32
  originalLen : UInt32
  captured : Bytes
  bounded : captured.length ≤ captureLimit
  covered : captured.length ≤ originalLen.toNat
  inRange : tsSubsec.toNat * header.subsecToNanos < 1000000000

namespace Record
variable {header : FileHeader}

/-- The sixteen octets in front of the captured ones. -/
def fixed (record : Record header) : Bytes :=
  wordBytes header.swapped record.tsSec ++ wordBytes header.swapped record.tsSubsec ++
    wordBytes header.swapped (UInt32.ofNat record.captured.length) ++
    wordBytes header.swapped record.originalLen

def bytes (record : Record header) : Bytes := record.fixed ++ record.captured

def size (record : Record header) : Nat := 16 + record.captured.length

/-- What the reader is to hand out for the record. -/
def packet (record : Record header) : Packet where
  tsNanos :=
    UInt64.ofNat (record.tsSec.toNat * 1000000000 + record.tsSubsec.toNat * header.subsecToNanos)
  originalLen := record.originalLen
  captured := record.captured

end Record

section Files
variable {header : FileHeader}

def size (records : List (Record header)) : Nat := (records.map Record.size).sum

def stream (records : List (Record header)) : Bytes := records.flatMap Record.bytes

/-- The records that lie completely in the first `n` octets of the stream. -/
def complete : List (Record header) → Nat → List (Record header)
  | [], _ => []
  | record :: later, n => if record.size ≤ n then record :: complete later (n - record.size) else []

/-- A file cut `n` octets behind its header. -/
def cutFile (records : List (Record header)) (n : Nat) : Bytes := header.bytes ++ (stream records).take n

/-- The cut is to be reported: the packets of the complete records, and an error unless the cut is
between two records. -/
def reported (records : List (Record header)) (n : Nat) : List Packet × Except PcapError Unit :=
  ((complete records n).map Record.packet,
    if size (complete records n) = n then .ok () else .error .truncated)

/-- Open a file and read it until it stops, in at most `calls` calls. -/
def readFile (calls : Nat) (file : Bytes) :
    Except PcapError (Option (List Packet × Except PcapError Unit)) :=
  (PcapReader.new file).map (PcapReader.readPackets calls)

/-- The cut is inside the fixed header of a record. -/
def InsideFixed (records : List (Record header)) (n : Nat) : Prop :=
  size (complete records n) < n ∧ n < size (complete records n) + 16

instance (records : List (Record header)) (n : Nat) : Decidable (InsideFixed records n) :=
  inferInstanceAs (Decidable (_ ∧ _))

end Files

/-! ## Octets of a file -/

@[simp] theorem wordBytes_length (swapped : Bool) (v : UInt32) : (wordBytes swapped v).length = 4 := by
  cases swapped <;> simp [wordBytes, toLeBytes]

theorem fromLeBytes_toLeBytes (v : UInt32) : fromLeBytes (toLeBytes v) = v := by
  have fits : v.toNat < 256 ^ 4 := v.toNat_lt
  rw [fromLeBytes, toLeBytes, leValue_leBytes fits]
  exact UInt32.ofNat_toNat

theorem toLeBytes_fromLeBytes {b : Bytes} (sized : b.length = 4) : toLeBytes (fromLeBytes b) = b := by
  have fits : leValue b < 2 ^ 32 := by
    have small := leValue_lt b
    rw [sized] at small
    exact small
  rw [toLeBytes, fromLeBytes, UInt32.toNat_ofNat_of_lt' fits, ← sized]
  exact leBytes_leValue b

theorem u32Of_wordBytes (swapped : Bool) (v : UInt32) : u32Of swapped (wordBytes swapped v) = v := by
  cases swapped with
  | false => exact fromLeBytes_toLeBytes v
  | true =>
    have sized : (toLeBytes v).reverse.length = 4 := by simp [toLeBytes]
    show swapBytes (fromLeBytes (toLeBytes v).reverse) = v
    rw [swapBytes, toLeBytes_fromLeBytes sized, List.reverse_reverse]
    exact fromLeBytes_toLeBytes v

theorem slice_append_left {before after : Bytes} {stop : Nat} (exact : before.length = stop) :
    slice (before ++ after) 0 stop = before := by
  simp [slice, ← exact]

theorem slice_append_mid {before middle after : Bytes} {start stop : Nat}
    (first : before.length = start) (last : start + middle.length = stop) :
    slice (before ++ middle ++ after) start stop = middle := by
  subst first last
  rw [slice, ← List.length_append, List.take_left, List.drop_left]

theorem readExact_append (octets rest : Bytes) :
    readExact octets.length (octets ++ rest) = some (octets, rest) := by
  simp [readExact]

theorem FileHeader.bytes_length (header : FileHeader) : header.bytes.length = 24 := by
  simp [FileHeader.bytes, header.sized]

theorem Record.fixed_length {header : FileHeader} (record : Record header) :
    record.fixed.length = 16 := by
  simp [Record.fixed]

theorem Record.bytes_length {header : FileHeader} (record : Record header) :
    record.bytes.length = record.size := by
  simp [Record.bytes, Record.size, record.fixed_length]

/-! ## Reading a file -/

theorem inRange_of_nanos {header : FileHeader} (record : Record header) :
    ¬record.tsSubsec.toNat ≥ 1000000000 / header.subsecToNanos := by
  have inRange := record.inRange
  unfold FileHeader.subsecToNanos at inRange ⊢
  cases unit : header.nanos <;> simp only [unit, Bool.false_eq_true, if_false, if_true] at inRange ⊢ <;>
    omega

/-- What opening a file leaves: its byte order and time unit, and the octets behind its header. -/
structure PcapReader.Opened (header : FileHeader) (rest : Bytes) (r : PcapReader) : Prop where
  reader : r.reader = rest
  swapped : r.swapped = header.swapped
  subsecToNanos : r.subsecToNanos = header.subsecToNanos
  linktype : r.linktype = header.linktype

/-- The four magic numbers tell byte order and time unit apart. -/
theorem magic_tells (swapped nanos : Bool) :
    let read := fromLeBytes (wordBytes swapped (if nanos then magicNsec else magicUsec))
    (read = magicUsec ↔ swapped = false ∧ nanos = false) ∧
      (read = magicNsec ↔ swapped = false ∧ nanos = true) ∧
      (swapBytes read = magicUsec ↔ swapped = true ∧ nanos = false) ∧
      (swapBytes read = magicNsec ↔ swapped = true ∧ nanos = true) := by
  cases swapped <;> cases nanos <;> decide

theorem new_opened (header : FileHeader) (rest : Bytes) :
    ∃ r, PcapReader.new (header.bytes ++ rest) = .ok r ∧ r.Opened header rest := by
  have read : readExact 24 (header.bytes ++ rest) = some (header.bytes, rest) := by
    rw [← header.bytes_length]
    exact readExact_append header.bytes rest
  have first : slice header.bytes 0 4 = wordBytes header.swapped header.magic := by
    rw [FileHeader.bytes, List.append_assoc]
    exact slice_append_left (wordBytes_length _ _)
  have last : slice header.bytes 20 24 = wordBytes header.swapped header.linktype := by
    have cut := @slice_append_mid (wordBytes header.swapped header.magic ++ header.between)
      (wordBytes header.swapped header.linktype) [] 20 24 (by simp [header.sized]) (by simp)
    rw [List.append_nil] at cut
    exact cut
  have type := u32Of_wordBytes header.swapped header.linktype
  obtain ⟨usec, nsec, usecSwapped, nsecSwapped⟩ := magic_tells header.swapped header.nanos
  unfold PcapReader.new
  simp only [read, first, last, FileHeader.magic, usec, nsec, usecSwapped, nsecSwapped]
  cases order : header.swapped <;> cases unit : header.nanos <;> rw [order] at type <;>
    simp only [Bool.false_eq_true, Bool.true_eq_false, and_self, and_true, and_false, if_true,
      if_false, Except.ok.injEq, exists_eq_left'] <;>
    exact ⟨rfl, order.symm, by simp [FileHeader.subsecToNanos, unit], type⟩

variable {header : FileHeader}

/-- A whole fixed header leaves the question whether the captured octets are all there. -/
theorem nextPacket_fixed {r : PcapReader} (record : Record header) {rest : Bytes}
    (opened : r.Opened header (record.fixed ++ rest)) :
    r.nextPacket =
      match readExact record.captured.length rest with
      | none => (.error .truncated, { r with reader := [] })
      | some (data, rest) =>
        (.ok (some { record.packet with captured := data }),
          { r with reader := rest, packetsRead := r.packetsRead + 1 }) := by
  have read : readExact 16 r.reader = some (record.fixed, rest) := by
    rw [opened.reader, ← record.fixed_length]
    exact readExact_append record.fixed rest
  have sec : r.u32At (slice record.fixed 0 4) = record.tsSec := by
    rw [PcapReader.u32At, opened.swapped, Record.fixed, List.append_assoc, List.append_assoc,
      slice_append_left (wordBytes_length _ _), u32Of_wordBytes]
  have subsec : r.u32At (slice record.fixed 4 8) = record.tsSubsec := by
    rw [PcapReader.u32At, opened.swapped, Record.fixed, List.append_assoc,
      slice_append_mid (wordBytes_length _ _) (by simp), u32Of_wordBytes]
  have caplen : r.u32At (slice record.fixed 8 12) = UInt32.ofNat record.captured.length := by
    rw [PcapReader.u32At, opened.swapped, Record.fixed,
      slice_append_mid (by simp) (by simp), u32Of_wordBytes]
  have origlen : r.u32At (slice record.fixed 12 16) = record.originalLen := by
    have cut := @slice_append_mid
      (wordBytes header.swapped record.tsSec ++ wordBytes header.swapped record.tsSubsec ++
        wordBytes header.swapped (UInt32.ofNat record.captured.length))
      (wordBytes header.swapped record.originalLen) [] 12 16 (by simp) (by simp)
    rw [List.append_nil] at cut
    rw [PcapReader.u32At, opened.swapped, Record.fixed, cut, u32Of_wordBytes]
  have bounded := record.bounded
  have length : (UInt32.ofNat record.captured.length).toNat = record.captured.length := by
    apply UInt32.toNat_ofNat_of_lt'
    unfold captureLimit at bounded
    exact Nat.lt_of_le_of_lt bounded (by decide)
  have inRange := inRange_of_nanos record
  unfold PcapReader.nextPacket
  simp only [read, sec, subsec, caplen, origlen, length, opened.subsecToNanos,
    Nat.not_lt.mpr bounded, Nat.not_lt.mpr record.covered, inRange, if_false]
  rfl

theorem nextPacket_whole {r : PcapReader} (record : Record header) {rest : Bytes}
    (opened : r.Opened header (record.bytes ++ rest)) :
    r.nextPacket =
      (.ok (some record.packet), { r with reader := rest, packetsRead := r.packetsRead + 1 }) := by
  rw [Record.bytes, List.append_assoc] at opened
  rw [nextPacket_fixed record opened, readExact_append]
  rfl

/-- The end of the file inside the captured octets is an error. -/
theorem nextPacket_body {r : PcapReader} (record : Record header) {n : Nat} (header_whole : 16 ≤ n)
    (cut : n < record.size) (opened : r.Opened header (record.bytes.take n)) :
    r.nextPacket = (.error .truncated, { r with reader := [] }) := by
  have parts : record.bytes.take n = record.fixed ++ record.captured.take (n - 16) := by
    rw [Record.bytes, List.take_append, record.fixed_length,
      List.take_of_length_le (by rw [record.fixed_length]; exact header_whole)]
  have short : readExact record.captured.length (record.captured.take (n - 16)) = none := by
    unfold Record.size at cut
    rw [readExact, if_neg (by rw [List.length_take]; omega)]
  rw [parts] at opened
  rw [nextPacket_fixed record opened, short]

/-- The end of the file inside the fixed header is taken for its regular end. -/
theorem nextPacket_short {r : PcapReader} (short : r.reader.length < 16) :
    r.nextPacket = (.ok none, { r with reader := [] }) := by
  rw [PcapReader.nextPacket, readExact, if_neg (Nat.not_le.mpr short)]

theorem stream_cons (record : Record header) (later : List (Record header)) :
    stream (record :: later) = record.bytes ++ stream later := rfl

theorem size_cons (record : Record header) (later : List (Record header)) :
    size (record :: later) = record.size + size later := rfl

theorem size_complete_le (records : List (Record header)) (n : Nat) :
    size (complete records n) ≤ n := by
  induction records generalizing n with
  | nil => exact Nat.zero_le n
  | cons record later ih =>
    by_cases whole : record.size ≤ n
    · rw [complete, if_pos whole, size_cons]
      have rest := ih (n - record.size)
      omega
    · rw [complete, if_neg whole]
      exact Nat.zero_le n

/-- The reader stops with an error only when the last, incomplete record has its fixed header. -/
theorem readPackets_cut {records : List (Record header)} {n calls : Nat} {r : PcapReader}
    (within : n ≤ size records) (enough : records.length < calls)
    (opened : r.Opened header ((stream records).take n)) :
    r.readPackets calls = some ((complete records n).map Record.packet,
      if n < size (complete records n) + 16 then .ok () else .error .truncated) := by
  induction records generalizing n calls r with
  | nil =>
    obtain ⟨calls, rfl⟩ := Nat.exists_eq_add_of_lt enough
    have short : r.reader.length < 16 := by
      rw [opened.reader]
      simp [stream]
    have last : n < 16 := Nat.lt_of_le_of_lt within Nat.ofNat_pos
    simp [PcapReader.readPackets, nextPacket_short short, complete, size, last]
  | cons record later ih =>
    obtain ⟨calls, rfl⟩ : ∃ more, calls = more + 1 := ⟨calls - 1, by omega⟩
    rw [stream_cons] at opened
    rw [size_cons] at within
    by_cases whole : record.size ≤ n
    · have parts : (record.bytes ++ stream later).take n =
          record.bytes ++ (stream later).take (n - record.size) := by
        rw [List.take_append, record.bytes_length,
          List.take_of_length_le (by rw [record.bytes_length]; exact whole)]
      rw [parts] at opened
      have rest : PcapReader.Opened header ((stream later).take (n - record.size))
          { r with reader := (stream later).take (n - record.size), packetsRead := r.packetsRead + 1 } :=
        ⟨rfl, opened.swapped, opened.subsecToNanos, opened.linktype⟩
      have next := @ih (n - record.size) calls _ (by omega) (Nat.lt_of_succ_lt_succ enough) rest
      rw [PcapReader.readPackets, nextPacket_whole record opened]
      simp only [next, complete, if_pos whole, size_cons, Option.map_some, List.map_cons]
      have same : (n - record.size < size (complete later (n - record.size)) + 16) ↔
          (n < record.size + size (complete later (n - record.size)) + 16) := by omega
      simp only [same]
    · have parts : (record.bytes ++ stream later).take n = record.bytes.take n := by
        rw [List.take_append_of_le_length]
        rw [record.bytes_length]
        omega
      rw [parts] at opened
      rw [complete, if_neg whole, PcapReader.readPackets]
      by_cases short : n < 16
      · have few : r.reader.length < 16 := by
          rw [opened.reader, List.length_take]
          omega
        simp [nextPacket_short few, size, short]
      · rw [nextPacket_body record (Nat.not_lt.mp short) (Nat.not_le.mp whole) opened]
        simp [size, short]

/-- Reading a cut file until it stops hands out the complete records and reports the cut, if and only
if the cut is not inside the fixed header of a record. -/
theorem cut_reported_iff (records : List (Record header)) {n calls : Nat} (within : n ≤ size records)
    (enough : records.length < calls) :
    readFile calls (cutFile records n) = .ok (some (reported records n)) ↔ ¬InsideFixed records n := by
  obtain ⟨r, fresh, opened⟩ := new_opened header ((stream records).take n)
  have before := size_complete_le records n
  unfold readFile cutFile reported InsideFixed
  rw [fresh]
  simp only [Except.map, readPackets_cut within enough opened, Except.ok.injEq, Option.some.injEq,
    Prod.mk.injEq, true_and]
  by_cases boundary : size (complete records n) = n
  · rw [if_pos boundary, if_pos (by omega)]
    simp [boundary]
  · rw [if_neg boundary]
    by_cases short : n < size (complete records n) + 16
    · rw [if_pos short]
      simp [short]
      omega
    · rw [if_neg short]
      simp [short]

/-- A little-endian file of raw IP packets, in microseconds. -/
def plainHeader : FileHeader where
  swapped := false
  nanos := false
  between := List.replicate 16 0
  linktype := linktype.rawIp
  sized := List.length_replicate

/-- Four captured octets of a packet of forty. -/
def fourOctets : Record plainHeader where
  tsSec := 7
  tsSubsec := 0
  originalLen := 40
  captured := [69, 0, 0, 40]
  bounded := by decide
  covered := by decide
  inRange := by decide

theorem fourOctets_reported :
    readFile 3 (cutFile [fourOctets, fourOctets] 37) =
      .ok (some ([fourOctets.packet], .error .truncated)) :=
  (cut_reported_iff [fourOctets, fourOctets] (by decide) (by decide)).mpr (by decide)

/-- Five octets into the second record, the file ends as if that record had never been there. -/
theorem cut_inside_fixed_unreported :
    ¬∀ (header : FileHeader) (records : List (Record header)) (n calls : Nat), n ≤ size records →
      records.length < calls →
      readFile calls (cutFile records n) = .ok (some (reported records n)) := by
  intro all
  have claimed := all plainHeader [fourOctets, fourOctets] 25 3 (by decide) (by decide)
  revert claimed
  decide

end FlowSketch.Source.Pcap
