import FlowSketch.Lib.Outcome
import FlowSketch.Source.Pcap.Headers

/-!
# The packet parser never panics

The parser of `crates/flowsketch-pcap/src/parse.rs` once more, with each index, slice, addition and
subtraction as it is compiled: out of range it panics, and the `checked_` operations and `get` give up
instead. It agrees with the total parser on every input, so no length field of a packet makes it
panic, and the bytes it counts are those of the packet behind the link layer at most.
-/

namespace FlowSketch.Source.Pcap
open Lib Lib.Octets Source.Core Outcome

namespace Checked

/-- `u16::from_be_bytes([data[i], data[j]])`. -/
def be16 (data : Bytes) (i j : Nat) : Outcome UInt16 := do
  let high ← index data i
  let low ← index data j
  return high.toUInt16 <<< 8 ||| low.toUInt16

def parseL4 (protocol : UInt8) (data : Bytes) (wireLen : Nat) : Outcome L4Info :=
  if protocol = 6 then
    if data.length < 14 then absent
    else do
      let words ← index data 12
      let headerLen ← mul (words >>> 4).toNat 4
      if headerLen < 20 ∨ headerLen > wireLen ∨ headerLen > data.length then absent
      else do
        let srcPort ← be16 data 0 1
        let dstPort ← be16 data 2 3
        let tcpFlags ← index data 13
        return { srcPort, dstPort, tcpFlags }
  else if protocol = 17 then
    if data.length < 8 then absent
    else do
      let udpLen ← be16 data 4 5
      if udpLen.toNat < 8 ∨ udpLen.toNat > wireLen then absent
      else do
        let srcPort ← be16 data 0 1
        let dstPort ← be16 data 2 3
        return { srcPort, dstPort }
  else return {}

/-- `Ipv4Addr::new(data[i], data[j], data[k], data[l])`. -/
def ipv4Address (data : Bytes) (i j k l : Nat) : Outcome IpAddr := do
  let a ← index data i
  let b ← index data j
  let c ← index data k
  let d ← index data l
  return .v4 a b c d

def parseIpv4 (data : Bytes) (wireLen : Nat) : Outcome FlowEvent :=
  if data.length < 20 then absent
  else do
    let first ← index data 0
    if first >>> 4 ≠ 4 then absent
    else do
      let ihl ← mul (first &&& 0x0F).toNat 4
      if ihl < 20 ∨ data.length < ihl then absent
      else do
        let totalLen ← be16 data 2 3
        let totalLen := totalLen.toNat
        if totalLen < ihl ∨ totalLen > wireLen then absent
        else do
          let protocol ← index data 9
          let src ← ipv4Address data 12 13 14 15
          let dst ← ipv4Address data 16 17 18 19
          let frag ← be16 data 6 7
          let l4 ←
            if frag &&& 0x1FFF = 0 then do
              let segment ← range data ihl (min totalLen data.length)
              let declared ← sub totalLen ihl
              parseL4 protocol segment declared
            else pure {}
          return flowEvent src dst protocol l4 totalLen

/-- `Ipv6Addr::from(<[u8; 16]>::try_from(&data[start..stop]).unwrap())`. -/
def ipv6Address (data : Bytes) (start stop : Nat) : Outcome IpAddr := do
  let octets ← range data start stop
  if octets.length = 16 then
    return .v6 (BitVec.ofNat 128 (octets.foldl (fun value o => value * 256 + o.toNat) 0))
  else panic

/-- The length of an extension header, in the loop of `parse_ipv6`. -/
def extensionLen (nextHeader extLen : UInt8) : Outcome Nat :=
  if nextHeader = 51 then do
    let words ← add extLen.toNat 2
    checkedMul words 4
  else do
    let octets ← mul extLen.toNat 8
    checkedAdd 8 octets

/-- The loop of `parse_ipv6`, with the rounds it has left. -/
def walkHeaders (data : Bytes) (packetLen : Nat) : Nat → UInt8 → Nat → Outcome Walked
  | 0, nextHeader, _ => return { nextHeader }
  | rounds + 1, nextHeader, offset =>
    if nextHeader = 0 ∨ nextHeader = 43 ∨ nextHeader = 51 ∨ nextHeader = 60 then do
      let fixedEnd ← checkedAdd offset 8
      if fixedEnd > packetLen ∨ fixedEnd > data.length then absent
      else do
        let extLen ← index data (offset + 1)
        let len ← extensionLen nextHeader extLen
        let nextOffset ← checkedAdd offset len
        if len < 8 ∨ nextOffset > packetLen ∨ nextOffset > data.length then absent
        else do
          let next ← index data offset
          walkHeaders data packetLen rounds next nextOffset
    else if nextHeader = 44 then do
      let nextOffset ← checkedAdd offset 8
      if nextOffset > packetLen ∨ nextOffset > data.length then absent
      else do
        let second ← add offset 2
        let third ← add offset 3
        let fragOffset ← be16 data second third
        let next ← index data offset
        if fragOffset >>> 3 ≠ 0 then return { nextHeader := next, nonFirstFragment := true }
        else walkHeaders data packetLen rounds next nextOffset
    else do
      let segment ← getRange data offset (min packetLen data.length)
      let declared ← checkedSub packetLen offset
      let l4 ← parseL4 nextHeader segment declared
      return { nextHeader, l4 }

def parseIpv6 (data : Bytes) (wireLen : Nat) : Outcome FlowEvent :=
  if data.length < 40 then absent
  else do
    let first ← index data 0
    if first >>> 4 ≠ 6 then absent
    else do
      let payloadLen ← be16 data 4 5
      if payloadLen.toNat = 0 then absent
      else do
        let packetLen ← checkedAdd 40 payloadLen.toNat
        if packetLen > wireLen then absent
        else do
          let nextHeader ← index data 6
          let src ← ipv6Address data 8 24
          let dst ← ipv6Address data 24 40
          let walked ← walkHeaders data packetLen 6 nextHeader 40
          if isExtension walked.nextHeader ∧ ¬walked.nonFirstFragment then absent
          else return flowEvent src dst walked.nextHeader walked.l4 packetLen

def parseL3 (ethertype : UInt16) (data : Bytes) (wireLen : Nat) : Outcome FlowEvent :=
  if ethertype = ethertypeIpv4 then parseIpv4 data wireLen
  else if ethertype = ethertypeIpv6 then parseIpv6 data wireLen
  else absent

def parseIp (data : Bytes) (wireLen : Nat) : Outcome FlowEvent := do
  let first ← ofOption data.head?
  if first >>> 4 = 4 then parseIpv4 data wireLen
  else if first >>> 4 = 6 then parseIpv6 data wireLen
  else absent

/-- The loop of `parse_ethernet`, with the rounds it has left. -/
def unwrapTags (data : Bytes) : Nat → UInt16 → Nat → Outcome (UInt16 × Nat)
  | 0, ethertype, offset => return (ethertype, offset)
  | rounds + 1, ethertype, offset =>
    if ethertype = ethertypeVlan ∨ ethertype = ethertypeQinq then do
      let tagEnd ← add offset 4
      if data.length < tagEnd then absent
      else do
        let second ← add offset 2
        let third ← add offset 3
        let inner ← be16 data second third
        unwrapTags data rounds inner tagEnd
    else unwrapTags data rounds ethertype offset

def parseEthernet (data : Bytes) (wireLen : Nat) : Outcome FlowEvent :=
  if data.length < 14 then absent
  else do
    let ethertype ← be16 data 12 13
    let unwrapped ← unwrapTags data 2 ethertype 14
    let packet ← rangeFrom data unwrapped.2
    let declared ← checkedSub wireLen unwrapped.2
    parseL3 unwrapped.1 packet declared

def parsePacketWithWireLen (link : UInt32) (data : Bytes) (wireLen : UInt32) : Outcome FlowEvent :=
  let wireLen := wireLen.toNat
  if data.length > wireLen then absent
  else if link = linktype.ethernet then parseEthernet data wireLen
  else if link = linktype.rawIp then parseIp data wireLen
  else if link = linktype.linuxSll then
    if data.length < 16 then absent
    else do
      let ethertype ← be16 data 14 15
      let packet ← rangeFrom data 16
      let declared ← checkedSub wireLen 16
      parseL3 ethertype packet declared
  else absent

end Checked

/-! ## No operation is out of range -/

theorem index_octet {data : Bytes} {i : Nat} (inside : i < data.length) :
    index data i = value (octet data i) :=
  index_of_lt inside 0

theorem be16_value {data : Bytes} {i j : Nat} (next : j = i + 1) (inside : j < data.length) :
    Checked.be16 data i j = value (be16 data i) := by
  subst next
  rw [Checked.be16, index_octet (by omega), index_octet inside]
  rfl

theorem parseL4_checked (protocol : UInt8) (data : Bytes) (wireLen : Nat) :
    Checked.parseL4 protocol data wireLen = ofOption (parseL4 protocol data wireLen) := by
  unfold Checked.parseL4 parseL4
  by_cases tcp : protocol = 6
  · simp only [if_pos tcp]
    by_cases short : data.length < 14
    · simp only [if_pos short]
      rfl
    · have small := (octet data 12 >>> 4).toNat_lt
      simp (disch := omega) only [if_neg short, index_octet, value_bind, mul_of_lt, be16_value, pure_eq]
      split <;> rfl
  · simp only [if_neg tcp]
    by_cases udp : protocol = 17
    · simp only [if_pos udp]
      by_cases short : data.length < 8
      · simp only [if_pos short]
        rfl
      · simp (disch := omega) only [if_neg short, value_bind, be16_value, pure_eq]
        split <;> rfl
    · simp only [if_neg udp]
      rfl

theorem ipv4Address_value {data : Bytes} {i j k l : Nat} (second : j = i + 1) (third : k = i + 2)
    (fourth : l = i + 3) (inside : l < data.length) :
    Checked.ipv4Address data i j k l = value (ipv4Address data i) := by
  subst second third fourth
  simp (disch := omega) only [Checked.ipv4Address, index_octet, value_bind, pure_eq]
  rfl

theorem parseIpv4_checked (data : Bytes) (wireLen : Nat) :
    Checked.parseIpv4 data wireLen = ofOption (parseIpv4 data wireLen) := by
  unfold Checked.parseIpv4 parseIpv4
  by_cases short : data.length < 20
  · simp only [short, true_or, if_true]
    rfl
  · have small := (octet data 0 &&& 0x0F).toNat_lt
    simp (disch := omega) only [short, if_false, false_or, index_octet, value_bind, mul_of_lt]
    by_cases version : octet data 0 >>> 4 = 4
    case neg => simp only [ne_eq, version, not_false_iff, if_true]; rfl
    case pos =>
      simp only [ne_eq, version, not_true, if_false]
      by_cases header : (octet data 0 &&& 0x0F).toNat * 4 < 20 ∨
          data.length < (octet data 0 &&& 0x0F).toNat * 4
      · simp only [if_pos header]
        rfl
      · simp (disch := omega) only [if_neg header, be16_value, value_bind]
        by_cases total : (be16 data 2).toNat < (octet data 0 &&& 0x0F).toNat * 4 ∨
            (be16 data 2).toNat > wireLen
        · simp only [if_pos total]
          rfl
        · simp (disch := omega) only [if_neg total, value_bind, ipv4Address_value]
          by_cases first : be16 data 6 &&& 0x1FFF = 0
          · rw [not_or, Nat.not_lt, Nat.not_lt] at header total
            simp (disch := omega) only [if_pos first, range_of_le, sub_of_le, value_bind,
              parseL4_checked, pure_eq, ofOption_bind_value]
            rfl
          · simp only [if_neg first, pure_eq, value_bind]
            rfl

theorem ipv6Address_value {data : Bytes} {start stop : Nat} (sixteen : stop = start + 16)
    (inside : stop ≤ data.length) :
    Checked.ipv6Address data start stop = value (ipv6Address data start) := by
  subst sixteen
  have sized : ((data.take (start + 16)).drop start).length = 16 := by
    rw [List.length_drop, List.length_take]
    omega
  rw [Checked.ipv6Address, range_of_le (by omega) inside]
  simp only [value_bind, if_pos sized]
  rfl

theorem extensionLen_value (nextHeader octet : UInt8) :
    Checked.extensionLen nextHeader octet =
      value (if nextHeader = 51 then (octet.toNat + 2) * 4 else 8 + octet.toNat * 8) := by
  have small := octet.toNat_lt
  unfold Checked.extensionLen
  split <;>
    simp (disch := omega) only [add_of_lt, mul_of_lt, checkedMul_of_lt, checkedAdd_of_lt, value_bind]

/-- The offset of a round is inside the captured octets, as the round before has checked. -/
theorem walkHeaders_checked {data : Bytes} (fits : data.length < 2 ^ 32) (packetLen rounds : Nat)
    (nextHeader : UInt8) {offset : Nat} (inside : offset ≤ data.length) :
    Checked.walkHeaders data packetLen rounds nextHeader offset =
      ofOption (walkHeaders data packetLen rounds nextHeader offset) := by
  induction rounds generalizing nextHeader offset with
  | zero => rfl
  | succ rounds ih =>
    rw [Checked.walkHeaders, walkHeaders]
    by_cases extension : nextHeader = 0 ∨ nextHeader = 43 ∨ nextHeader = 51 ∨ nextHeader = 60
    · simp (disch := omega) only [if_pos extension, checkedAdd_of_lt, value_bind]
      by_cases outside : offset + 8 > packetLen ∨ offset + 8 > data.length
      · simp only [if_pos outside]
        rfl
      · simp (disch := omega) only [if_neg outside, index_octet, extensionLen_value, value_bind]
        generalize measured : (if nextHeader = 51 then ((octet data (offset + 1)).toNat + 2) * 4
          else 8 + (octet data (offset + 1)).toNat * 8) = len
        have small : len ≤ 2048 := by
          have few := (octet data (offset + 1)).toNat_lt
          rw [← measured]
          split <;> omega
        simp (disch := omega) only [checkedAdd_of_lt, value_bind]
        by_cases beyond : len < 8 ∨ offset + len > packetLen ∨ offset + len > data.length
        · simp only [if_pos beyond]
          rfl
        · simp only [if_neg beyond]
          exact ih _ (by omega)
    · simp only [if_neg extension]
      by_cases fragment : nextHeader = 44
      · simp (disch := omega) only [if_pos fragment, checkedAdd_of_lt, value_bind]
        by_cases outside : offset + 8 > packetLen ∨ offset + 8 > data.length
        · simp only [if_pos outside]
          rfl
        · simp (disch := omega) only [if_neg outside, add_of_lt, value_bind, be16_value, index_octet]
          by_cases later : be16 data (offset + 2) >>> 3 = 0
          · simp only [ne_eq, later, not_true, if_false]
            exact ih _ (by omega)
          · simp only [ne_eq, later, not_false_iff, if_true]
            rfl
      · simp only [if_neg fragment]
        by_cases outside : offset > min packetLen data.length
        · rw [if_pos outside, getRange, if_neg (by omega)]
          rfl
        · rw [if_neg outside, getRange, if_pos (by omega)]
          simp (disch := omega) only [checkedSub_of_le, value_bind, parseL4_checked, pure_eq,
            ofOption_bind_value]
          rfl

theorem parseIpv6_checked {data : Bytes} (fits : data.length < 2 ^ 32) (wireLen : Nat) :
    Checked.parseIpv6 data wireLen = ofOption (parseIpv6 data wireLen) := by
  unfold Checked.parseIpv6 parseIpv6
  by_cases short : data.length < 40
  · simp only [short, true_or, if_true]
    rfl
  · simp (disch := omega) only [short, if_false, false_or, index_octet, value_bind]
    by_cases version : octet data 0 >>> 4 = 6
    case neg => simp only [ne_eq, version, not_false_iff, if_true]; rfl
    case pos =>
      have small := (be16 data 4).toNat_lt
      simp (disch := omega) only [ne_eq, version, not_true, if_false, be16_value, value_bind]
      by_cases jumbo : (be16 data 4).toNat = 0
      · simp only [if_pos jumbo]
        rfl
      · simp (disch := omega) only [if_neg jumbo, checkedAdd_of_lt, value_bind]
        by_cases long : 40 + (be16 data 4).toNat > wireLen
        · simp only [if_pos long]
          rfl
        · simp (disch := omega) only [if_neg long, ipv6Address_value, value_bind]
          rw [walkHeaders_checked fits _ _ _ (by omega)]
          cases walkHeaders data (40 + (be16 data 4).toNat) 6 (octet data 6) 40 with
          | none => rfl
          | some walked =>
            simp only [ofOption, value_bind]
            split <;> rfl

theorem parseL3_checked (ethertype : UInt16) {data : Bytes} (fits : data.length < 2 ^ 32)
    (wireLen : Nat) :
    Checked.parseL3 ethertype data wireLen = ofOption (parseL3 ethertype data wireLen) := by
  unfold Checked.parseL3 parseL3
  rw [parseIpv4_checked, parseIpv6_checked fits]
  split
  · rfl
  · split <;> rfl

theorem parseIp_checked {data : Bytes} (fits : data.length < 2 ^ 32) (wireLen : Nat) :
    Checked.parseIp data wireLen = ofOption (parseIp data wireLen) := by
  unfold Checked.parseIp parseIp
  rw [parseIpv4_checked, parseIpv6_checked fits]
  cases data.head? with
  | none => rfl
  | some first =>
    simp only [ofOption, value_bind]
    split
    · rfl
    · split <;> rfl

theorem unwrapTags_checked {data : Bytes} (fits : data.length < 2 ^ 32) (rounds : Nat)
    (ethertype : UInt16) {offset : Nat} (inside : offset ≤ data.length) :
    Checked.unwrapTags data rounds ethertype offset =
      ofOption (unwrapTags data rounds ethertype offset) := by
  induction rounds generalizing ethertype offset with
  | zero => rfl
  | succ rounds ih =>
    rw [Checked.unwrapTags, unwrapTags]
    by_cases tag : ethertype = ethertypeVlan ∨ ethertype = ethertypeQinq
    · simp (disch := omega) only [if_pos tag, add_of_lt, value_bind]
      by_cases short : data.length < offset + 4
      · simp only [if_pos short]
        rfl
      · simp (disch := omega) only [if_neg short, be16_value, value_bind]
        exact ih _ (by omega)
    · simp only [if_neg tag]
      exact ih _ inside

theorem unwrapTags_inside {data : Bytes} {rounds offset offset' : Nat} {ethertype ethertype' : UInt16}
    (inside : offset ≤ data.length)
    (unwrapped : unwrapTags data rounds ethertype offset = some (ethertype', offset')) :
    offset' ≤ data.length := by
  induction rounds generalizing ethertype offset with
  | zero =>
    obtain ⟨-, rfl⟩ := Prod.mk.inj (Option.some.inj unwrapped)
    exact inside
  | succ rounds ih =>
    rw [unwrapTags] at unwrapped
    split at unwrapped
    · split at unwrapped
      · cases unwrapped
      next whole => exact ih (Nat.not_lt.mp whole) unwrapped
    · exact ih inside unwrapped

theorem parseEthernet_checked {data : Bytes} (fits : data.length < 2 ^ 32) (wireLen : Nat) :
    Checked.parseEthernet data wireLen = ofOption (parseEthernet data wireLen) := by
  unfold Checked.parseEthernet parseEthernet
  by_cases short : data.length < 14
  · simp only [if_pos short]
    rfl
  · simp (disch := omega) only [if_neg short, be16_value, value_bind]
    rw [unwrapTags_checked fits 2 _ (by omega)]
    cases unwrapped : unwrapTags data 2 (be16 data 12) 14 with
    | none => rfl
    | some tagged =>
      have inside := unwrapTags_inside (by omega) unwrapped
      simp only [ofOption_some, value_bind, rangeFrom_of_le inside]
      have shorter : (data.drop tagged.2).length < 2 ^ 32 := by
        rw [List.length_drop]
        omega
      by_cases outside : wireLen < tagged.2
      · rw [if_pos outside, checkedSub, if_neg (by omega)]
        rfl
      · rw [if_neg outside, checkedSub_of_le (by omega), value_bind, parseL3_checked _ shorter]

/-- Every index, slice and addition of the parser is in range, for every packet. -/
theorem parsePacketWithWireLen_checked (link : UInt32) (data : Bytes) (wireLen : UInt32) :
    Checked.parsePacketWithWireLen link data wireLen =
      ofOption (parsePacketWithWireLen link data wireLen) := by
  unfold Checked.parsePacketWithWireLen parsePacketWithWireLen
  dsimp only
  by_cases long : data.length > wireLen.toNat
  · rw [if_pos long, if_pos long]
    rfl
  · have word := wireLen.toNat_lt
    have fits : data.length < 2 ^ 32 := by omega
    simp only [if_neg long, parseEthernet_checked fits, parseIp_checked fits]
    split
    · rfl
    · split
      · rfl
      · by_cases cooked : link = linktype.linuxSll
        case neg =>
          simp only [if_neg cooked]
          rfl
        case pos =>
          simp only [if_pos cooked]
          by_cases short : data.length < 16
          · simp only [if_pos short]
            rfl
          · have shorter : (data.drop 16).length < 2 ^ 32 := by
              rw [List.length_drop]
              omega
            simp (disch := omega) only [if_neg short, be16_value, rangeFrom_of_le, value_bind]
            by_cases outside : wireLen.toNat < 16
            · rw [if_pos outside, checkedSub, if_neg (by omega)]
              rfl
            · rw [if_neg outside, checkedSub_of_le (by omega), value_bind, parseL3_checked _ shorter]

/-! ## No event counts more than the packet -/

/-- At least one byte, and at most `wireLen`. -/
def Counted (wireLen : Nat) (event : FlowEvent) : Prop :=
  0 < event.bytes.toNat ∧ event.bytes.toNat ≤ wireLen

theorem flowEvent_counted {srcIp dstIp : IpAddr} {protocol : UInt8} {l4 : L4Info} {len wireLen : Nat}
    (word : wireLen < 2 ^ 32) (positive : 0 < len) (within : len ≤ wireLen) :
    Counted wireLen (flowEvent srcIp dstIp protocol l4 len) := by
  have same : (flowEvent srcIp dstIp protocol l4 len).bytes.toNat = len :=
    UInt32.toNat_ofNat_of_lt' (Nat.lt_of_le_of_lt within word)
  rw [Counted, same]
  exact ⟨positive, within⟩

theorem parseIpv4_counted {data : Bytes} {wireLen : Nat} {event : FlowEvent} (word : wireLen < 2 ^ 32)
    (parsed : parseIpv4 data wireLen = some event) : Counted wireLen event := by
  unfold parseIpv4 at parsed
  dsimp only at parsed
  split at parsed
  · cases parsed
  · split at parsed
    · cases parsed
    next header =>
      split at parsed
      · cases parsed
      next total =>
        obtain ⟨l4, -, rfl⟩ := Option.map_eq_some_iff.mp parsed
        exact flowEvent_counted word (by omega) (by omega)

theorem parseIpv6_counted {data : Bytes} {wireLen : Nat} {event : FlowEvent} (word : wireLen < 2 ^ 32)
    (parsed : parseIpv6 data wireLen = some event) : Counted wireLen event := by
  unfold parseIpv6 at parsed
  dsimp only at parsed
  split at parsed
  · cases parsed
  · split at parsed
    · cases parsed
    · split at parsed
      · cases parsed
      next within =>
        split at parsed
        · cases parsed
        · split at parsed
          · cases parsed
          · obtain rfl := Option.some.inj parsed
            exact flowEvent_counted word (by omega) (by omega)

theorem parseL3_counted {ethertype : UInt16} {data : Bytes} {wireLen : Nat} {event : FlowEvent}
    (word : wireLen < 2 ^ 32) (parsed : parseL3 ethertype data wireLen = some event) :
    Counted wireLen event := by
  unfold parseL3 at parsed
  split at parsed
  · exact parseIpv4_counted word parsed
  · split at parsed
    · exact parseIpv6_counted word parsed
    · cases parsed

theorem parseIp_counted {data : Bytes} {wireLen : Nat} {event : FlowEvent} (word : wireLen < 2 ^ 32)
    (parsed : parseIp data wireLen = some event) : Counted wireLen event := by
  unfold parseIp at parsed
  split at parsed
  · cases parsed
  · split at parsed
    · exact parseIpv4_counted word parsed
    · split at parsed
      · exact parseIpv6_counted word parsed
      · cases parsed

theorem parseEthernet_counted {data : Bytes} {wireLen : Nat} {event : FlowEvent}
    (word : wireLen < 2 ^ 32) (parsed : parseEthernet data wireLen = some event) :
    ∃ start, LinkHeader data linktype.ethernet start ∧ start ≤ wireLen ∧
      Counted (wireLen - start) event := by
  unfold parseEthernet at parsed
  split at parsed
  · cases parsed
  · split at parsed
    · cases parsed
    next ethertype offset unwrapped =>
      obtain ⟨tags, few, rfl, tagged, last⟩ := unwrapTags_spec unwrapped
      split at parsed
      · cases parsed
      next inside =>
        exact ⟨_, .ethernet few tagged last, Nat.not_lt.mp inside, parseL3_counted (by omega) parsed⟩

/-- For every link type, byte string and wire length, the parser does not panic, and the bytes of an
event are positive and no more than the wire length less the link header. -/
theorem parser_total_counted (link : UInt32) (data : Bytes) (wireLen : UInt32) :
    Checked.parsePacketWithWireLen link data wireLen ≠ panic ∧
      ∀ event, Checked.parsePacketWithWireLen link data wireLen = value event →
        ∃ start, LinkHeader data link start ∧ start ≤ wireLen.toNat ∧
          Counted (wireLen.toNat - start) event := by
  rw [parsePacketWithWireLen_checked]
  refine ⟨ofOption_ne_panic _, fun event returned => ?_⟩
  have parsed := ofOption_eq_value_iff.mp returned
  have word := wireLen.toNat_lt
  unfold parsePacketWithWireLen at parsed
  dsimp only at parsed
  split at parsed
  · cases parsed
  · split at parsed
    next ethernet =>
      subst ethernet
      exact parseEthernet_counted word parsed
    next =>
      split at parsed
      next raw =>
        subst raw
        exact ⟨0, .rawIp, Nat.zero_le _, parseIp_counted word parsed⟩
      next =>
        split at parsed
        next cooked =>
          subst cooked
          split at parsed
          · cases parsed
          · split at parsed
            · cases parsed
            next inside =>
              exact ⟨16, .linuxSll, Nat.not_lt.mp inside, parseL3_counted (by omega) parsed⟩
        next => cases parsed

theorem datagram_counted :
    ∃ start, LinkHeader datagram linktype.rawIp start ∧ start ≤ (64 : UInt32).toNat ∧
      Counted ((64 : UInt32).toNat - start) datagramEvent :=
  (parser_total_counted linktype.rawIp datagram 64).2 datagramEvent (by decide)

end FlowSketch.Source.Pcap
