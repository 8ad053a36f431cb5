import FlowSketch.Source.Pcap.Headers
import FlowSketch.Source.Pcap.Reader

/-!
# The capture file writer

`crates/flowsketch-pcap/src/writer.rs`: Ethernet frames with an IPv4 or IPv6 header, a TCP or UDP
header and a payload of zeros, in a nanosecond capture file. The wire length, the length of the IP
packet, that of the UDP datagram and the stored payload are computed in four places, with words of 16,
32 and 64 bits; the lengths of 32 and 16 bits wrap. The reader gives back exactly the packets whose
lengths have not wrapped.
-/

namespace FlowSketch.Source.Pcap
open Lib.Octets Source.Core

structure PcapWriter where
  writer : Bytes
  packetsWritten : UInt64
  maxWrittenPayload : Nat
  deriving DecidableEq, Repr

/-- `u16::to_be_bytes`. -/
def toBeBytes (v : UInt16) : Bytes := [(v >>> 8).toUInt8, v.toUInt8]

namespace PcapWriter

def compactPayloadLimit : Nat := 64

def withPayloadLimit (writer : Bytes) (maxWrittenPayload : Nat) : PcapWriter where
  writer :=
    writer ++ toLeBytes magicNsec ++ leBytes 2 2 ++ leBytes 2 4 ++ toLeBytes 0 ++ toLeBytes 0 ++
      toLeBytes 65535 ++ toLeBytes linktype.ethernet
  packetsWritten := 0
  maxWrittenPayload

/-- A compact writer: at most 64 octets of a payload are stored. -/
def new (writer : Bytes) : PcapWriter := withPayloadLimit writer compactPayloadLimit

/-- A writer that stores the payload up to the longest packet of the protocol. -/
def newFullPayload (writer : Bytes) : PcapWriter := withPayloadLimit writer (2 ^ 64 - 1)

def writeRecord (w : PcapWriter) (tsNanos : UInt64) (originalLen : UInt32) (frame : Bytes) :
    PcapWriter :=
  { w with
    writer :=
      w.writer ++ toLeBytes (tsNanos / 1000000000).toUInt32 ++
        toLeBytes (tsNanos % 1000000000).toUInt32 ++ toLeBytes (UInt32.ofNat frame.length) ++
        toLeBytes originalLen ++ frame
    packetsWritten := w.packetsWritten + 1 }

end PcapWriter

def originalFrameLen (src dst : IpAddr) (l4Len : Nat) (payloadLen : UInt32) : UInt32 :=
  let requestedPayload := payloadLen.toNat
  UInt32.ofNat <|
    match src, dst with
    | .v4 .., .v4 .. => 14 + 20 + l4Len + min requestedPayload (65535 - (20 + l4Len))
    | .v6 .., .v6 .. => 14 + 40 + l4Len + min requestedPayload (65535 - l4Len)
    | _, _ => 14 + 20 + l4Len

def tcpHeader (srcPort dstPort : UInt16) (flags : UInt8) : Bytes :=
  toBeBytes srcPort ++ toBeBytes dstPort ++
    [0, 0, 0, 0, 0, 0, 0, 0] ++ -- seq, ack
    [0x50] ++ -- data offset 5
    [flags] ++ [0xFF, 0xFF] ++ -- window
    [0, 0, 0, 0] -- checksum, urgent

def udpHeader (srcPort dstPort payloadLen : UInt16) : Bytes :=
  toBeBytes srcPort ++ toBeBytes dstPort ++ toBeBytes (8 + payloadLen) ++ [0, 0]

/-- A payload. -/
def zeros (n : Nat) : Bytes := List.replicate n 0

/-- `Ipv6Addr::octets`. -/
def ipv6Octets (address : BitVec 128) : Bytes := (leBytes 16 address.toNat).reverse

/-- The network header in front of `l4Len` octets of transport header and the payload. -/
def ipHeader (src dst : IpAddr) (protocol : UInt8) (l4Len : Nat) (payloadLen : UInt32) : Bytes :=
  match src, dst with
  | .v4 a b c d, .v4 a' b' c' d' =>
    let totalLen := (20 + l4Len + payloadLen.toNat) % 2 ^ 32
    [0x45, 0] ++ toBeBytes (UInt16.ofNat (min totalLen 65535)) ++ [0, 0, 0x40, 0] ++ -- id, DF
      [64, protocol] ++ [0, 0] ++ -- checksum (unset)
      [a, b, c, d] ++ [a', b', c', d']
  | .v6 s, .v6 d =>
    let plen := min ((l4Len + payloadLen.toNat) % 2 ^ 32) 65535
    [0x60] ++ [0, 0, 0] ++ toBeBytes (UInt16.ofNat plen) ++ [protocol, 64] ++ ipv6Octets s ++
      ipv6Octets d
  | _, _ => [0x45, 0, 0, 28, 0, 0, 0, 0, 64, protocol, 0, 0] ++ [0, 0, 0, 0, 0, 0, 0, 0]

def ethertypeOf : IpAddr → IpAddr → UInt16
  | .v6 .., .v6 .. => ethertypeIpv6
  | _, _ => ethertypeIpv4

def buildFrame (src dst : IpAddr) (protocol : UInt8) (l4 : Bytes) (payloadLen : UInt32)
    (maxWrittenPayload : Nat) : Bytes :=
  let requestedPayload := payloadLen.toNat
  let protocolPayloadLimit :=
    match src, dst with
    | .v4 .., .v4 .. => 65535 - (20 + l4.length)
    | .v6 .., .v6 .. => 65535 - l4.length
    | _, _ => 65535 - (20 + l4.length)
  let writtenPayload := min (min requestedPayload maxWrittenPayload) protocolPayloadLimit
  [0x02, 0, 0, 0, 0, 1] ++ -- dst MAC
    [0x02, 0, 0, 0, 0, 2] ++ -- src MAC
    toBeBytes (ethertypeOf src dst) ++ ipHeader src dst protocol l4.length payloadLen ++ l4 ++
    zeros writtenPayload

namespace PcapWriter

def writeTcpPacket (w : PcapWriter) (tsNanos : UInt64) (src dst : IpAddr) (srcPort dstPort : UInt16)
    (tcpFlags : UInt8) (payloadLen : UInt32) : PcapWriter :=
  let l4 := tcpHeader srcPort dstPort tcpFlags
  let originalLen := originalFrameLen src dst l4.length payloadLen
  w.writeRecord tsNanos originalLen (buildFrame src dst 6 l4 payloadLen w.maxWrittenPayload)

def writeUdpPacket (w : PcapWriter) (tsNanos : UInt64) (src dst : IpAddr) (srcPort dstPort : UInt16)
    (payloadLen : UInt32) : PcapWriter :=
  let l4 := udpHeader srcPort dstPort payloadLen.toUInt16
  let originalLen := originalFrameLen src dst l4.length payloadLen
  w.writeRecord tsNanos originalLen (buildFrame src dst 17 l4 payloadLen w.maxWrittenPayload)

end PcapWriter

/-! ## Calls of a writer -/

inductive L4 where
  | tcp (flags : UInt8)
  | udp
  deriving DecidableEq, Repr

def IpAddr.isV4 : IpAddr → Bool
  | .v4 .. => true
  | .v6 .. => false

/-- A call of `write_tcp_packet` or `write_udp_packet`: addresses of one family, and a time below
`2 ^ 32` seconds. -/
structure Call where
  tsNanos : UInt64
  src : IpAddr
  dst : IpAddr
  srcPort : UInt16
  dstPort : UInt16
  l4 : L4
  payloadLen : UInt32
  sameFamily : IpAddr.isV4 src = IpAddr.isV4 dst
  inSeconds : tsNanos.toNat < 2 ^ 32 * 1000000000

def PcapWriter.write (w : PcapWriter) (call : Call) : PcapWriter :=
  match call.l4 with
  | .tcp flags =>
    w.writeTcpPacket call.tsNanos call.src call.dst call.srcPort call.dstPort flags call.payloadLen
  | .udp => w.writeUdpPacket call.tsNanos call.src call.dst call.srcPort call.dstPort call.payloadLen

namespace Call

def protocol (call : Call) : UInt8 :=
  match call.l4 with
  | .tcp _ => 6
  | .udp => 17

def tcpFlags (call : Call) : UInt8 :=
  match call.l4 with
  | .tcp flags => flags
  | .udp => 0

def l4Len (call : Call) : Nat :=
  match call.l4 with
  | .tcp _ => 20
  | .udp => 8

/-- The length of the IP packet, capped at the longest of its protocol. -/
def ipLen (call : Call) : Nat :=
  if IpAddr.isV4 call.src then min (20 + call.l4Len + call.payloadLen.toNat) 65535
  else min (40 + call.l4Len + call.payloadLen.toNat) 65575

/-- The event a reader is to give back. -/
def event (call : Call) : FlowEvent :=
  { (default : FlowEvent) with
    tsNanos := call.tsNanos, srcIp := call.src, dstIp := call.dst, srcPort := call.srcPort
    dstPort := call.dstPort, protocol := call.protocol, tcpFlags := call.tcpFlags
    bytes := UInt32.ofNat call.ipLen, packets := 1, direction := .unknown }

/-- The 32-bit length of a TCP packet does not wrap; the 16-bit length of a UDP datagram does not wrap,
nor does it exceed what the longest packet has room for. -/
def Fits (call : Call) : Prop :=
  match call.l4, IpAddr.isV4 call.src with
  | .tcp _, true => call.payloadLen.toNat < 2 ^ 32 - 40
  | .tcp _, false => call.payloadLen.toNat < 2 ^ 32 - 20
  | .udp, true => call.payloadLen.toNat % 2 ^ 16 ≤ 65507
  | .udp, false => call.payloadLen.toNat % 2 ^ 16 ≤ 65527

instance (call : Call) : Decidable call.Fits := by
  unfold Fits
  split <;> infer_instance

end Call

/-! ## Headers are read back -/

theorem toBeBytes_word (v : UInt16) :
    (v >>> 8).toUInt8.toUInt16 <<< 8 ||| v.toUInt8.toUInt16 = v := by
  have small := v.toNat_lt
  have low : v.toNat % 256 < 2 ^ 8 := Nat.mod_lt _ (by decide)
  have high : v.toNat / 2 ^ 8 < 2 ^ 8 := by omega
  rw [← UInt16.toNat_inj]
  simp only [UInt16.toNat_or, UInt16.toNat_shiftLeft, UInt8.toNat_toUInt16, UInt16.toNat_toUInt8,
    UInt16.toNat_shiftRight]
  rw [show (8 : UInt16).toNat % 16 = 8 from rfl, Nat.shiftRight_eq_div_pow, Nat.mod_eq_of_lt high,
    Nat.shiftLeft_eq, Nat.mod_eq_of_lt (by omega), ← Nat.shiftLeft_eq,
    ← Nat.shiftLeft_add_eq_or_of_lt low, Nat.shiftLeft_eq]
  omega

theorem be16_of_octets {data : Bytes} {i : Nat} {v : UInt16}
    (high : octet data i = (v >>> 8).toUInt8) (low : octet data (i + 1) = v.toUInt8) :
    be16 data i = v := by
  rw [be16, high, low, toBeBytes_word]

theorem foldl_reverse_leValue (octets : Bytes) :
    octets.reverse.foldl (fun value o => value * 256 + o.toNat) 0 = leValue octets := by
  rw [List.foldl_reverse]
  induction octets with
  | nil => rfl
  | cons octet rest ih =>
    rw [List.foldr_cons, ih, leValue]
    omega

theorem slice_behind {before rest : Bytes} {start stop : Nat} (exact : before.length = start)
    (inside : start ≤ stop) : slice (before ++ rest) start stop = rest.take (stop - start) := by
  subst exact
  rw [slice, List.take_append, List.take_of_length_le inside, List.drop_left]

theorem take_header {header : Bytes} {written declared : Nat} (whole : header.length ≤ declared) :
    ∃ payload : Bytes, (header ++ zeros written).take declared = header ++ payload :=
  ⟨(zeros written).take (declared - header.length), by
    rw [List.take_append, List.take_of_length_le whole]⟩

theorem parseL4_tcp (srcPort dstPort : UInt16) (flags : UInt8) (written declared : Nat) :
    parseL4 6 ((tcpHeader srcPort dstPort flags ++ zeros written).take declared) declared =
      if declared < 20 then none
      else some { srcPort := srcPort, dstPort := dstPort, tcpFlags := flags } := by
  by_cases short : declared < 20
  · have words : 13 < declared →
        octet ((tcpHeader srcPort dstPort flags ++ zeros written).take declared) 12 = 0x50 := by
      intro enough
      rw [octet, List.getD_eq_getElem?_getD, List.getElem?_take_of_lt (by omega)]
      rfl
    have few : ((tcpHeader srcPort dstPort flags ++ zeros written).take declared).length ≤ declared := by
      rw [List.length_take]
      exact Nat.min_le_left _ _
    rw [if_pos short, parseL4, if_pos rfl]
    split
    · rfl
    next enough =>
      rw [words (by omega)]
      exact if_pos (.inr (.inl short))
  · obtain ⟨payload, whole⟩ := @take_header (tcpHeader srcPort dstPort flags) written declared
      (Nat.not_lt.mp short)
    have sized : (tcpHeader srcPort dstPort flags ++ payload).length = 20 + payload.length := by
      rw [List.length_append]
      rfl
    have words : octet (tcpHeader srcPort dstPort flags ++ payload) 12 = 0x50 := rfl
    have src : be16 (tcpHeader srcPort dstPort flags ++ payload) 0 = srcPort := be16_of_octets rfl rfl
    have dst : be16 (tcpHeader srcPort dstPort flags ++ payload) 2 = dstPort := be16_of_octets rfl rfl
    rw [if_neg short, whole, parseL4, if_pos rfl, sized, if_neg (by omega)]
    simp only [words, src, dst]
    rw [if_neg]
    · rfl
    · show ¬((20 : Nat) < 20 ∨ 20 > declared ∨ 20 > 20 + payload.length)
      omega

theorem parseL4_udp (srcPort dstPort payloadLen : UInt16) (written declared : Nat) :
    parseL4 17 ((udpHeader srcPort dstPort payloadLen ++ zeros written).take declared) declared =
      if declared < 8 ∨ (8 + payloadLen).toNat < 8 ∨ (8 + payloadLen).toNat > declared then none
      else some { srcPort := srcPort, dstPort := dstPort } := by
  by_cases short : declared < 8
  · have few : ((udpHeader srcPort dstPort payloadLen ++ zeros written).take declared).length < 8 := by
      rw [List.length_take]
      omega
    rw [if_pos (.inl short), parseL4, if_neg (by decide), if_pos rfl, if_pos few]
  · obtain ⟨payload, whole⟩ := @take_header (udpHeader srcPort dstPort payloadLen) written declared
      (Nat.not_lt.mp short)
    have sized : (udpHeader srcPort dstPort payloadLen ++ payload).length = 8 + payload.length := by
      rw [List.length_append]
      rfl
    have src : be16 (udpHeader srcPort dstPort payloadLen ++ payload) 0 = srcPort :=
      be16_of_octets rfl rfl
    have dst : be16 (udpHeader srcPort dstPort payloadLen ++ payload) 2 = dstPort :=
      be16_of_octets rfl rfl
    have len : be16 (udpHeader srcPort dstPort payloadLen ++ payload) 4 = 8 + payloadLen :=
      be16_of_octets rfl rfl
    rw [whole, parseL4, if_neg (by decide), if_pos rfl, sized, if_neg (by omega)]
    simp only [src, dst, len, short, false_or]

theorem zeros_length (n : Nat) : (zeros n).length = n := List.length_replicate

/-- The length an IPv4 header carries. -/
def totalLen (l4Len : Nat) (payloadLen : UInt32) : Nat :=
  min ((20 + l4Len + payloadLen.toNat) % 2 ^ 32) 65535

/-- The length an IPv6 header carries. -/
def payloadLen6 (l4Len : Nat) (payloadLen : UInt32) : Nat :=
  min ((l4Len + payloadLen.toNat) % 2 ^ 32) 65535

theorem toNat_of_le {n : Nat} (small : n ≤ 65535) : (UInt16.ofNat n).toNat = n :=
  UInt16.toNat_ofNat_of_lt' (Nat.lt_succ_of_le small)

theorem parseIpv4_header (a b c d a' b' c' d' protocol : UInt8) {l4 : Bytes} {l4Len : Nat}
    (payloadLen : UInt32) (written wireLen : Nat) :
    parseIpv4 (ipHeader (.v4 a b c d) (.v4 a' b' c' d') protocol l4Len payloadLen ++
        (l4 ++ zeros written)) wireLen =
      if totalLen l4Len payloadLen < 20 ∨ totalLen l4Len payloadLen > wireLen then none
      else
        (parseL4 protocol ((l4 ++ zeros written).take (totalLen l4Len payloadLen - 20))
            (totalLen l4Len payloadLen - 20)).map
          (fun info => flowEvent (.v4 a b c d) (.v4 a' b' c' d') protocol info
            (totalLen l4Len payloadLen)) := by
  generalize l4 ++ zeros written = stored
  generalize shown : ipHeader (.v4 a b c d) (.v4 a' b' c' d') protocol l4Len payloadLen = header
  have twenty : header.length = 20 := by
    rw [← shown]
    rfl
  have sized : (header ++ stored).length = 20 + stored.length := by rw [List.length_append, twenty]
  have first : octet (header ++ stored) 0 = 0x45 := by
    rw [← shown]
    rfl
  have total : (be16 (header ++ stored) 2).toNat = totalLen l4Len payloadLen := by
    have word : be16 (header ++ stored) 2 = UInt16.ofNat (totalLen l4Len payloadLen) := by
      rw [← shown]
      exact be16_of_octets rfl rfl
    rw [word]
    exact toNat_of_le (Nat.min_le_right _ _)
  have frag : be16 (header ++ stored) 6 = 0x4000 := by
    rw [← shown]
    exact be16_of_octets rfl rfl
  have carried : octet (header ++ stored) 9 = protocol := by
    rw [← shown]
    rfl
  have src : ipv4Address (header ++ stored) 12 = .v4 a b c d := by
    rw [← shown]
    rfl
  have dst : ipv4Address (header ++ stored) 16 = .v4 a' b' c' d' := by
    rw [← shown]
    rfl
  unfold parseIpv4
  simp only [first, total, frag, carried, src, dst, sized]
  rw [if_neg (by rw [not_or]; exact ⟨by omega, by decide⟩),
    if_neg (by show ¬((20 : Nat) < 20 ∨ _ < 20); omega)]
  show (if totalLen l4Len payloadLen < 20 ∨ totalLen l4Len payloadLen > wireLen then none else _) = _
  split
  · rfl
  next inside =>
    have behind : slice (header ++ stored) 20 (min (totalLen l4Len payloadLen) (20 + stored.length)) =
        stored.take (totalLen l4Len payloadLen - 20) := by
      rw [slice_behind twenty (by omega), List.take_eq_take_iff]
      omega
    rw [if_pos (by decide)]
    show (parseL4 protocol (slice (header ++ stored) 20
      (min (totalLen l4Len payloadLen) (20 + stored.length))) _).map _ = _
    rw [behind]
    rfl

theorem ipv6Octets_length (address : BitVec 128) : (ipv6Octets address).length = 16 := by
  simp [ipv6Octets]

theorem ipv6Address_octets {data : Bytes} {i : Nat} {address : BitVec 128}
    (octets : slice data i (i + 16) = ipv6Octets address) : ipv6Address data i = .v6 address := by
  have fits : address.toNat < 256 ^ 16 := address.isLt
  rw [ipv6Address, octets, ipv6Octets, foldl_reverse_leValue, leValue_leBytes fits,
    BitVec.ofNat_toNat, BitVec.setWidth_eq]

theorem parseIpv6_header (s d : BitVec 128) {protocol : UInt8} (other : isExtension protocol = false)
    {l4 : Bytes} {l4Len : Nat} (payloadLen : UInt32) (written wireLen : Nat) :
    parseIpv6 (ipHeader (.v6 s) (.v6 d) protocol l4Len payloadLen ++ (l4 ++ zeros written)) wireLen =
      if payloadLen6 l4Len payloadLen = 0 ∨ 40 + payloadLen6 l4Len payloadLen > wireLen then none
      else
        (parseL4 protocol ((l4 ++ zeros written).take (payloadLen6 l4Len payloadLen))
            (payloadLen6 l4Len payloadLen)).map
          (fun info => flowEvent (.v6 s) (.v6 d) protocol info
            (40 + payloadLen6 l4Len payloadLen)) := by
  generalize l4 ++ zeros written = stored
  generalize shown : ipHeader (.v6 s) (.v6 d) protocol l4Len payloadLen = header
  have forty : header.length = 40 := by
    rw [← shown]
    simp [ipHeader, ipv6Octets_length, toBeBytes]
  have sized : (header ++ stored).length = 40 + stored.length := by rw [List.length_append, forty]
  have first : octet (header ++ stored) 0 = 0x60 := by
    rw [← shown]
    rfl
  have length : (be16 (header ++ stored) 4).toNat = payloadLen6 l4Len payloadLen := by
    have word : be16 (header ++ stored) 4 = UInt16.ofNat (payloadLen6 l4Len payloadLen) := by
      rw [← shown]
      exact be16_of_octets rfl rfl
    rw [word]
    exact toNat_of_le (Nat.min_le_right _ _)
  have next : octet (header ++ stored) 6 = protocol := by
    rw [← shown]
    rfl
  have src : ipv6Address (header ++ stored) 8 = .v6 s := by
    apply ipv6Address_octets
    rw [← shown, ipHeader, List.append_assoc _ (ipv6Octets d)]
    exact slice_append_mid rfl (by rw [ipv6Octets_length])
  have dst : ipv6Address (header ++ stored) 24 = .v6 d := by
    apply ipv6Address_octets
    rw [← shown, ipHeader]
    exact slice_append_mid (by simp [ipv6Octets_length, toBeBytes]) (by rw [ipv6Octets_length])
  unfold parseIpv6
  simp only [first, length, next, src, dst, sized]
  rw [if_neg (by rw [not_or]; exact ⟨by omega, by decide⟩)]
  by_cases empty : payloadLen6 l4Len payloadLen = 0
  · rw [if_pos empty, if_pos (.inl empty)]
  · rw [if_neg empty]
    by_cases long : 40 + payloadLen6 l4Len payloadLen > wireLen
    · rw [if_pos long, if_pos (.inr long)]
    · have behind : slice (header ++ stored) 40
          (min (40 + payloadLen6 l4Len payloadLen) (40 + stored.length)) =
          stored.take (payloadLen6 l4Len payloadLen) := by
        rw [slice_behind forty (by omega), List.take_eq_take_iff]
        omega
      have plain : ¬(protocol = 0 ∨ protocol = 43 ∨ protocol = 51 ∨ protocol = 60) ∧ protocol ≠ 44 := by
        simp only [isExtension, decide_eq_false_iff_not] at other
        tauto
      rw [if_neg long, if_neg (by omega), walkHeaders, if_neg plain.1, if_neg plain.2]
      simp only [sized]
      rw [if_neg (by omega), behind, Nat.add_sub_cancel_left]
      cases parseL4 protocol (stored.take (payloadLen6 l4Len payloadLen))
          (payloadLen6 l4Len payloadLen) with
      | none => rfl
      | some info => simp [other]

theorem parse_frame {ethertype : UInt16} (plain : ¬isTag ethertype) {packet : Bytes} {wireLen : UInt32}
    (inside : 14 + packet.length ≤ wireLen.toNat) :
    parsePacketWithWireLen linktype.ethernet
        ([0x02, 0, 0, 0, 0, 1] ++ [0x02, 0, 0, 0, 0, 2] ++ toBeBytes ethertype ++ packet) wireLen =
      parseL3 ethertype packet (wireLen.toNat - 14) := by
  generalize shown : [0x02, 0, 0, 0, 0, 1] ++ [0x02, 0, 0, 0, 0, 2] ++ toBeBytes ethertype = link
  have fourteen : link.length = 14 := by
    rw [← shown]
    rfl
  have carried : be16 (link ++ packet) 12 = ethertype := by
    rw [← shown]
    exact be16_of_octets rfl rfl
  have behind : (link ++ packet).drop 14 = packet := by
    rw [← fourteen, List.drop_left]
  have sized : (link ++ packet).length = 14 + packet.length := by rw [List.length_append, fourteen]
  unfold parsePacketWithWireLen parseEthernet
  dsimp only
  rw [if_neg (by omega), if_pos rfl, if_neg (by omega), carried, unwrapTags_plain plain]
  dsimp only
  rw [if_neg (by omega), behind]

/-- The payload octets a frame stores. -/
def stored (limit protocolLimit : Nat) (payloadLen : UInt32) : Nat :=
  min (min payloadLen.toNat limit) protocolLimit

section Frames
variable {l4 : Bytes} {payloadLen : UInt32} {limit : Nat}

theorem originalFrameLen_v4 (a b c d a' b' c' d' : UInt8) (short : l4.length ≤ 20) :
    (originalFrameLen (.v4 a b c d) (.v4 a' b' c' d') l4.length payloadLen).toNat =
      34 + l4.length + min payloadLen.toNat (65515 - l4.length) := by
  show (UInt32.ofNat (14 + 20 + l4.length + min payloadLen.toNat (65535 - (20 + l4.length)))).toNat = _
  rw [UInt32.toNat_ofNat_of_lt' (by show _ < 2 ^ 32; omega)]
  omega

theorem originalFrameLen_v6 (s d : BitVec 128) (short : l4.length ≤ 20) :
    (originalFrameLen (.v6 s) (.v6 d) l4.length payloadLen).toNat =
      54 + l4.length + min payloadLen.toNat (65535 - l4.length) := by
  show (UInt32.ofNat (14 + 40 + l4.length + min payloadLen.toNat (65535 - l4.length))).toNat = _
  rw [UInt32.toNat_ofNat_of_lt' (by show _ < 2 ^ 32; omega)]

theorem buildFrame_v4 (a b c d a' b' c' d' protocol : UInt8) :
    buildFrame (.v4 a b c d) (.v4 a' b' c' d') protocol l4 payloadLen limit =
      [0x02, 0, 0, 0, 0, 1] ++ [0x02, 0, 0, 0, 0, 2] ++ toBeBytes ethertypeIpv4 ++
        (ipHeader (.v4 a b c d) (.v4 a' b' c' d') protocol l4.length payloadLen ++
          (l4 ++ zeros (stored limit (65535 - (20 + l4.length)) payloadLen))) := by
  simp only [buildFrame, ethertypeOf, stored, List.append_assoc]

theorem buildFrame_v6 (s d : BitVec 128) (protocol : UInt8) :
    buildFrame (.v6 s) (.v6 d) protocol l4 payloadLen limit =
      [0x02, 0, 0, 0, 0, 1] ++ [0x02, 0, 0, 0, 0, 2] ++ toBeBytes ethertypeIpv6 ++
        (ipHeader (.v6 s) (.v6 d) protocol l4.length payloadLen ++
          (l4 ++ zeros (stored limit (65535 - l4.length) payloadLen))) := by
  simp only [buildFrame, ethertypeOf, stored, List.append_assoc]

/-- A frame is no longer than the packet it stands for, and far below the capture limit. -/
theorem buildFrame_length {src dst : IpAddr} (family : IpAddr.isV4 src = IpAddr.isV4 dst)
    (protocol : UInt8) (short : l4.length ≤ 20) :
    (buildFrame src dst protocol l4 payloadLen limit).length ≤
        (originalFrameLen src dst l4.length payloadLen).toNat ∧
      (buildFrame src dst protocol l4 payloadLen limit).length ≤ captureLimit := by
  cases src with
  | v4 a b c d =>
    cases dst with
    | v6 => cases family
    | v4 a' b' c' d' =>
      have few : stored limit (65535 - (20 + l4.length)) payloadLen ≤
          min payloadLen.toNat (65515 - l4.length) := by
        unfold stored
        omega
      have length : (buildFrame (.v4 a b c d) (.v4 a' b' c' d') protocol l4 payloadLen limit).length =
          34 + l4.length + stored limit (65535 - (20 + l4.length)) payloadLen := by
        rw [buildFrame_v4]
        simp [ipHeader, toBeBytes, zeros_length]
        omega
      rw [length, originalFrameLen_v4 a b c d a' b' c' d' short, captureLimit]
      omega
  | v6 s =>
    cases dst with
    | v4 => cases family
    | v6 d =>
      have few : stored limit (65535 - l4.length) payloadLen ≤
          min payloadLen.toNat (65535 - l4.length) := by
        unfold stored
        omega
      have length : (buildFrame (.v6 s) (.v6 d) protocol l4 payloadLen limit).length =
          54 + l4.length + stored limit (65535 - l4.length) payloadLen := by
        rw [buildFrame_v6]
        simp [ipHeader, toBeBytes, zeros_length, ipv6Octets_length]
        omega
      rw [length, originalFrameLen_v6 s d short, captureLimit]
      omega

theorem parse_v4 (a b c d a' b' c' d' protocol : UInt8) (short : l4.length ≤ 20) :
    ∃ written, parsePacketWithWireLen linktype.ethernet
        (buildFrame (.v4 a b c d) (.v4 a' b' c' d') protocol l4 payloadLen limit)
        (originalFrameLen (.v4 a b c d) (.v4 a' b' c' d') l4.length payloadLen) =
      if totalLen l4.length payloadLen < 20 then none
      else
        (parseL4 protocol ((l4 ++ zeros written).take (totalLen l4.length payloadLen - 20))
            (totalLen l4.length payloadLen - 20)).map
          (fun info => flowEvent (.v4 a b c d) (.v4 a' b' c' d') protocol info
            (totalLen l4.length payloadLen)) := by
  have length := @originalFrameLen_v4 l4 payloadLen a b c d a' b' c' d' short
  have inside := (@buildFrame_length l4 payloadLen limit (.v4 a b c d) (.v4 a' b' c' d') rfl protocol short).1
  refine ⟨stored limit (65535 - (20 + l4.length)) payloadLen, ?_⟩
  rw [buildFrame_v4, List.length_append] at inside
  rw [buildFrame_v4, parse_frame (by decide) inside, parseL3, if_pos rfl, parseIpv4_header, length]
  have within : ¬totalLen l4.length payloadLen >
      34 + l4.length + min payloadLen.toNat (65515 - l4.length) - 14 := by
    unfold totalLen
    omega
  simp only [within, or_false]

theorem parse_v6 (s d : BitVec 128) {protocol : UInt8} (other : isExtension protocol = false)
    (short : l4.length ≤ 20) :
    ∃ written, parsePacketWithWireLen linktype.ethernet
        (buildFrame (.v6 s) (.v6 d) protocol l4 payloadLen limit)
        (originalFrameLen (.v6 s) (.v6 d) l4.length payloadLen) =
      if payloadLen6 l4.length payloadLen = 0 then none
      else
        (parseL4 protocol ((l4 ++ zeros written).take (payloadLen6 l4.length payloadLen))
            (payloadLen6 l4.length payloadLen)).map
          (fun info => flowEvent (.v6 s) (.v6 d) protocol info
            (40 + payloadLen6 l4.length payloadLen)) := by
  have length := @originalFrameLen_v6 l4 payloadLen s d short
  have inside := (@buildFrame_length l4 payloadLen limit (.v6 s) (.v6 d) rfl protocol short).1
  refine ⟨stored limit (65535 - l4.length) payloadLen, ?_⟩
  rw [buildFrame_v6, List.length_append] at inside
  rw [buildFrame_v6, parse_frame (by decide) inside, parseL3, if_neg (by decide), if_pos rfl,
    parseIpv6_header s d other, length]
  have within : ¬40 + payloadLen6 l4.length payloadLen >
      54 + l4.length + min payloadLen.toNat (65535 - l4.length) - 14 := by
    unfold payloadLen6
    omega
  simp only [within, or_false]

end Frames

/-! ## A call is read back as its event, or not at all -/

namespace Call

def l4Header (call : Call) : Bytes :=
  match call.l4 with
  | .tcp flags => tcpHeader call.srcPort call.dstPort flags
  | .udp => udpHeader call.srcPort call.dstPort call.payloadLen.toUInt16

def frame (call : Call) (limit : Nat) : Bytes :=
  buildFrame call.src call.dst call.protocol call.l4Header call.payloadLen limit

def originalLen (call : Call) : UInt32 :=
  originalFrameLen call.src call.dst call.l4Header.length call.payloadLen

theorem l4Header_length (call : Call) : call.l4Header.length = call.l4Len := by
  unfold l4Header l4Len
  cases call.l4 <;> rfl

theorem l4Len_le (call : Call) : call.l4Len ≤ 20 := by
  unfold l4Len
  cases call.l4 with
  | tcp => exact Nat.le_refl 20
  | udp => exact Nat.le_add_right 8 12

theorem udpLen_toNat (payloadLen : UInt32) :
    (8 + payloadLen.toUInt16).toNat = (8 + payloadLen.toNat % 2 ^ 16) % 2 ^ 16 := by
  rw [UInt16.toNat_add, UInt32.toNat_toUInt16]
  rfl

/-- The frame of a call carries its event if its lengths fit, and nothing the parser accepts if not. -/
theorem frame_parsed (call : Call) (limit : Nat) :
    parsePacketWithWireLen linktype.ethernet (call.frame limit) call.originalLen =
      if call.Fits then some { call.event with tsNanos := 0 } else none := by
  obtain ⟨tsNanos, src, dst, srcPort, dstPort, l4, payloadLen, sameFamily, inSeconds⟩ := call
  have word := payloadLen.toNat_lt
  cases src with
  | v4 a b c d =>
    cases dst with
    | v6 => cases sameFamily
    | v4 a' b' c' d' =>
      cases l4 with
      | tcp flags =>
        obtain ⟨written, parsed⟩ := @parse_v4 (tcpHeader srcPort dstPort flags) payloadLen limit
          a b c d a' b' c' d' 6 (Nat.le_refl 20)
        have length : (tcpHeader srcPort dstPort flags).length = 20 := rfl
        rw [parseL4_tcp, length] at parsed
        refine parsed.trans ?_
        by_cases fits : payloadLen.toNat < 2 ^ 32 - 40
        · have total : totalLen 20 payloadLen = min (20 + 20 + payloadLen.toNat) 65535 := by
            unfold totalLen
            omega
          rw [if_neg (by omega), if_neg (by omega), total]
          exact (if_pos fits).symm
        · have total : totalLen 20 payloadLen < 40 := by
            unfold totalLen
            omega
          rw [if_pos (by omega : totalLen 20 payloadLen - 20 < 20)]
          refine Eq.trans ?_ (if_neg fits).symm
          split <;> rfl
      | udp =>
        obtain ⟨written, parsed⟩ := @parse_v4 (udpHeader srcPort dstPort payloadLen.toUInt16)
          payloadLen limit a b c d a' b' c' d' 17 (Nat.le_add_right 8 12)
        have length : (udpHeader srcPort dstPort payloadLen.toUInt16).length = 8 := rfl
        rw [parseL4_udp, length, udpLen_toNat] at parsed
        refine parsed.trans ?_
        by_cases fits : payloadLen.toNat % 2 ^ 16 ≤ 65507
        · have total : totalLen 8 payloadLen = min (20 + 8 + payloadLen.toNat) 65535 := by
            unfold totalLen
            omega
          rw [if_neg (by omega), if_neg (by omega), total]
          exact (if_pos fits).symm
        · have total : totalLen 8 payloadLen ≤ 65535 := Nat.min_le_right _ _
          rw [if_pos (by omega : totalLen 8 payloadLen - 20 < 8 ∨ _ < 8 ∨ _ > totalLen 8 payloadLen - 20)]
          refine Eq.trans ?_ (if_neg fits).symm
          split <;> rfl
  | v6 s =>
    cases dst with
    | v4 => cases sameFamily
    | v6 d =>
      cases l4 with
      | tcp flags =>
        obtain ⟨written, parsed⟩ := @parse_v6 (tcpHeader srcPort dstPort flags) payloadLen limit
          s d 6 rfl (Nat.le_refl 20)
        have length : (tcpHeader srcPort dstPort flags).length = 20 := rfl
        rw [parseL4_tcp, length] at parsed
        refine parsed.trans ?_
        by_cases fits : payloadLen.toNat < 2 ^ 32 - 20
        · have total : 40 + payloadLen6 20 payloadLen = min (40 + 20 + payloadLen.toNat) 65575 := by
            unfold payloadLen6
            omega
          rw [if_neg (by omega), if_neg (by omega), total]
          exact (if_pos fits).symm
        · have total : payloadLen6 20 payloadLen < 20 := by
            unfold payloadLen6
            omega
          rw [if_pos total]
          refine Eq.trans ?_ (if_neg fits).symm
          split <;> rfl
      | udp =>
        obtain ⟨written, parsed⟩ := @parse_v6 (udpHeader srcPort dstPort payloadLen.toUInt16)
          payloadLen limit s d 17 rfl (Nat.le_add_right 8 12)
        have length : (udpHeader srcPort dstPort payloadLen.toUInt16).length = 8 := rfl
        rw [parseL4_udp, length, udpLen_toNat] at parsed
        refine parsed.trans ?_
        by_cases fits : payloadLen.toNat % 2 ^ 16 ≤ 65527
        · have total : 40 + payloadLen6 8 payloadLen = min (40 + 8 + payloadLen.toNat) 65575 := by
            unfold payloadLen6
            omega
          have room : payloadLen6 8 payloadLen = min (8 + payloadLen.toNat) 65535 := by
            unfold payloadLen6
            omega
          rw [if_neg (by omega), if_neg (by omega), total]
          exact (if_pos fits).symm
        · rw [if_pos (by omega : payloadLen6 8 payloadLen < 8 ∨ _ < 8 ∨ _ > payloadLen6 8 payloadLen)]
          refine Eq.trans ?_ (if_neg fits).symm
          split <;> rfl

end Call

/-! ## Whole traces -/

/-- The file header of the writer. -/
def writerHeader : FileHeader where
  swapped := false
  nanos := true
  between := leBytes 2 2 ++ leBytes 2 4 ++ toLeBytes 0 ++ toLeBytes 0 ++ toLeBytes 65535
  linktype := linktype.ethernet
  sized := rfl

namespace Call

theorem seconds_small (call : Call) :
    (call.tsNanos / 1000000000).toUInt32.toNat = call.tsNanos.toNat / 1000000000 := by
  have inSeconds := call.inSeconds
  rw [UInt64.toNat_toUInt32, UInt64.toNat_div, Nat.mod_eq_of_lt]
  · rfl
  · show call.tsNanos.toNat / 1000000000 < 2 ^ 32
    omega

theorem nanos_small (call : Call) :
    (call.tsNanos % 1000000000).toUInt32.toNat = call.tsNanos.toNat % 1000000000 := by
  rw [UInt64.toNat_toUInt32, UInt64.toNat_mod, Nat.mod_eq_of_lt]
  · rfl
  · show call.tsNanos.toNat % 1000000000 < 2 ^ 32
    omega

/-- The record of a call. -/
def record (limit : Nat) (call : Call) : Record writerHeader where
  tsSec := (call.tsNanos / 1000000000).toUInt32
  tsSubsec := (call.tsNanos % 1000000000).toUInt32
  originalLen := call.originalLen
  captured := call.frame limit
  bounded := (buildFrame_length call.sameFamily _ (call.l4Header_length ▸ call.l4Len_le)).2
  covered := (buildFrame_length call.sameFamily _ (call.l4Header_length ▸ call.l4Len_le)).1
  inRange := by
    rw [nanos_small]
    show call.tsNanos.toNat % 1000000000 * 1 < 1000000000
    omega

theorem record_tsNanos (limit : Nat) (call : Call) :
    (call.record limit).packet.tsNanos = call.tsNanos := by
  show UInt64.ofNat ((call.tsNanos / 1000000000).toUInt32.toNat * 1000000000 +
    (call.tsNanos % 1000000000).toUInt32.toNat * 1) = call.tsNanos
  rw [seconds_small, nanos_small, Nat.mul_one, Nat.mul_comm, Nat.div_add_mod]
  exact UInt64.ofNat_toNat

theorem ipLen_bounds (call : Call) : 0 < call.ipLen ∧ call.ipLen < 2 ^ 32 := by
  unfold ipLen
  split <;> omega

theorem stamped_event (limit : Nat) (call : Call) :
    stamped (call.record limit).packet { call.event with tsNanos := 0 } = call.event := by
  have bounds := call.ipLen_bounds
  have counted : ¬UInt32.ofNat call.ipLen = 0 := by
    intro zero
    have same := congrArg UInt32.toNat zero
    rw [UInt32.toNat_ofNat_of_lt' bounds.2] at same
    exact absurd same (by have := bounds.1; show ¬call.ipLen = 0; omega)
  rw [stamped, record_tsNanos, event]
  simp only [counted, if_false]

end Call

theorem write_record (w : PcapWriter) (call : Call) :
    (w.write call).writer = w.writer ++ (call.record w.maxWrittenPayload).bytes ∧
      (w.write call).maxWrittenPayload = w.maxWrittenPayload := by
  obtain ⟨tsNanos, src, dst, srcPort, dstPort, l4, payloadLen, sameFamily, inSeconds⟩ := call
  cases l4 <;> refine ⟨?_, rfl⟩ <;>
    simp only [PcapWriter.write, PcapWriter.writeTcpPacket, PcapWriter.writeUdpPacket,
      PcapWriter.writeRecord, Record.bytes, Record.fixed, Call.record, wordBytes, writerHeader,
      Call.frame, Call.originalLen, Call.protocol, Call.l4Header, List.append_assoc,
      Bool.false_eq_true, if_false]

theorem written_stream (calls : List Call) (w : PcapWriter) :
    (calls.foldl PcapWriter.write w).writer =
      w.writer ++ stream (calls.map (Call.record w.maxWrittenPayload)) := by
  induction calls generalizing w with
  | nil => rw [List.foldl_nil, List.map_nil, stream, List.flatMap_nil, List.append_nil]
  | cons call later ih =>
    obtain ⟨appended, kept⟩ := write_record w call
    rw [List.foldl_cons, ih, appended, kept, List.map_cons, stream_cons, List.append_assoc]

theorem withPayloadLimit_header (limit : Nat) :
    (PcapWriter.withPayloadLimit [] limit).writer = writerHeader.bytes := by
  simp [PcapWriter.withPayloadLimit, FileHeader.bytes, writerHeader, wordBytes, FileHeader.magic]

theorem stream_length_ge {header : FileHeader} (records : List (Record header)) :
    records.length ≤ (stream records).length := by
  induction records with
  | nil => exact Nat.zero_le _
  | cons record later ih =>
    rw [stream_cons, List.length_append, record.bytes_length, List.length_cons, Record.size]
    omega

/-- A call of the reader passes over the calls of the writer that do not fit. -/
theorem nextEventWithin_stream {limit : Nat} {calls : List Call} {rounds : Nat} {r : PcapReader}
    (enough : calls.length < rounds)
    (opened : r.Opened writerHeader (stream (calls.map (Call.record limit)))) :
    (calls.filter Call.Fits = [] ∧ ∃ r', r.nextEventWithin rounds = some (.ok none, r')) ∨
      ∃ (call : Call) (later : List Call) (r' : PcapReader),
        calls.filter Call.Fits = call :: later.filter Call.Fits ∧ later.length < calls.length ∧
        r.nextEventWithin rounds = some (.ok (some call.event), r') ∧
        r'.Opened writerHeader (stream (later.map (Call.record limit))) := by
  induction calls generalizing rounds r with
  | nil =>
    obtain ⟨rounds, rfl⟩ : ∃ more, rounds = more + 1 := ⟨rounds - 1, by simp at enough; omega⟩
    have short : r.reader.length < 16 := by
      rw [opened.reader]
      simp [stream]
    refine .inl ⟨rfl, { r with reader := [] }, ?_⟩
    rw [PcapReader.nextEventWithin, nextPacket_short short]
  | cons call later ih =>
    obtain ⟨rounds, rfl⟩ : ∃ more, rounds = more + 1 := ⟨rounds - 1, by simp at enough; omega⟩
    rw [List.map_cons, stream_cons] at opened
    have parsed : parsePacketWithWireLen r.linktype (call.record limit).packet.captured
        (call.record limit).packet.originalLen =
          if call.Fits then some { call.event with tsNanos := 0 } else none := by
      rw [opened.linktype]
      exact call.frame_parsed limit
    have next : PcapReader.Opened writerHeader (stream (later.map (Call.record limit)))
        { r with reader := stream (later.map (Call.record limit)), packetsRead := r.packetsRead + 1 } :=
      ⟨rfl, opened.swapped, opened.subsecToNanos, opened.linktype⟩
    rw [PcapReader.nextEventWithin, nextPacket_whole (call.record limit) opened]
    simp only [parsed]
    by_cases fits : call.Fits
    · refine .inr ⟨call, later, _, ?_, Nat.lt_succ_self _, ?_, next⟩
      · rw [List.filter_cons_of_pos (by simpa using fits)]
      · simp only [if_pos fits, Call.stamped_event]
    · simp only [if_neg fits]
      rw [List.filter_cons_of_neg (by simpa using fits)]
      rcases ih (Nat.lt_of_succ_lt_succ enough) next with
        ⟨none, ended⟩ | ⟨found, rest, r', same, fewer, read, kept⟩
      · exact .inl ⟨none, ended⟩
      · exact .inr ⟨found, rest, r', same, Nat.lt_succ_of_lt fewer, read, kept⟩

/-- What is read back are the calls that fit, in order, and then the end of the file. -/
theorem readEvents_stream {limit n : Nat} {calls : List Call} {r : PcapReader}
    (enough : calls.length < n)
    (opened : r.Opened writerHeader (stream (calls.map (Call.record limit)))) :
    r.readEvents n = some ((calls.filter Call.Fits).map Call.event, .ok ()) := by
  induction n generalizing calls r with
  | zero => exact absurd enough (Nat.not_lt_zero _)
  | succ n ih =>
    have rounds : calls.length < r.reader.length + 1 := by
      have longer := stream_length_ge (calls.map (Call.record limit))
      rw [List.length_map] at longer
      rw [opened.reader]
      omega
    rw [PcapReader.readEvents, PcapReader.nextEvent]
    rcases nextEventWithin_stream rounds opened with
      ⟨none, r', ended⟩ | ⟨call, later, r', same, fewer, read, kept⟩
    · simp only [ended, none]
      rfl
    · simp only [read, same, ih (by omega) kept]
      rfl

/-- Open a file and read its events until the reader stops, in at most `calls` calls. -/
def readTrace (calls : Nat) (file : Bytes) :
    Except PcapError (Option (List FlowEvent × Except PcapError Unit)) :=
  (PcapReader.new file).map (PcapReader.readEvents calls)

theorem readTrace_written (limit : Nat) (calls : List Call) {n : Nat} (enough : calls.length < n) :
    readTrace n (calls.foldl PcapWriter.write (PcapWriter.withPayloadLimit [] limit)).writer =
      .ok (some ((calls.filter Call.Fits).map Call.event, .ok ())) := by
  obtain ⟨r, fresh, opened⟩ := new_opened writerHeader (stream (calls.map (Call.record limit)))
  have file : (calls.foldl PcapWriter.write (PcapWriter.withPayloadLimit [] limit)).writer =
      writerHeader.bytes ++ stream (calls.map (Call.record limit)) := by
    rw [written_stream, withPayloadLimit_header]
    rfl
  rw [readTrace, file, fresh]
  simp only [Except.map, readEvents_stream enough opened]

/-- Reading what a sequence of calls has written gives back one event per call, in order, and then the
end of the file, if and only if the lengths of every call fit. -/
theorem written_read_iff (limit : Nat) (calls : List Call) {n : Nat} (enough : calls.length < n) :
    readTrace n (calls.foldl PcapWriter.write (PcapWriter.withPayloadLimit [] limit)).writer =
        .ok (some (calls.map Call.event, .ok ())) ↔
      ∀ call ∈ calls, call.Fits := by
  rw [readTrace_written limit calls enough]
  simp only [Except.ok.injEq, Option.some.injEq, Prod.mk.injEq, and_true]
  constructor
  · intro same
    have lengths := congrArg List.length same
    rw [List.length_map, List.length_map, List.length_filter_eq_length_iff] at lengths
    simpa using lengths
  · intro all
    rw [List.filter_eq_self.mpr (by simpa using all)]

/-- A datagram with `payloadLen` octets of payload, from port 53 to port 80. -/
def datagramCall (payloadLen : UInt32) : Call where
  tsNanos := 1700000000000000001
  src := .v4 10 0 1 11
  dst := .v4 10 0 2 51
  srcPort := 53
  dstPort := 80
  l4 := .udp
  payloadLen
  sameFamily := rfl
  inSeconds := by decide

theorem datagrams_read :
    readTrace 3 ([datagramCall 300, datagramCall 65507].foldl PcapWriter.write
        (PcapWriter.new [])).writer =
      .ok (some ([(datagramCall 300).event, (datagramCall 65507).event], .ok ())) :=
  (written_read_iff PcapWriter.compactPayloadLimit [datagramCall 300, datagramCall 65507]
    (by decide)).mpr (by decide)

/-- One octet more than the longest datagram carries, and the reader passes over the packet. -/
theorem long_datagram_lost :
    ¬∀ (limit : Nat) (calls : List Call) (n : Nat), calls.length < n →
      readTrace n (calls.foldl PcapWriter.write (PcapWriter.withPayloadLimit [] limit)).writer =
        .ok (some (calls.map Call.event, .ok ())) := by
  intro all
  have claimed := all PcapWriter.compactPayloadLimit [datagramCall 65508] 2 (by decide)
  rw [readTrace_written _ _ (by decide)] at claimed
  have skipped : [datagramCall 65508].filter Call.Fits = [] := by decide
  rw [skipped] at claimed
  exact absurd claimed (by simp)

end FlowSketch.Source.Pcap
