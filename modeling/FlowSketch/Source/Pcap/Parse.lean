import FlowSketch.Source.Core.Event

/-!
# Packet headers

`crates/flowsketch-pcap/src/parse.rs`: link, network and transport headers of a captured packet, as far
as a flow event needs them. Every index is behind a check of the captured length, so `data[i]` is total
here. Offsets stay below `2 ^ 17`, so the checked additions of the source never fail.
-/

namespace FlowSketch.Source.Pcap
open Lib.Octets Source.Core

namespace linktype
def ethernet : UInt32 := 1
def rawIp : UInt32 := 101
def linuxSll : UInt32 := 113
end linktype

def ethertypeIpv4 : UInt16 := 0x0800
def ethertypeIpv6 : UInt16 := 0x86DD
def ethertypeVlan : UInt16 := 0x8100
def ethertypeQinq : UInt16 := 0x88A8

/-- `data[i]`. -/
def octet (data : Bytes) (i : Nat) : UInt8 := data.getD i 0

/-- `u16::from_be_bytes([data[i], data[i + 1]])`. -/
def be16 (data : Bytes) (i : Nat) : UInt16 :=
  (octet data i).toUInt16 <<< 8 ||| (octet data (i + 1)).toUInt16

/-- `data[start..stop]`. -/
def slice (data : Bytes) (start stop : Nat) : Bytes := (data.take stop).drop start

structure L4Info where
  srcPort : UInt16 := 0
  dstPort : UInt16 := 0
  tcpFlags : UInt8 := 0
  deriving DecidableEq, Repr

def parseL4 (protocol : UInt8) (data : Bytes) (wireLen : Nat) : Option L4Info :=
  if protocol = 6 then
    if data.length < 14 then none
    else
      let headerLen := (octet data 12 >>> 4).toNat * 4
      if headerLen < 20 ∨ headerLen > wireLen ∨ headerLen > data.length then none
      else some { srcPort := be16 data 0, dstPort := be16 data 2, tcpFlags := octet data 13 }
  else if protocol = 17 then
    if data.length < 8 then none
    else
      let udpLen := (be16 data 4).toNat
      if udpLen < 8 ∨ udpLen > wireLen then none
      else some { srcPort := be16 data 0, dstPort := be16 data 2 }
  else some {}

/-- The event of a packet of `len` bytes. -/
def flowEvent (srcIp dstIp : IpAddr) (protocol : UInt8) (l4 : L4Info) (len : Nat) : FlowEvent :=
  { (default : FlowEvent) with
    srcIp, dstIp, srcPort := l4.srcPort, dstPort := l4.dstPort, protocol, tcpFlags := l4.tcpFlags
    bytes := UInt32.ofNat len, packets := 1 }

def ipv4Address (data : Bytes) (i : Nat) : IpAddr :=
  .v4 (octet data i) (octet data (i + 1)) (octet data (i + 2)) (octet data (i + 3))

def parseIpv4 (data : Bytes) (wireLen : Nat) : Option FlowEvent :=
  if data.length < 20 ∨ octet data 0 >>> 4 ≠ 4 then none
  else
    let ihl := (octet data 0 &&& 0x0F).toNat * 4
    if ihl < 20 ∨ data.length < ihl then none
    else
      let totalLen := (be16 data 2).toNat
      if totalLen < ihl ∨ totalLen > wireLen then none
      else
        let protocol := octet data 9
        let l4 :=
          if be16 data 6 &&& 0x1FFF = 0 then
            parseL4 protocol (slice data ihl (min totalLen data.length)) (totalLen - ihl)
          else some {} -- non-first fragment: no L4 header present
        l4.map (fun l4 => flowEvent (ipv4Address data 12) (ipv4Address data 16) protocol l4 totalLen)

/-- The address in the sixteen octets from `i` on. -/
def ipv6Address (data : Bytes) (i : Nat) : IpAddr :=
  .v6 (BitVec.ofNat 128 ((slice data i (i + 16)).foldl (fun value o => value * 256 + o.toNat) 0))

/-- What the walk over the extension headers leaves. -/
structure Walked where
  nextHeader : UInt8
  l4 : L4Info := {}
  nonFirstFragment : Bool := false
  deriving DecidableEq, Repr

/-- The loop of `parse_ipv6`, with the rounds it has left. -/
def walkHeaders (data : Bytes) (packetLen : Nat) : Nat → UInt8 → Nat → Option Walked
  | 0, nextHeader, _ => some { nextHeader }
  | rounds + 1, nextHeader, offset =>
    if nextHeader = 0 ∨ nextHeader = 43 ∨ nextHeader = 51 ∨ nextHeader = 60 then
      if offset + 8 > packetLen ∨ offset + 8 > data.length then none
      else
        let len :=
          if nextHeader = 51 then ((octet data (offset + 1)).toNat + 2) * 4
          else 8 + (octet data (offset + 1)).toNat * 8
        if len < 8 ∨ offset + len > packetLen ∨ offset + len > data.length then none
        else walkHeaders data packetLen rounds (octet data offset) (offset + len)
    else if nextHeader = 44 then
      if offset + 8 > packetLen ∨ offset + 8 > data.length then none
      else if be16 data (offset + 2) >>> 3 ≠ 0 then
        some { nextHeader := octet data offset, nonFirstFragment := true }
      else walkHeaders data packetLen rounds (octet data offset) (offset + 8)
    else
      let capturedEnd := min packetLen data.length
      if offset > capturedEnd then none
      else
        (parseL4 nextHeader (slice data offset capturedEnd) (packetLen - offset)).map
          (fun l4 => { nextHeader, l4 })

def isExtension (header : UInt8) : Bool :=
  header = 0 ∨ header = 43 ∨ header = 44 ∨ header = 51 ∨ header = 60

def parseIpv6 (data : Bytes) (wireLen : Nat) : Option FlowEvent :=
  if data.length < 40 ∨ octet data 0 >>> 4 ≠ 6 then none
  else
    let payloadLen := (be16 data 4).toNat
    -- jumbograms are not supported
    if payloadLen = 0 then none
    else
      let packetLen := 40 + payloadLen
      if packetLen > wireLen then none
      else
        match walkHeaders data packetLen 6 (octet data 6) 40 with
        | none => none
        | some walked =>
          if isExtension walked.nextHeader ∧ ¬walked.nonFirstFragment then none
          else
            some (flowEvent (ipv6Address data 8) (ipv6Address data 24) walked.nextHeader walked.l4
              packetLen)

def parseL3 (ethertype : UInt16) (data : Bytes) (wireLen : Nat) : Option FlowEvent :=
  if ethertype = ethertypeIpv4 then parseIpv4 data wireLen
  else if ethertype = ethertypeIpv6 then parseIpv6 data wireLen
  else none

def parseIp (data : Bytes) (wireLen : Nat) : Option FlowEvent :=
  match data.head? with
  | none => none
  | some first =>
    if first >>> 4 = 4 then parseIpv4 data wireLen
    else if first >>> 4 = 6 then parseIpv6 data wireLen
    else none

/-- Unwrap VLAN tags, in the rounds that are left: the EtherType and the offset behind it. -/
def unwrapTags (data : Bytes) : Nat → UInt16 → Nat → Option (UInt16 × Nat)
  | 0, ethertype, offset => some (ethertype, offset)
  | rounds + 1, ethertype, offset =>
    if ethertype = ethertypeVlan ∨ ethertype = ethertypeQinq then
      if data.length < offset + 4 then none
      else unwrapTags data rounds (be16 data (offset + 2)) (offset + 4)
    else unwrapTags data rounds ethertype offset

def parseEthernet (data : Bytes) (wireLen : Nat) : Option FlowEvent :=
  if data.length < 14 then none
  else
    match unwrapTags data 2 (be16 data 12) 14 with
    | none => none
    | some (ethertype, offset) =>
      if wireLen < offset then none else parseL3 ethertype (data.drop offset) (wireLen - offset)

/-- Parse a possibly truncated capture of a packet of `wireLen` bytes. -/
def parsePacketWithWireLen (link : UInt32) (data : Bytes) (wireLen : UInt32) : Option FlowEvent :=
  let wireLen := wireLen.toNat
  if data.length > wireLen then none
  else if link = linktype.ethernet then parseEthernet data wireLen
  else if link = linktype.rawIp then parseIp data wireLen
  else if link = linktype.linuxSll then
    if data.length < 16 then none
    else if wireLen < 16 then none
    else parseL3 (be16 data 14) (data.drop 16) (wireLen - 16)
  else none

end FlowSketch.Source.Pcap
