import FlowSketch.Lib.Octets

/-!
# Flow events and their fields

`crates/flowsketch-core/src/{event,field}.rs`. The display encoding of a field is also its key
encoding. `Ipv6Text` is the standard library's `Display` of an IPv6 address, with the parts of its
documented behaviour the keys rely on; everything else is encoded by the crate itself.
-/

namespace FlowSketch.Source.Core
open Lib.Octets

inductive Direction where
  | ingress
  | egress
  | unknown
  deriving DecidableEq, Repr

inductive IpAddr where
  | v4 (a b c d : UInt8)
  | v6 (address : BitVec 128)
  deriving DecidableEq, Repr

/-- `node_id`, `tcp_flags` and the rest are carried because queries group by them; the three
optional Kubernetes identifiers are read by no query. -/
structure FlowEvent where
  tsNanos : UInt64
  srcIp : IpAddr
  dstIp : IpAddr
  srcPort : UInt16
  dstPort : UInt16
  protocol : UInt8
  bytes : UInt32
  packets : UInt32
  direction : Direction
  tcpFlags : UInt8
  interfaceIndex : UInt32
  nodeId : UInt64
  deriving DecidableEq, Repr

instance : Inhabited FlowEvent where
  default := { tsNanos := 0, srcIp := .v4 0 0 0 0, dstIp := .v4 0 0 0 0, srcPort := 0, dstPort := 0,
               protocol := 0, bytes := 0, packets := 1, direction := .unknown, tcpFlags := 0,
               interfaceIndex := 0, nodeId := 0 }

def FlowEvent.ts (event : FlowEvent) : Nat := event.tsNanos.toNat

theorem FlowEvent.ts_lt (event : FlowEvent) : event.ts < 2 ^ 64 := event.tsNanos.toNat_lt

/-- An event at `ts`, the rest immaterial. -/
def FlowEvent.at (ts : UInt64) : FlowEvent := { (default : FlowEvent) with tsNanos := ts }

inductive Field where
  | srcIp
  | dstIp
  | srcPort
  | dstPort
  | protocol
  | tcpFlags
  | direction
  | bytes
  | packets
  | interfaceIndex
  | nodeId
  deriving DecidableEq, Repr

def Field.name : Field → String
  | srcIp => "src.ip"
  | dstIp => "dst.ip"
  | srcPort => "src.port"
  | dstPort => "dst.port"
  | protocol => "protocol"
  | tcpFlags => "tcp.flags"
  | direction => "direction"
  | bytes => "bytes"
  | packets => "packets"
  | interfaceIndex => "interface.index"
  | nodeId => "node.id"

/-- The longest key encoding of a value. -/
def Field.maxEncodedLen : Field → Nat
  | srcIp | dstIp => 39
  | srcPort | dstPort => 5
  | protocol => 6
  | tcpFlags => 3
  | direction => 7
  | bytes | packets | interfaceIndex => 10
  | nodeId => 20

/-- Extract this field as a numeric measure value. -/
def Field.extractValue (field : Field) (e : FlowEvent) : Nat :=
  match field with
  | bytes => e.bytes.toNat
  | packets => e.packets.toNat
  | srcPort => e.srcPort.toNat
  | dstPort => e.dstPort.toNat
  | protocol => e.protocol.toNat
  | tcpFlags => e.tcpFlags.toNat
  | interfaceIndex => e.interfaceIndex.toNat
  | nodeId => e.nodeId.toNat
  | srcIp | dstIp | direction => 0

/-! ## Key encoding -/

/-- `Display` of an IPv6 address: colon-separated hexadecimal groups, a dotted tail for embedded IPv4
addresses, one text per address. -/
structure Ipv6Text where
  text : BitVec 128 → Bytes
  injective : Function.Injective text
  charset : ∀ address, ∀ octet ∈ text address,
    (0x30 ≤ octet ∧ octet ≤ 0x3A) ∨ (0x61 ≤ octet ∧ octet ≤ 0x66) ∨ octet = 0x2E
  colon : ∀ address, (0x3A : UInt8) ∈ text address

/-- Hexadecimal digit `n` of an address, counted from the right. -/
def hexDigit (address : BitVec 128) (n : Nat) : UInt8 :=
  let digit := address.toNat / 16 ^ n % 16
  UInt8.ofNat (if digit < 10 then 0x30 + digit else 0x57 + digit)

/-- Eight groups of four digits, the form of an address in which nothing can be shortened. -/
def expandedText (address : BitVec 128) : Bytes :=
  (List.range 39).map (fun i =>
    if i % 5 = 4 then 0x3A else hexDigit address (31 - (i / 5 * 4 + i % 5)))

theorem hexDigit_charset (address : BitVec 128) (n : Nat) :
    (0x30 ≤ hexDigit address n ∧ hexDigit address n ≤ 0x3A) ∨
      (0x61 ≤ hexDigit address n ∧ hexDigit address n ≤ 0x66) := by
  have cases : ∀ digit < 16, (0x30 ≤ UInt8.ofNat (if digit < 10 then 0x30 + digit else 0x57 + digit) ∧
      UInt8.ofNat (if digit < 10 then 0x30 + digit else 0x57 + digit) ≤ 0x3A) ∨
      (0x61 ≤ UInt8.ofNat (if digit < 10 then 0x30 + digit else 0x57 + digit) ∧
      UInt8.ofNat (if digit < 10 then 0x30 + digit else 0x57 + digit) ≤ 0x66) := by decide
  exact cases _ (Nat.mod_lt _ (by decide))

theorem hexDigit_inj {a b : BitVec 128} {n : Nat} (same : hexDigit a n = hexDigit b n) :
    a.toNat / 16 ^ n % 16 = b.toNat / 16 ^ n % 16 := by
  have cases : ∀ x < 16, ∀ y < 16,
      UInt8.ofNat (if x < 10 then 0x30 + x else 0x57 + x) =
        UInt8.ofNat (if y < 10 then 0x30 + y else 0x57 + y) → x = y := by decide
  exact cases _ (Nat.mod_lt _ (by decide)) _ (Nat.mod_lt _ (by decide)) same

theorem expandedText_injective : Function.Injective expandedText := by
  intro a b same
  have digits : ∀ n < 32, a.toNat / 16 ^ n % 16 = b.toNat / 16 ^ n % 16 := by
    intro n inside
    have entries := List.map_inj_left.mp same ((31 - n) / 4 * 5 + (31 - n) % 4)
      (List.mem_range.mpr (by omega))
    have group : ((31 - n) / 4 * 5 + (31 - n) % 4) / 5 = (31 - n) / 4 := by omega
    have place : ((31 - n) / 4 * 5 + (31 - n) % 4) % 5 = (31 - n) % 4 := by omega
    have back : 31 - ((31 - n) / 4 * 4 + (31 - n) % 4) = n := by omega
    rw [group, place, if_neg (by omega), if_neg (by omega), back] at entries
    exact hexDigit_inj entries
  have agree : ∀ k ≤ 32, a.toNat % 16 ^ k = b.toNat % 16 ^ k := by
    intro k
    induction k with
    | zero => simp [Nat.mod_one]
    | succ k ih =>
      intro inside
      rw [Nat.mod_pow_succ, Nat.mod_pow_succ, ih (by omega), digits k (by omega)]
  have whole := agree 32 (Nat.le_refl 32)
  have wordA : a.toNat < 16 ^ 32 := a.isLt
  have wordB : b.toNat < 16 ^ 32 := b.isLt
  rw [Nat.mod_eq_of_lt wordA, Nat.mod_eq_of_lt wordB] at whole
  exact BitVec.eq_of_toNat_eq whole

def Ipv6Text.expanded : Ipv6Text where
  text := expandedText
  injective := expandedText_injective
  charset address octet member := by
    obtain ⟨i, _, rfl⟩ := List.mem_map.mp member
    split
    · exact Or.inl (by decide)
    · rcases hexDigit_charset address (31 - (i / 5 * 4 + i % 5)) with low | high
      · exact Or.inl low
      · exact Or.inr (Or.inl high)
  colon address := List.mem_map.mpr ⟨4, by decide, rfl⟩

/-- The digit loop of `append_decimal`, most significant digit first. Twenty rounds are the length
of its buffer. -/
def decimalLoop : Nat → Nat → Bytes → Bytes
  | 0, _, buf => buf
  | rounds + 1, value, buf =>
    if value = 0 then buf
    else decimalLoop rounds (value / 10) (UInt8.ofNat (0x30 + value % 10) :: buf)

def appendDecimal (value : Nat) : Bytes :=
  if value = 0 then [0x30] else decimalLoop 20 value []

def appendIpv4 (a b c d : UInt8) : Bytes :=
  [0x2E].intercalate [appendDecimal a.toNat, appendDecimal b.toNat, appendDecimal c.toNat,
    appendDecimal d.toNat]

def appendIp (display : Ipv6Text) : IpAddr → Bytes
  | .v4 a b c d => appendIpv4 a b c d
  | .v6 address => display.text address

def ascii (s : String) : Bytes := s.toList.map (fun c => UInt8.ofNat c.toNat)

def Direction.name : Direction → String
  | ingress => "ingress"
  | egress => "egress"
  | unknown => "unknown"

def appendProtocol (protocol : UInt8) : Bytes :=
  if protocol = 1 then ascii "icmp"
  else if protocol = 6 then ascii "tcp"
  else if protocol = 17 then ascii "udp"
  else if protocol = 58 then ascii "icmpv6"
  else appendDecimal protocol.toNat

def fieldValue (display : Ipv6Text) (field : Field) (event : FlowEvent) : Bytes :=
  match field with
  | .srcIp => appendIp display event.srcIp
  | .dstIp => appendIp display event.dstIp
  | .srcPort => appendDecimal event.srcPort.toNat
  | .dstPort => appendDecimal event.dstPort.toNat
  | .protocol => appendProtocol event.protocol
  | .tcpFlags => appendDecimal event.tcpFlags.toNat
  | .direction => ascii event.direction.name
  | .bytes => appendDecimal event.bytes.toNat
  | .packets => appendDecimal event.packets.toNat
  | .interfaceIndex => appendDecimal event.interfaceIndex.toNat
  | .nodeId => appendDecimal event.nodeId.toNat

def groupKeySep : UInt8 := 0x1F

/-- `group_key_into`: the buffer is cleared first, so only the encoding remains in it. -/
def groupKey (display : Ipv6Text) (fields : List Field) (event : FlowEvent) : Bytes :=
  [groupKeySep].intercalate (fields.map (fun field => fieldValue display field event))

end FlowSketch.Source.Core
