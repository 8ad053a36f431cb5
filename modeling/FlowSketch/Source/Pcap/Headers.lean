import FlowSketch.Source.Pcap.Parse

/-!
# The real transport header

A reference walk over the headers of a frame, without bounds and without a captured length: the link
header, then the IPv4 header or the IPv6 header and its whole chain of extension headers. The parser
finds the same protocol and reads the same transport header, but for one chain length: after six
extension headers its loop ends before it has looked at the transport header.
-/

namespace FlowSketch.Source.Pcap
open Lib.Octets Source.Core

/-! ## The reference walk -/

def isTag (ethertype : UInt16) : Bool := ethertype = ethertypeVlan ∨ ethertype = ethertypeQinq

/-- The length of the link header, with at most two VLAN tags. -/
inductive LinkHeader (frame : Bytes) : UInt32 → Nat → Prop
  | ethernet {tags : Nat} (few : tags ≤ 2) (tagged : ∀ i < tags, isTag (be16 frame (12 + 4 * i)))
      (last : tags < 2 → ¬isTag (be16 frame (12 + 4 * tags))) :
      LinkHeader frame linktype.ethernet (14 + 4 * tags)
  | rawIp : LinkHeader frame linktype.rawIp 0
  | linuxSll : LinkHeader frame linktype.linuxSll 16

/-- The length of an extension header: fixed for fragments, in words of four octets for AH. -/
def extensionLength (packet : Bytes) (header : UInt8) (offset : Nat) : Nat :=
  if header = 44 then 8
  else if header = 51 then ((octet packet (offset + 1)).toNat + 2) * 4
  else 8 + (octet packet (offset + 1)).toNat * 8

/-- Where the headers of a packet end. -/
structure Transport where
  protocol : UInt8
  offset : Nat
  laterFragment : Bool

/-- A chain of extension headers, counted, from `header` at `offset` on. -/
inductive Chain (packet : Bytes) : Nat → UInt8 → Nat → Transport → Prop
  | transport {header : UInt8} {offset : Nat} (other : isExtension header = false) :
      Chain packet 0 header offset { protocol := header, offset, laterFragment := false }
  | later {offset : Nat} (moved : be16 packet (offset + 2) >>> 3 ≠ 0) :
      Chain packet 1 44 offset
        { protocol := octet packet offset, offset := offset + 8, laterFragment := true }
  | next {header : UInt8} {offset count : Nat} {found : Transport} (extends_ : isExtension header)
      (first : header = 44 → be16 packet (offset + 2) >>> 3 = 0)
      (rest : Chain packet count (octet packet offset)
        (offset + extensionLength packet header offset) found) :
      Chain packet (count + 1) header offset found

/-- The headers of an IP packet: how many extension headers, the transport header and the length the
packet declares. -/
inductive IpHeaders (packet : Bytes) : Nat → Transport → Nat → Prop
  | ipv4 (version : octet packet 0 >>> 4 = 4) :
      IpHeaders packet 0
        { protocol := octet packet 9, offset := (octet packet 0 &&& 0x0F).toNat * 4
          laterFragment := be16 packet 6 &&& 0x1FFF ≠ 0 } (be16 packet 2).toNat
  | ipv6 (version : octet packet 0 >>> 4 = 6) {count : Nat} {found : Transport}
      (chain : Chain packet count (octet packet 6) 40 found) :
      IpHeaders packet count found (40 + (be16 packet 4).toNat)

/-- A whole walk. -/
structure Walk where
  start : Nat
  extensions : Nat
  transport : Transport
  declared : Nat

structure Walks (link : UInt32) (frame : Bytes) (walk : Walk) : Prop where
  link : LinkHeader frame link walk.start
  ip : IpHeaders (frame.drop walk.start) walk.extensions walk.transport walk.declared

/-- A TCP or UDP header that is there. -/
def Transport.Present (found : Transport) : Prop :=
  (found.protocol = 6 ∨ found.protocol = 17) ∧ found.laterFragment = false

/-- The length of the transport header. -/
def Transport.length (packet : Bytes) (found : Transport) : Nat :=
  if found.protocol = 6 then max 20 ((octet packet (found.offset + 12) >>> 4).toNat * 4) else 8

/-- Ports and flags are those of the header, which lies inside the capture and the declared length. -/
structure Transport.ReadAs (packet : Bytes) (declared : Nat) (found : Transport) (src dst : UInt16)
    (flags : UInt8) : Prop where
  src : src = be16 packet found.offset
  dst : dst = be16 packet (found.offset + 2)
  flags : flags = if found.protocol = 6 then octet packet (found.offset + 13) else 0
  captured : found.offset + found.length packet ≤ packet.length
  declared : found.offset + found.length packet ≤ declared

/-- The event has the protocol at the end of the walk and the fields of the transport header. -/
structure Walk.Reads (walk : Walk) (frame : Bytes) (event : FlowEvent) : Prop where
  protocol : event.protocol = walk.transport.protocol
  fields : walk.transport.Present → walk.transport.ReadAs (frame.drop walk.start) walk.declared
    event.srcPort event.dstPort event.tcpFlags

/-! ## There is one walk -/

theorem Chain.unique {packet : Bytes} {count count' offset : Nat} {header : UInt8}
    {found found' : Transport} (chain : Chain packet count header offset found)
    (chain' : Chain packet count' header offset found') : count' = count ∧ found' = found := by
  induction chain generalizing count' found' with
  | transport other =>
    cases chain' with
    | transport => exact ⟨rfl, rfl⟩
    | later => cases other
    | next extends_ => exact absurd extends_ (by rw [other]; decide)
  | later moved =>
    cases chain' with
    | transport other => cases other
    | later => exact ⟨rfl, rfl⟩
    | next _ first => exact absurd (first rfl) moved
  | next extends_ first _ ih =>
    cases chain' with
    | transport other => exact absurd extends_ (by rw [other]; decide)
    | later moved => exact absurd (first rfl) moved
    | next _ _ rest =>
      obtain ⟨same, rfl⟩ := ih rest
      exact ⟨congrArg (· + 1) same, rfl⟩

theorem LinkHeader.unique {frame : Bytes} {link : UInt32} {start start' : Nat}
    (header : LinkHeader frame link start) (header' : LinkHeader frame link start') :
    start' = start := by
  cases header with
  | @ethernet tags few tagged last =>
    generalize kind : linktype.ethernet = link at header'
    cases header' with
    | @ethernet tags' few' tagged' last' =>
      rcases Nat.lt_trichotomy tags tags' with less | same | more
      · exact absurd (tagged' tags less) (last (by omega))
      · rw [same]
      · exact absurd (tagged tags' more) (last' (by omega))
    | rawIp => exact absurd kind (by decide)
    | linuxSll => exact absurd kind (by decide)
  | rawIp =>
    generalize kind : linktype.rawIp = link at header'
    cases header' with
    | ethernet => exact absurd kind (by decide)
    | rawIp => rfl
    | linuxSll => exact absurd kind (by decide)
  | linuxSll =>
    generalize kind : linktype.linuxSll = link at header'
    cases header' with
    | ethernet => exact absurd kind (by decide)
    | rawIp => exact absurd kind (by decide)
    | linuxSll => rfl

theorem IpHeaders.unique {packet : Bytes} {count count' declared declared' : Nat}
    {found found' : Transport} (ip : IpHeaders packet count found declared)
    (ip' : IpHeaders packet count' found' declared') :
    count' = count ∧ found' = found ∧ declared' = declared := by
  cases ip with
  | ipv4 version =>
    cases ip' with
    | ipv4 => exact ⟨rfl, rfl, rfl⟩
    | ipv6 version' => exact absurd (version.symm.trans version') (by decide)
  | ipv6 version chain =>
    cases ip' with
    | ipv4 version' => exact absurd (version.symm.trans version') (by decide)
    | ipv6 _ chain' =>
      obtain ⟨rfl, rfl⟩ := chain.unique chain'
      exact ⟨rfl, rfl, rfl⟩

theorem Walks.unique {link : UInt32} {frame : Bytes} {walk walk' : Walk} (walks : Walks link frame walk)
    (walks' : Walks link frame walk') : walk' = walk := by
  obtain ⟨start, extensions, transport, declared⟩ := walk
  obtain ⟨start', extensions', transport', declared'⟩ := walk'
  obtain rfl : start' = start := walks.link.unique walks'.link
  obtain ⟨same, same', same''⟩ := walks.ip.unique walks'.ip
  dsimp only at same same' same''
  rw [same, same', same'']

/-! ## The parser against the walk -/

section

variable {packet : Bytes}

theorem octet_slice {start stop i : Nat} (inside : start + i < stop) :
    octet (slice packet start stop) i = octet packet (start + i) := by
  rw [octet, octet, slice, List.getD_eq_getElem?_getD, List.getD_eq_getElem?_getD,
    List.getElem?_drop, List.getElem?_take_of_lt inside]

theorem be16_slice {start stop i : Nat} (inside : start + i + 1 < stop) :
    be16 (slice packet start stop) i = be16 packet (start + i) := by
  have second : octet (slice packet start stop) (i + 1) = octet packet (start + i + 1) :=
    octet_slice (by omega)
  rw [be16, be16, octet_slice (by omega), second]

theorem slice_length {start stop : Nat} (inside : stop ≤ packet.length) :
    (slice packet start stop).length = stop - start := by
  rw [slice, List.length_drop, List.length_take, Nat.min_eq_left inside]

/-- The fields of a header are read where it is, inside both lengths. -/
theorem parseL4_reads {found : Transport} {declared : Nat} {l4 : L4Info}
    (inside : found.offset ≤ min declared packet.length)
    (parsed : parseL4 found.protocol (slice packet found.offset (min declared packet.length))
      (declared - found.offset) = some l4) (present : found.Present) :
    found.ReadAs packet declared l4.srcPort l4.dstPort l4.tcpFlags := by
  have length : (slice packet found.offset (min declared packet.length)).length =
      min declared packet.length - found.offset := slice_length (Nat.min_le_right _ _)
  unfold parseL4 at parsed
  split at parsed
  next tcp =>
    split at parsed
    · cases parsed
    next enough =>
      rw [octet_slice (by omega), octet_slice (by omega), be16_slice (by omega),
        be16_slice (by omega)] at parsed
      dsimp only at parsed
      split at parsed
      · cases parsed
      next fits =>
        obtain rfl := Option.some.inj parsed
        have size : found.length packet = (octet packet (found.offset + 12) >>> 4).toNat * 4 := by
          rw [Transport.length, if_pos tcp]
          omega
        refine ⟨rfl, rfl, by rw [if_pos tcp], ?_, ?_⟩ <;> rw [size] <;> omega
  next notTcp =>
    have udp : found.protocol = 17 := present.1.resolve_left notTcp
    rw [if_pos udp] at parsed
    split at parsed
    · cases parsed
    next enough =>
      rw [be16_slice (by omega), be16_slice (by omega), be16_slice (by omega)] at parsed
      dsimp only at parsed
      split at parsed
      · cases parsed
      next fits =>
        obtain rfl := Option.some.inj parsed
        have size : found.length packet = 8 := by rw [Transport.length, if_neg notTcp]
        refine ⟨rfl, rfl, by rw [if_neg notTcp], ?_, ?_⟩ <;> rw [size] <;> omega

/-- What the loop left of a chain. -/
structure Followed (packet : Bytes) (declared rounds : Nat) (walked : Walked) (count : Nat)
    (found : Transport) : Prop where
  within : count ≤ rounds
  protocol : walked.nextHeader = found.protocol
  later : walked.nonFirstFragment = found.laterFragment
  fields : count < rounds → found.Present →
    found.ReadAs packet declared walked.l4.srcPort walked.l4.dstPort walked.l4.tcpFlags
  unread : count = rounds → walked.l4 = {}

/-- An extension header that takes a round and is followed by the rest of the chain. -/
theorem Followed.next {declared rounds count : Nat} {walked : Walked} {found : Transport}
    (followed : Followed packet declared rounds walked count found) :
    Followed packet declared (rounds + 1) walked (count + 1) found where
  within := Nat.succ_le_succ followed.within
  protocol := followed.protocol
  later := followed.later
  fields less := followed.fields (Nat.lt_of_succ_lt_succ less)
  unread same := followed.unread (Nat.succ.inj same)

theorem isExtension_iff {header : UInt8} :
    isExtension header = true ↔ header = 0 ∨ header = 43 ∨ header = 44 ∨ header = 51 ∨ header = 60 :=
  decide_eq_true_iff

/-- The loop follows the chain, if it was long enough to come to its end. -/
theorem walkHeaders_follows {declared rounds offset : Nat} {header : UInt8} {walked : Walked}
    (run : walkHeaders packet declared rounds header offset = some walked)
    (ended : ¬(isExtension walked.nextHeader ∧ ¬walked.nonFirstFragment)) :
    ∃ count found, Chain packet count header offset found ∧
      Followed packet declared rounds walked count found := by
  induction rounds generalizing header offset with
  | zero =>
    obtain rfl := Option.some.inj run
    have other : isExtension header = false := by
      simpa using ended
    exact ⟨0, _, .transport other, Nat.le_refl 0, rfl, rfl, fun less => absurd less (by omega),
      fun _ => rfl⟩
  | succ rounds ih =>
    rw [walkHeaders] at run
    split at run
    next options =>
      have unlike : header ≠ 44 := by
        rintro rfl
        revert options
        decide
      have size : (if header = 51 then ((octet packet (offset + 1)).toNat + 2) * 4
          else 8 + (octet packet (offset + 1)).toNat * 8) = extensionLength packet header offset := by
        rw [extensionLength, if_neg unlike]
      split at run
      · cases run
      next =>
        rw [size] at run
        dsimp only at run
        split at run
        · cases run
        next =>
          obtain ⟨count, found, chain, followed⟩ := ih run
          have extends_ : isExtension header = true := by
            rw [isExtension_iff]
            tauto
          exact ⟨count + 1, found, .next extends_ (fun fragment => absurd fragment unlike) chain,
            followed.next⟩
    next plain =>
      split at run
      next fragment =>
        subst fragment
        split at run
        · cases run
        next =>
          split at run
          next moved =>
            obtain rfl := Option.some.inj run
            exact ⟨1, _, .later moved, Nat.succ_le_succ (Nat.zero_le _), rfl, rfl,
              fun _ present => (nomatch present.2), fun _ => rfl⟩
          next unmoved =>
            obtain ⟨count, found, chain, followed⟩ := ih run
            exact ⟨count + 1, found,
              .next rfl (fun _ => Decidable.not_not.mp unmoved) chain, followed.next⟩
      next whole =>
        dsimp only at run
        split at run
        · cases run
        next inside =>
          obtain ⟨l4, parsed, rfl⟩ := Option.map_eq_some_iff.mp run
          have other : isExtension header = false := by
            rw [Bool.eq_false_iff, Ne, isExtension_iff]
            tauto
          exact ⟨0, _, .transport other, Nat.zero_le _, rfl, rfl,
            fun _ present => parseL4_reads (Nat.le_of_not_lt inside) parsed present,
            fun none => absurd none (by omega)⟩

/-- What an event says of the headers of its packet. -/
structure ReadOff (packet : Bytes) (count : Nat) (found : Transport) (declared : Nat)
    (event : FlowEvent) : Prop where
  protocol : event.protocol = found.protocol
  fields : count ≠ 6 → found.Present →
    found.ReadAs packet declared event.srcPort event.dstPort event.tcpFlags
  unread : count = 6 → event.srcPort = 0 ∧ event.dstPort = 0 ∧ event.tcpFlags = 0

theorem parseIpv4_readOff {wireLen : Nat} {event : FlowEvent}
    (parsed : parseIpv4 packet wireLen = some event) :
    ∃ count found declared, IpHeaders packet count found declared ∧
      ReadOff packet count found declared event := by
  unfold parseIpv4 at parsed
  split at parsed
  · cases parsed
  next start =>
    dsimp only at parsed
    split at parsed
    · cases parsed
    next header =>
      split at parsed
      · cases parsed
      next total =>
        obtain ⟨l4, transport, rfl⟩ := Option.map_eq_some_iff.mp parsed
        have version : octet packet 0 >>> 4 = 4 :=
          Decidable.not_not.mp fun other => start (.inr other)
        refine ⟨0, _, _, .ipv4 version, rfl, fun _ present => ?_, fun none => absurd none (by omega)⟩
        have first : be16 packet 6 &&& 0x1FFF = 0 := by simpa using present.2
        rw [if_pos first] at transport
        exact parseL4_reads (by dsimp only; omega) transport present

theorem parseIpv6_readOff {wireLen : Nat} {event : FlowEvent}
    (parsed : parseIpv6 packet wireLen = some event) :
    ∃ count found declared, IpHeaders packet count found declared ∧
      ReadOff packet count found declared event := by
  unfold parseIpv6 at parsed
  split at parsed
  · cases parsed
  next start =>
    have version : octet packet 0 >>> 4 = 6 :=
      Decidable.not_not.mp fun other => start (.inr other)
    dsimp only at parsed
    split at parsed
    · cases parsed
    · split at parsed
      · cases parsed
      · split at parsed
        · cases parsed
        next walked run =>
          split at parsed
          · cases parsed
          next ended =>
            obtain rfl := Option.some.inj parsed
            obtain ⟨count, found, chain, followed⟩ := walkHeaders_follows run ended
            refine ⟨count, found, _, .ipv6 version chain, followed.protocol, fun other =>
              followed.fields (Nat.lt_of_le_of_ne followed.within other), fun all => ?_⟩
            rw [flowEvent, followed.unread all]
            exact ⟨rfl, rfl, rfl⟩

theorem parseL3_readOff {ethertype : UInt16} {wireLen : Nat} {event : FlowEvent}
    (parsed : parseL3 ethertype packet wireLen = some event) :
    ∃ count found declared, IpHeaders packet count found declared ∧
      ReadOff packet count found declared event := by
  unfold parseL3 at parsed
  split at parsed
  · exact parseIpv4_readOff parsed
  · split at parsed
    · exact parseIpv6_readOff parsed
    · cases parsed

theorem parseIp_readOff {wireLen : Nat} {event : FlowEvent}
    (parsed : parseIp packet wireLen = some event) :
    ∃ count found declared, IpHeaders packet count found declared ∧
      ReadOff packet count found declared event := by
  unfold parseIp at parsed
  split at parsed
  · cases parsed
  · split at parsed
    · exact parseIpv4_readOff parsed
    · split at parsed
      · exact parseIpv6_readOff parsed
      · cases parsed

end

section

variable {frame : Bytes}

theorem unwrapTags_plain {rounds offset : Nat} {ethertype : UInt16} (plain : ¬isTag ethertype) :
    unwrapTags frame rounds ethertype offset = some (ethertype, offset) := by
  induction rounds with
  | zero => rfl
  | succ rounds ih => rw [unwrapTags, if_neg (fun tag => plain (decide_eq_true tag)), ih]

/-- The rounds that are left unwrap the tags that are there. -/
theorem unwrapTags_spec {rounds base offset : Nat} {ethertype : UInt16}
    (run : unwrapTags frame rounds (be16 frame base) (base + 2) = some (ethertype, offset)) :
    ∃ tags ≤ rounds, offset = base + 2 + 4 * tags ∧
      (∀ i < tags, isTag (be16 frame (base + 4 * i))) ∧
      (tags < rounds → ¬isTag (be16 frame (base + 4 * tags))) := by
  induction rounds generalizing base with
  | zero =>
    obtain ⟨-, rfl⟩ := Prod.mk.inj (Option.some.inj run)
    exact ⟨0, Nat.le_refl 0, rfl, fun i less => absurd less (by omega), fun less => absurd less (by omega)⟩
  | succ rounds ih =>
    by_cases tag : isTag (be16 frame base)
    case pos =>
      rw [unwrapTags, if_pos (of_decide_eq_true tag)] at run
      split at run
      · cases run
      next =>
        rw [show base + 2 + 2 = base + 4 from rfl, show base + 2 + 4 = base + 4 + 2 from rfl] at run
        obtain ⟨tags, few, rfl, tagged, last⟩ := ih run
        refine ⟨tags + 1, by omega, by omega, fun i less => ?_, fun less => ?_⟩
        · cases i with
          | zero => exact tag
          | succ i =>
            rw [show base + 4 * (i + 1) = base + 4 + 4 * i from by omega]
            exact tagged i (by omega)
        · rw [show base + 4 * (tags + 1) = base + 4 + 4 * tags from by omega]
          exact last (by omega)
    case neg =>
      rw [unwrapTags_plain tag] at run
      obtain ⟨-, rfl⟩ := Prod.mk.inj (Option.some.inj run)
      exact ⟨0, by omega, rfl, fun i less => absurd less (by omega), fun _ => tag⟩

/-- An event comes from a walk over the headers of its frame. -/
theorem parse_readOff {link wireLen : UInt32} {event : FlowEvent}
    (parsed : parsePacketWithWireLen link frame wireLen = some event) :
    ∃ walk, Walks link frame walk ∧
      ReadOff (frame.drop walk.start) walk.extensions walk.transport walk.declared event := by
  unfold parsePacketWithWireLen at parsed
  dsimp only at parsed
  split at parsed
  · cases parsed
  · split at parsed
    next ethernet =>
      subst ethernet
      unfold parseEthernet at parsed
      split at parsed
      · cases parsed
      · split at parsed
        · cases parsed
        next ethertype offset unwrapped =>
          obtain ⟨tags, few, rfl, tagged, last⟩ := unwrapTags_spec unwrapped
          split at parsed
          · cases parsed
          · obtain ⟨count, found, declared, ip, readOff⟩ := parseL3_readOff parsed
            exact ⟨⟨_, count, found, declared⟩, ⟨.ethernet few tagged last, ip⟩, readOff⟩
    next =>
      split at parsed
      next raw =>
        subst raw
        obtain ⟨count, found, declared, ip, readOff⟩ := parseIp_readOff parsed
        exact ⟨⟨0, count, found, declared⟩, ⟨.rawIp, ip⟩, readOff⟩
      next =>
        split at parsed
        next cooked =>
          subst cooked
          split at parsed
          · cases parsed
          · split at parsed
            · cases parsed
            · obtain ⟨count, found, declared, ip, readOff⟩ := parseL3_readOff parsed
              exact ⟨⟨16, count, found, declared⟩, ⟨.linuxSll, ip⟩, readOff⟩
        next => cases parsed

end

/-- The header lies inside both lengths and its ports and flags are zero. -/
def Transport.Blank (packet : Bytes) (declared : Nat) (found : Transport) : Prop :=
  found.ReadAs packet declared 0 0 0

/-- An event is that of the real transport header, unless six extension headers stand before it: then
ports and flags are zero, whatever the header holds. -/
theorem parse_reads_iff {link wireLen : UInt32} {frame : Bytes} {event : FlowEvent}
    (parsed : parsePacketWithWireLen link frame wireLen = some event) :
    (∃! walk, Walks link frame walk) ∧
      ∀ walk, Walks link frame walk →
        (walk.Reads frame event ↔
          (walk.extensions = 6 ∧ walk.transport.Present →
            walk.transport.Blank (frame.drop walk.start) walk.declared)) := by
  obtain ⟨walk, walks, readOff⟩ := parse_readOff parsed
  refine ⟨⟨walk, walks, fun other => walks.unique⟩, fun other others => ?_⟩
  obtain rfl := walks.unique others
  constructor
  · rintro reads ⟨six, present⟩
    obtain ⟨src, dst, flags⟩ := readOff.unread six
    have fields := reads.fields present
    rwa [src, dst, flags] at fields
  · intro blank
    refine ⟨readOff.protocol, fun present => ?_⟩
    by_cases six : other.extensions = 6
    · obtain ⟨src, dst, flags⟩ := readOff.unread six
      rw [src, dst, flags]
      exact blank ⟨six, present⟩
    · exact readOff.fields six present

/-- Two options headers before a UDP datagram from port 53 to port 80. -/
def datagram : Bytes :=
  [0x60, 0, 0, 0, 0, 24, 60, 64] ++ List.replicate 32 1 ++
    [60, 0, 0, 0, 0, 0, 0, 0, 17, 0, 0, 0, 0, 0, 0, 0] ++ [0, 53, 0, 80, 0, 8, 0, 0]

def datagramEvent : FlowEvent :=
  flowEvent (ipv6Address datagram 8) (ipv6Address datagram 24) 17 { srcPort := 53, dstPort := 80 } 64

def datagramWalk : Walk :=
  { start := 0, extensions := 2, transport := { protocol := 17, offset := 56, laterFragment := false }
    declared := 64 }

theorem datagram_walks : Walks linktype.rawIp datagram datagramWalk := by
  refine ⟨.rawIp, .ipv6 rfl ?_⟩
  refine .next rfl (fun fragment => absurd fragment (by decide)) ?_
  refine .next rfl (fun fragment => absurd fragment (by decide)) ?_
  exact .transport rfl

theorem datagram_reads :
    parsePacketWithWireLen linktype.rawIp datagram 64 = some datagramEvent ∧
      datagramWalk.Reads datagram datagramEvent := by
  have parsed : parsePacketWithWireLen linktype.rawIp datagram 64 = some datagramEvent := by decide
  exact ⟨parsed, ((parse_reads_iff parsed).2 datagramWalk datagram_walks).mpr
    fun six => absurd six.1 (by decide)⟩

/-- Six options headers before a TCP segment from port 80 to port 443. -/
def deepSegment : Bytes :=
  [0x60, 0, 0, 0, 0, 68, 60, 64] ++ List.replicate 32 1 ++
    (List.replicate 5 [60, 0, 0, 0, 0, 0, 0, 0]).flatten ++ [6, 0, 0, 0, 0, 0, 0, 0] ++
    [0, 80, 1, 187, 0, 0, 0, 0, 0, 0, 0, 0, 0x50, 0x12, 0, 0, 0, 0, 0, 0]

def deepEvent : FlowEvent :=
  flowEvent (ipv6Address deepSegment 8) (ipv6Address deepSegment 24) 6 {} 108

def deepWalk : Walk :=
  { start := 0, extensions := 6, transport := { protocol := 6, offset := 88, laterFragment := false }
    declared := 108 }

theorem deepSegment_unread :
    parsePacketWithWireLen linktype.rawIp deepSegment 108 = some deepEvent ∧
      Walks linktype.rawIp deepSegment deepWalk ∧ ¬deepWalk.Reads deepSegment deepEvent := by
  refine ⟨by decide, ⟨.rawIp, .ipv6 rfl ?_⟩, fun reads => ?_⟩
  · refine .next rfl (fun fragment => absurd fragment (by decide)) ?_
    refine .next rfl (fun fragment => absurd fragment (by decide)) ?_
    refine .next rfl (fun fragment => absurd fragment (by decide)) ?_
    refine .next rfl (fun fragment => absurd fragment (by decide)) ?_
    refine .next rfl (fun fragment => absurd fragment (by decide)) ?_
    refine .next rfl (fun fragment => absurd fragment (by decide)) ?_
    exact .transport rfl
  · exact absurd (reads.fields ⟨.inl rfl, rfl⟩).src (by decide)

end FlowSketch.Source.Pcap
