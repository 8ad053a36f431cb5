import FlowSketch.Source.Pcap.Parse

/-!
# Truncated captures

The parser compares header fields with the length on the wire, and reads only octets it has checked to
be captured. So what it makes of a prefix of a packet it makes of the whole packet, too.
-/

namespace FlowSketch.Source.Pcap
open Lib.Octets Source.Core

section

variable {short long : Bytes} (whole : short <+: long)

include whole

theorem octet_of_longer {i : Nat} (inside : i < short.length) : octet long i = octet short i := by
  obtain ⟨rest, rfl⟩ := whole
  exact List.getD_append _ _ _ _ inside

theorem be16_of_longer {i : Nat} (inside : i + 1 < short.length) : be16 long i = be16 short i := by
  rw [be16, be16, octet_of_longer whole (by omega), octet_of_longer whole inside]

theorem drop_of_longer (n : Nat) : short.drop n <+: long.drop n := by
  obtain ⟨rest, rfl⟩ := whole
  rw [List.drop_append]
  exact List.prefix_append _ _

theorem slice_of_longer (start stop : Nat) :
    slice short start (min stop short.length) <+: slice long start (min stop long.length) := by
  obtain ⟨rest, rfl⟩ := whole
  refine drop_of_longer ?_ start
  have cut : short.take (min stop short.length) = (short ++ rest).take (min stop short.length) := by
    rw [List.take_append_of_le_length (Nat.min_le_right _ _)]
  rw [cut]
  apply List.take_prefix_take_left
  rw [List.length_append]
  omega

/-- Octets of a slice that ends inside the capture do not move. -/
theorem slice_inside {start stop : Nat} (inside : stop ≤ short.length) :
    slice long start stop = slice short start stop := by
  obtain ⟨rest, rfl⟩ := whole
  rw [slice, slice, List.take_append_of_le_length inside]

theorem parseL4_of_longer {protocol : UInt8} {wireLen : Nat} {l4 : L4Info}
    (parsed : parseL4 protocol short wireLen = some l4) : parseL4 protocol long wireLen = some l4 := by
  have grown := whole.length_le
  unfold parseL4 at parsed ⊢
  split at parsed
  next tcp =>
    rw [if_pos tcp]
    split at parsed
    · cases parsed
    next enough =>
      rw [octet_of_longer whole (by omega), octet_of_longer whole (by omega),
        be16_of_longer whole (by omega), be16_of_longer whole (by omega), if_neg (by omega)]
      dsimp only at parsed ⊢
      split at parsed
      · cases parsed
      next fits =>
        rw [if_neg (by omega)]
        exact parsed
  next notTcp =>
    rw [if_neg notTcp]
    split at parsed
    next udp =>
      rw [if_pos udp]
      split at parsed
      · cases parsed
      next enough =>
        rw [be16_of_longer whole (by omega), be16_of_longer whole (by omega),
          be16_of_longer whole (by omega), if_neg (by omega)]
        exact parsed
    next notUdp =>
      rw [if_neg notUdp]
      exact parsed

/-- One round of the walk after the other. -/
theorem walkHeaders_of_longer {packetLen rounds : Nat} {nextHeader : UInt8} {offset : Nat}
    {walked : Walked} (reached : walkHeaders short packetLen rounds nextHeader offset = some walked) :
    walkHeaders long packetLen rounds nextHeader offset = some walked := by
  have grown := whole.length_le
  induction rounds generalizing nextHeader offset with
  | zero => exact reached
  | succ rounds ih =>
    rw [walkHeaders] at reached ⊢
    split at reached
    next extension =>
      rw [if_pos extension]
      split at reached
      · cases reached
      next fixed =>
        rw [octet_of_longer whole (by omega), octet_of_longer whole (by omega), if_neg (by omega)]
        dsimp only at reached ⊢
        generalize (if nextHeader = 51 then ((octet short (offset + 1)).toNat + 2) * 4
          else 8 + (octet short (offset + 1)).toNat * 8) = len at reached ⊢
        split at reached
        · cases reached
        next fits =>
          rw [if_neg (by omega)]
          exact ih reached
    next other =>
      rw [if_neg other]
      split at reached
      next fragment =>
        rw [if_pos fragment]
        split at reached
        · cases reached
        next fixed =>
          rw [octet_of_longer whole (by omega), be16_of_longer whole (by omega), if_neg (by omega)]
          split at reached
          next later =>
            rw [if_pos later]
            exact reached
          next first =>
            rw [if_neg first]
            exact ih reached
      next transport =>
        rw [if_neg transport]
        dsimp only at reached ⊢
        split at reached
        · cases reached
        next inside =>
          rw [if_neg (by omega)]
          obtain ⟨l4, parsed, rfl⟩ := Option.map_eq_some_iff.mp reached
          rw [parseL4_of_longer (slice_of_longer whole offset packetLen) parsed]
          rfl

theorem parseIpv4_of_longer {wireLen : Nat} {event : FlowEvent}
    (parsed : parseIpv4 short wireLen = some event) : parseIpv4 long wireLen = some event := by
  have grown := whole.length_le
  unfold parseIpv4 at parsed ⊢
  split at parsed
  · cases parsed
  next header =>
    have enough : 20 ≤ short.length := by omega
    have addresses : ∀ i ≤ 16, ipv4Address long i = ipv4Address short i := by
      intro i low
      simp only [ipv4Address]
      rw [octet_of_longer whole (by omega), octet_of_longer whole (by omega),
        octet_of_longer whole (by omega), octet_of_longer whole (by omega)]
    rw [octet_of_longer whole (by omega), octet_of_longer whole (by omega),
      be16_of_longer whole (by omega), be16_of_longer whole (by omega), addresses 12 (by omega),
      addresses 16 le_rfl, if_neg (not_or.mpr ⟨by omega, (not_or.mp header).2⟩)]
    dsimp only at parsed ⊢
    generalize (octet short 0 &&& 0x0F).toNat * 4 = ihl at parsed ⊢
    split at parsed
    · cases parsed
    next complete =>
      rw [if_neg (by omega)]
      split at parsed
      · cases parsed
      next sized =>
        rw [if_neg sized]
        split at parsed
        next unfragmented =>
          rw [if_pos unfragmented]
          obtain ⟨l4, transport, rfl⟩ := Option.map_eq_some_iff.mp parsed
          rw [parseL4_of_longer (slice_of_longer whole ihl _) transport]
          rfl
        next fragment =>
          rw [if_neg fragment]
          exact parsed

theorem parseIpv6_of_longer {wireLen : Nat} {event : FlowEvent}
    (parsed : parseIpv6 short wireLen = some event) : parseIpv6 long wireLen = some event := by
  have grown := whole.length_le
  unfold parseIpv6 at parsed ⊢
  split at parsed
  · cases parsed
  next header =>
    have enough : 40 ≤ short.length := by omega
    have addresses : ∀ i ≤ 24, ipv6Address long i = ipv6Address short i := by
      intro i low
      rw [ipv6Address, ipv6Address, slice_inside whole (by omega)]
    rw [octet_of_longer whole (by omega), octet_of_longer whole (by omega),
      be16_of_longer whole (by omega), addresses 8 (by omega), addresses 24 le_rfl,
      if_neg (not_or.mpr ⟨by omega, (not_or.mp header).2⟩)]
    dsimp only at parsed ⊢
    split at parsed
    · cases parsed
    next nonempty =>
      rw [if_neg nonempty]
      split at parsed
      · cases parsed
      next sized =>
        rw [if_neg sized]
        cases walk : walkHeaders short (40 + (be16 short 4).toNat) 6 (octet short 6) 40 with
        | none =>
          rw [walk] at parsed
          cases parsed
        | some walked =>
          rw [walk] at parsed
          rw [walkHeaders_of_longer whole walk]
          exact parsed

theorem parseL3_of_longer {ethertype : UInt16} {wireLen : Nat} {event : FlowEvent}
    (parsed : parseL3 ethertype short wireLen = some event) :
    parseL3 ethertype long wireLen = some event := by
  unfold parseL3 at parsed ⊢
  split at parsed
  next ipv4 =>
    rw [if_pos ipv4]
    exact parseIpv4_of_longer whole parsed
  next other =>
    rw [if_neg other]
    split at parsed
    next ipv6 =>
      rw [if_pos ipv6]
      exact parseIpv6_of_longer whole parsed
    · cases parsed

theorem parseIp_of_longer {wireLen : Nat} {event : FlowEvent}
    (parsed : parseIp short wireLen = some event) : parseIp long wireLen = some event := by
  unfold parseIp at parsed ⊢
  cases short with
  | nil => cases parsed
  | cons first rest =>
    obtain ⟨more, rfl⟩ := whole
    have extended : first :: rest <+: first :: rest ++ more := List.prefix_append _ _
    simp only [List.head?_cons, List.cons_append] at parsed ⊢
    split at parsed
    next four =>
      rw [if_pos four]
      exact parseIpv4_of_longer extended parsed
    next other =>
      rw [if_neg other]
      split at parsed
      next six =>
        rw [if_pos six]
        exact parseIpv6_of_longer extended parsed
      · cases parsed

theorem unwrapTags_of_longer {rounds : Nat} {ethertype : UInt16} {offset : Nat}
    {result : UInt16 × Nat} (unwrapped : unwrapTags short rounds ethertype offset = some result) :
    unwrapTags long rounds ethertype offset = some result := by
  have grown := whole.length_le
  induction rounds generalizing ethertype offset with
  | zero => exact unwrapped
  | succ rounds ih =>
    rw [unwrapTags] at unwrapped ⊢
    split at unwrapped
    next tagged =>
      rw [if_pos tagged]
      split at unwrapped
      · cases unwrapped
      next enough =>
        rw [be16_of_longer whole (by omega), if_neg (by omega)]
        exact ih unwrapped
    next plain =>
      rw [if_neg plain]
      exact ih unwrapped

theorem parseEthernet_of_longer {wireLen : Nat} {event : FlowEvent}
    (parsed : parseEthernet short wireLen = some event) : parseEthernet long wireLen = some event := by
  have grown := whole.length_le
  unfold parseEthernet at parsed ⊢
  split at parsed
  · cases parsed
  next enough =>
    rw [be16_of_longer whole (by omega), if_neg (by omega)]
    cases unwrapped : unwrapTags short 2 (be16 short 12) 14 with
    | none =>
      rw [unwrapped] at parsed
      cases parsed
    | some result =>
      rw [unwrapped] at parsed
      rw [unwrapTags_of_longer whole unwrapped]
      dsimp only at parsed ⊢
      split at parsed
      · cases parsed
      next fits =>
        rw [if_neg fits]
        exact parseL3_of_longer (drop_of_longer whole _) parsed

end

/-- A smaller snap length loses events but never alters one. -/
theorem truncation_keeps_event {link : UInt32} {short long : Bytes} {wireLen : UInt32}
    {event : FlowEvent} (whole : short <+: long) (complete : long.length ≤ wireLen.toNat)
    (parsed : parsePacketWithWireLen link short wireLen = some event) :
    parsePacketWithWireLen link long wireLen = some event := by
  have grown := whole.length_le
  unfold parsePacketWithWireLen at parsed ⊢
  dsimp only at parsed ⊢
  rw [if_neg (by omega)] at parsed ⊢
  split at parsed
  next ethernet =>
    rw [if_pos ethernet]
    exact parseEthernet_of_longer whole parsed
  next notEthernet =>
    rw [if_neg notEthernet]
    split at parsed
    next raw =>
      rw [if_pos raw]
      exact parseIp_of_longer whole parsed
    next notRaw =>
      rw [if_neg notRaw]
      split at parsed
      next cooked =>
        rw [if_pos cooked]
        split at parsed
        · cases parsed
        next enough =>
          rw [be16_of_longer whole (by omega), if_neg (by omega)]
          split at parsed
          · cases parsed
          next fits =>
            rw [if_neg fits]
            exact parseL3_of_longer (drop_of_longer whole _) parsed
      · cases parsed

/-- A TCP segment from port 80 to port 443 with four octets of payload. -/
def segment : Bytes :=
  [0x45, 0, 0, 44, 0, 0, 0, 0, 64, 6, 0, 0, 192, 168, 1, 2, 10, 0, 0, 9,
   0, 80, 1, 187, 0, 0, 0, 0, 0, 0, 0, 0, 0x50, 0x12, 0, 0, 0, 0, 0, 0, 1, 2, 3, 4]

def segmentEvent : FlowEvent :=
  flowEvent (.v4 192 168 1 2) (.v4 10 0 0 9) 6 { srcPort := 80, dstPort := 443, tcpFlags := 0x12 } 44

theorem segment_truncated :
    parsePacketWithWireLen linktype.rawIp (segment.take 40) 44 = some segmentEvent ∧
      parsePacketWithWireLen linktype.rawIp segment 44 = some segmentEvent :=
  ⟨by decide, truncation_keeps_event (List.take_prefix 40 segment) (by decide) (by decide)⟩

end FlowSketch.Source.Pcap
