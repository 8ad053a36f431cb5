import FlowSketch.Source.Gateway.Batch
import FlowSketch.Source.Planner.Budget
import FlowSketch.Source.Runtime.Estimates

/-!
# Group keys

`crates/flowsketch-core/src/field.rs` encodes the value of a field twice: `extract` gives the text a
reader sees, by way of `to_string`, and `field_value_into` writes the octets of a key with a decimal
loop and an IPv4 printer of its own. Both give the same octets. They are free of the separator, so a
key splits back into the texts, and two keys are equal exactly when the values are. `lossy` is
`String::from_utf8_lossy`, which reads back valid UTF-8.
-/

namespace FlowSketch.Source.Core
open Lib.Octets Gateway

/-! ## Values as text -/

/-- `protocol::name`. -/
def protocolName (proto : UInt8) : String :=
  if proto = 1 then "icmp"
  else if proto = 6 then "tcp"
  else if proto = 17 then "udp"
  else if proto = 58 then "icmpv6"
  else toString proto.toNat

/-- The text of ASCII octets. -/
def textOf (octets : Bytes) : String := String.ofList (octets.map (fun octet => Char.ofNat octet.toNat))

/-- `Display` of an address as a string. -/
def IpAddr.text (display : Ipv6Text) : IpAddr → String
  | .v4 a b c d =>
    toString a.toNat ++ "." ++ toString b.toNat ++ "." ++ toString c.toNat ++ "." ++ toString d.toNat
  | .v6 address => textOf (display.text address)

/-- Extract this field's display value from an event. -/
def Field.extract (display : Ipv6Text) (field : Field) (e : FlowEvent) : String :=
  match field with
  | srcIp => e.srcIp.text display
  | dstIp => e.dstIp.text display
  | srcPort => toString e.srcPort.toNat
  | dstPort => toString e.dstPort.toNat
  | protocol => protocolName e.protocol
  | tcpFlags => toString e.tcpFlags.toNat
  | direction => e.direction.name
  | bytes => toString e.bytes.toNat
  | packets => toString e.packets.toNat
  | interfaceIndex => toString e.interfaceIndex.toNat
  | nodeId => toString e.nodeId.toNat

/-- Two events have the same value of the field. -/
def Field.Agrees (field : Field) (e other : FlowEvent) : Prop :=
  match field with
  | srcIp => e.srcIp = other.srcIp
  | dstIp => e.dstIp = other.dstIp
  | srcPort => e.srcPort = other.srcPort
  | dstPort => e.dstPort = other.dstPort
  | protocol => e.protocol = other.protocol
  | tcpFlags => e.tcpFlags = other.tcpFlags
  | direction => e.direction = other.direction
  | bytes => e.bytes = other.bytes
  | packets => e.packets = other.packets
  | interfaceIndex => e.interfaceIndex = other.interfaceIndex
  | nodeId => e.nodeId = other.nodeId

/-- The loop of `group_key_into`, over the fields that are left; `i` counts those that are done. -/
def groupKeyLoop (display : Ipv6Text) (event : FlowEvent) : Nat → List Field → Bytes → Bytes
  | _, [], out => out
  | i, field :: fields, out =>
    let out := if i > 0 then out ++ [groupKeySep] else out
    groupKeyLoop display event (i + 1) fields (out ++ fieldValue display field event)

/-- Encode the group-by key of `fields` into a caller-owned buffer. -/
def groupKeyInto (display : Ipv6Text) (fields : List Field) (event : FlowEvent) (out : Bytes) : Bytes :=
  let out := out.take 0 -- out.clear()
  groupKeyLoop display event 0 fields out

/-! ## Decimals -/

def byteOf (c : Char) : UInt8 := UInt8.ofNat c.toNat

theorem ascii_eq (s : String) : ascii s = s.toList.map byteOf := rfl

theorem decimalLoop_eq {rounds value : Nat} (positive : 0 < value) (fits : value < 10 ^ rounds)
    (buf : Bytes) : decimalLoop rounds value buf = (Nat.toDigits 10 value).map byteOf ++ buf := by
  induction rounds generalizing value buf with
  | zero => exact absurd fits (by omega)
  | succ rounds ih =>
    have last : byteOf (value % 10).digitChar = UInt8.ofNat (0x30 + value % 10) :=
      congrArg UInt8.ofNat (Nat.toNat_digitChar_of_lt_ten (Nat.mod_lt _ (by decide)))
    rw [decimalLoop, if_neg (by omega), Nat.toDigits_eq_if (by decide)]
    by_cases short : value < 10
    · have none : value / 10 = 0 := Nat.div_eq_of_lt short
      rw [if_pos short, none, ← last, Nat.mod_eq_of_lt short]
      cases rounds <;> rfl
    · rw [Nat.pow_succ] at fits
      rw [if_neg short, ih (by omega) (by omega), List.map_append, List.append_assoc, ← last]
      rfl

theorem appendDecimal_eq {value : Nat} (fits : value < 2 ^ 64) :
    appendDecimal value = (Nat.toDigits 10 value).map byteOf := by
  rw [appendDecimal]
  by_cases zero : value = 0
  · rw [if_pos zero, zero]
    rfl
  · rw [if_neg zero, decimalLoop_eq (by omega) (by omega), List.append_nil]

theorem ascii_decimal {value : Nat} (fits : value < 2 ^ 64) :
    ascii (toString value) = appendDecimal value := by
  rw [ascii_eq, appendDecimal_eq fits, Nat.toString_eq_repr, Nat.toList_repr]

theorem toDigits_bounds {value : Nat} {c : Char} (digit : c ∈ Nat.toDigits 10 value) :
    48 ≤ c.toNat ∧ c.toNat ≤ 57 := by
  have decimal := Nat.isDigit_of_mem_toDigits (by decide) (by decide) digit
  simpa [Char.isDigit, UInt32.le_iff_toNat_le] using decimal

theorem appendDecimal_digits {value : Nat} (fits : value < 2 ^ 64) {octet : UInt8}
    (member : octet ∈ appendDecimal value) : 48 ≤ octet.toNat ∧ octet.toNat ≤ 57 := by
  rw [appendDecimal_eq fits] at member
  obtain ⟨c, digit, rfl⟩ := List.mem_map.mp member
  have bounds := toDigits_bounds digit
  have same : (byteOf c).toNat = c.toNat := UInt8.toNat_ofNat_of_lt' (by show c.toNat < 256; omega)
  rw [same]
  exact bounds

theorem appendDecimal_length {value k : Nat} (positive : 0 < k) (short : value < 10 ^ k)
    (fits : value < 2 ^ 64) : (appendDecimal value).length ≤ k := by
  rw [appendDecimal_eq fits, List.length_map]
  exact (Nat.length_toDigits_le_iff (by decide) positive).mpr short

theorem appendDecimal_ne_nil {value : Nat} (fits : value < 2 ^ 64) : appendDecimal value ≠ [] := by
  rw [appendDecimal_eq fits]
  simp [Nat.toDigits_ne_nil]

/-! ## ASCII texts -/

def Plain (s : String) : Prop := ∀ c ∈ s.toList, c.toNat < 128

theorem textOf_ascii {s : String} (plain : Plain s) : textOf (ascii s) = s := by
  have back : s.toList.map (fun c => Char.ofNat (byteOf c).toNat) = s.toList := by
    refine (List.map_congr_left fun c member => ?_).trans (List.map_id _)
    have small := plain c member
    rw [byteOf, UInt8.toNat_ofNat_of_lt' (by show c.toNat < 256; omega)]
    exact Char.ofNat_toNat c
  rw [textOf, ascii_eq, List.map_map]
  exact (congrArg String.ofList back).trans String.ofList_toList

theorem ascii_textOf (octets : Bytes) : ascii (textOf octets) = octets := by
  have back : ∀ octet ∈ octets, byteOf (Char.ofNat octet.toNat) = octet := by
    intro octet _
    have small := octet.toNat_lt
    rw [byteOf, Char.toNat_ofNat, if_pos (.inl (by omega))]
    exact UInt8.ofNat_toNat
  rw [ascii_eq, textOf, String.toList_ofList, List.map_map]
  exact (List.map_congr_left back).trans (List.map_id _)

/-- An ASCII text is its own UTF-8 encoding. -/
theorem asBytes_ascii {s : String} (plain : Plain s) : asBytes s = ascii s := by
  have encoded : ∀ cs : List Char, (∀ c ∈ cs, c.toNat < 128) →
      cs.utf8Encode.data.toList = cs.map byteOf := by
    intro cs
    induction cs with
    | nil => intro _; simp
    | cons c cs ih =>
      intro small
      have one : c.utf8Size = 1 := by
        have first := small c List.mem_cons_self
        rw [Char.utf8Size_eq_one_iff, UInt32.le_iff_toNat_le]
        exact Nat.le_of_lt_succ first
      rw [List.utf8Encode_cons, List.utf8Encode_singleton, String.utf8EncodeChar_eq_singleton one]
      have rest := ih fun d member => small d (List.mem_cons_of_mem _ member)
      simp only [ByteArray.toList_data_append, rest, List.map_cons]
      rfl
  have whole := encoded s.toList plain
  rw [asBytes, ascii_eq, ← whole, ← String.toByteArray_ofList, String.ofList_toList]

theorem plain_append {s t : String} (first : Plain s) (second : Plain t) : Plain (s ++ t) := by
  intro c member
  rw [String.toList_append, List.mem_append] at member
  exact member.elim (first c) (second c)

theorem plain_decimal (value : Nat) : Plain (toString value) := by
  intro c member
  rw [Nat.toString_eq_repr, Nat.toList_repr] at member
  have bounds := toDigits_bounds member
  omega

theorem appendDecimal_inj {value value' : Nat} (fits : value < 2 ^ 64) (fits' : value' < 2 ^ 64)
    (same : appendDecimal value = appendDecimal value') : value = value' := by
  rw [← ascii_decimal fits, ← ascii_decimal fits'] at same
  have texts := congrArg textOf same
  rw [textOf_ascii (plain_decimal value), textOf_ascii (plain_decimal value')] at texts
  exact Nat.repr_injective texts

/-! ## The two encoders agree -/

theorem plain_extract (display : Ipv6Text) (field : Field) (e : FlowEvent) :
    Plain (field.extract display e) := by
  have address : ∀ ip : IpAddr, Plain (ip.text display) := by
    intro ip
    cases ip with
    | v4 a b c d =>
      have dot : Plain "." := by simp [Plain]
      exact plain_append (plain_append (plain_append (plain_append (plain_append (plain_append
        (plain_decimal _) dot) (plain_decimal _)) dot) (plain_decimal _)) dot) (plain_decimal _)
    | v6 address =>
      intro c member
      rw [IpAddr.text, textOf, String.toList_ofList] at member
      obtain ⟨octet, inside, rfl⟩ := List.mem_map.mp member
      have small := octet.toNat_lt
      have charset := display.charset address octet inside
      simp only [UInt8.le_iff_toNat_le] at charset
      rw [Char.toNat_ofNat, if_pos (.inl (by omega))]
      rcases charset with digit | letter | dot
      · exact Nat.lt_of_le_of_lt digit.2 (by decide)
      · exact Nat.lt_of_le_of_lt letter.2 (by decide)
      · rw [dot]
        decide
  cases field with
  | srcIp => exact address e.srcIp
  | dstIp => exact address e.dstIp
  | protocol =>
    show Plain (protocolName e.protocol)
    unfold protocolName
    split
    · simp [Plain]
    · split
      · simp [Plain]
      · split
        · simp [Plain]
        · split
          · simp [Plain]
          · exact plain_decimal _
  | direction =>
    show Plain e.direction.name
    cases e.direction <;> simp [Plain, Direction.name]
  | _ => exact plain_decimal _

theorem ascii_append (s t : String) : ascii (s ++ t) = ascii s ++ ascii t := by
  rw [ascii_eq, ascii_eq, ascii_eq, String.toList_append, List.map_append]

theorem octet_fits (octet : UInt8) : octet.toNat < 2 ^ 64 := Nat.lt_trans octet.toNat_lt (by decide)

theorem appendIpv4_eq (a b c d : UInt8) :
    appendIpv4 a b c d = appendDecimal a.toNat ++ [0x2E] ++ appendDecimal b.toNat ++ [0x2E] ++
      appendDecimal c.toNat ++ [0x2E] ++ appendDecimal d.toNat := by
  simp [appendIpv4, List.intercalate]

theorem ascii_ip (display : Ipv6Text) (ip : IpAddr) : ascii (ip.text display) = appendIp display ip := by
  cases ip with
  | v4 a b c d =>
    have dot : ascii "." = [0x2E] := by decide
    simp only [IpAddr.text, appendIp, appendIpv4_eq, ascii_append, dot, ascii_decimal (octet_fits _)]
  | v6 address => exact ascii_textOf _

/-- `extract` and `field_value_into` encode every value alike. -/
theorem ascii_extract (display : Ipv6Text) (field : Field) (e : FlowEvent) :
    ascii (field.extract display e) = fieldValue display field e := by
  cases field with
  | srcIp => exact ascii_ip display e.srcIp
  | dstIp => exact ascii_ip display e.dstIp
  | protocol =>
    show ascii (protocolName e.protocol) = appendProtocol e.protocol
    unfold protocolName appendProtocol
    split
    · rfl
    · split
      · rfl
      · split
        · rfl
        · split
          · rfl
          · exact ascii_decimal (octet_fits _)
  | direction => rfl
  | srcPort => exact ascii_decimal (Nat.lt_trans e.srcPort.toNat_lt (by decide))
  | dstPort => exact ascii_decimal (Nat.lt_trans e.dstPort.toNat_lt (by decide))
  | tcpFlags => exact ascii_decimal (octet_fits _)
  | bytes => exact ascii_decimal (Nat.lt_trans e.bytes.toNat_lt (by decide))
  | packets => exact ascii_decimal (Nat.lt_trans e.packets.toNat_lt (by decide))
  | interfaceIndex => exact ascii_decimal (Nat.lt_trans e.interfaceIndex.toNat_lt (by decide))
  | nodeId => exact ascii_decimal e.nodeId.toNat_lt

/-! ## Values are told apart -/

theorem appendIpv4_split (a b c d : UInt8) :
    (appendIpv4 a b c d).splitOn 0x2E = [appendDecimal a.toNat, appendDecimal b.toNat,
      appendDecimal c.toNat, appendDecimal d.toNat] := by
  refine List.splitOn_intercalate 0x2E (fun part member dot => ?_) (List.cons_ne_nil _ _)
  have digits : ∀ octet : UInt8, (0x2E : UInt8) ∉ appendDecimal octet.toNat := fun octet inside =>
    absurd (appendDecimal_digits (octet_fits octet) inside).1 (by decide)
  simp only [List.mem_cons, List.not_mem_nil, or_false] at member
  rcases member with rfl | rfl | rfl | rfl <;> exact digits _ dot

theorem appendIpv4_text {a b c d octet : UInt8} (member : octet ∈ appendIpv4 a b c d) :
    46 ≤ octet.toNat ∧ octet.toNat ≤ 57 := by
  rw [appendIpv4_eq] at member
  simp only [List.mem_append, List.mem_singleton] at member
  have digits : ∀ part : UInt8, octet ∈ appendDecimal part.toNat → 46 ≤ octet.toNat ∧ octet.toNat ≤ 57 :=
    fun part inside => by
      have bounds := appendDecimal_digits (octet_fits part) inside
      omega
  have dot : octet = 0x2E → 46 ≤ octet.toNat ∧ octet.toNat ≤ 57 := by
    rintro rfl
    decide
  rcases member with (((((first | point) | second) | point) | third) | point) | fourth
  · exact digits a first
  · exact dot point
  · exact digits b second
  · exact dot point
  · exact digits c third
  · exact dot point
  · exact digits d fourth

theorem appendIp_inj {display : Ipv6Text} {ip ip' : IpAddr}
    (same : appendIp display ip = appendIp display ip') : ip = ip' := by
  have colon : ∀ a b c d : UInt8, ∀ address : BitVec 128,
      appendIpv4 a b c d ≠ display.text address := by
    intro a b c d address equal
    have member := display.colon address
    rw [← equal] at member
    exact absurd (appendIpv4_text member).2 (by decide)
  cases ip with
  | v4 a b c d =>
    cases ip' with
    | v4 a' b' c' d' =>
      have parts := congrArg (List.splitOn 0x2E) same
      rw [appendIp, appendIp, appendIpv4_split, appendIpv4_split] at parts
      simp only [List.cons.injEq, and_true] at parts
      obtain ⟨first, second, third, fourth⟩ := parts
      have octet : ∀ x y : UInt8, appendDecimal x.toNat = appendDecimal y.toNat → x = y :=
        fun x y equal => UInt8.toNat_inj.mp (appendDecimal_inj (octet_fits x) (octet_fits y) equal)
      rw [octet a a' first, octet b b' second, octet c c' third, octet d d' fourth]
    | v6 address => exact absurd same (colon a b c d address)
  | v6 address =>
    cases ip' with
    | v4 a b c d => exact absurd same.symm (colon a b c d address)
    | v6 address' => rw [display.injective same]

/-- The numbers that have a name. -/
def Named (protocol : UInt8) : Prop := protocol = 1 ∨ protocol = 6 ∨ protocol = 17 ∨ protocol = 58

instance (protocol : UInt8) : Decidable (Named protocol) := inferInstanceAs (Decidable (_ ∨ _))

theorem appendProtocol_unnamed {protocol : UInt8} (unnamed : ¬Named protocol) :
    appendProtocol protocol = appendDecimal protocol.toNat := by
  unfold Named at unnamed
  rw [appendProtocol, if_neg (by tauto), if_neg (by tauto), if_neg (by tauto), if_neg (by tauto)]

theorem appendProtocol_letter {protocol : UInt8} (named : Named protocol) :
    ∃ octet ∈ appendProtocol protocol, 57 < octet.toNat := by
  rcases named with rfl | rfl | rfl | rfl
  · exact ⟨0x69, by decide, by decide⟩
  · exact ⟨0x74, by decide, by decide⟩
  · exact ⟨0x75, by decide, by decide⟩
  · exact ⟨0x69, by decide, by decide⟩

theorem appendProtocol_inj {p q : UInt8} (same : appendProtocol p = appendProtocol q) : p = q := by
  have apart : ∀ p q : UInt8, Named p → ¬Named q → appendProtocol p ≠ appendProtocol q := by
    intro p q named unnamed equal
    obtain ⟨octet, member, letter⟩ := appendProtocol_letter named
    rw [equal, appendProtocol_unnamed unnamed] at member
    exact absurd (appendDecimal_digits (octet_fits q) member).2 (Nat.not_le.mpr letter)
  by_cases named : Named p
  · by_cases named' : Named q
    · rcases named with rfl | rfl | rfl | rfl <;> rcases named' with rfl | rfl | rfl | rfl <;>
        first | rfl | exact absurd same (by decide)
    · exact absurd same (apart p q named named')
  · by_cases named' : Named q
    · exact absurd same.symm (apart q p named' named)
    · rw [appendProtocol_unnamed named, appendProtocol_unnamed named'] at same
      exact UInt8.toNat_inj.mp (appendDecimal_inj (octet_fits p) (octet_fits q) same)

theorem fieldValue_eq_iff (display : Ipv6Text) (field : Field) (e other : FlowEvent) :
    fieldValue display field e = fieldValue display field other ↔ field.Agrees e other := by
  cases field with
  | srcIp => exact ⟨appendIp_inj, congrArg (appendIp display)⟩
  | dstIp => exact ⟨appendIp_inj, congrArg (appendIp display)⟩
  | protocol => exact ⟨appendProtocol_inj, congrArg appendProtocol⟩
  | direction =>
    refine ⟨fun same => ?_, congrArg (fun direction => ascii (Direction.name direction))⟩
    have named : ∀ x y : Direction, ascii x.name = ascii y.name → x = y := by
      intro x y
      cases x <;> cases y <;> decide
    exact named _ _ same
  | srcPort =>
    exact ⟨fun same => UInt16.toNat_inj.mp (appendDecimal_inj
      (Nat.lt_trans e.srcPort.toNat_lt (by decide)) (Nat.lt_trans other.srcPort.toNat_lt (by decide))
      same), congrArg (fun port => appendDecimal (UInt16.toNat port))⟩
  | dstPort =>
    exact ⟨fun same => UInt16.toNat_inj.mp (appendDecimal_inj
      (Nat.lt_trans e.dstPort.toNat_lt (by decide)) (Nat.lt_trans other.dstPort.toNat_lt (by decide))
      same), congrArg (fun port => appendDecimal (UInt16.toNat port))⟩
  | tcpFlags =>
    exact ⟨fun same => UInt8.toNat_inj.mp (appendDecimal_inj (octet_fits _) (octet_fits _) same),
      congrArg (fun flags => appendDecimal (UInt8.toNat flags))⟩
  | bytes =>
    exact ⟨fun same => UInt32.toNat_inj.mp (appendDecimal_inj
      (Nat.lt_trans e.bytes.toNat_lt (by decide)) (Nat.lt_trans other.bytes.toNat_lt (by decide))
      same), congrArg (fun count => appendDecimal (UInt32.toNat count))⟩
  | packets =>
    exact ⟨fun same => UInt32.toNat_inj.mp (appendDecimal_inj
      (Nat.lt_trans e.packets.toNat_lt (by decide)) (Nat.lt_trans other.packets.toNat_lt (by decide))
      same), congrArg (fun count => appendDecimal (UInt32.toNat count))⟩
  | interfaceIndex =>
    exact ⟨fun same => UInt32.toNat_inj.mp (appendDecimal_inj
      (Nat.lt_trans e.interfaceIndex.toNat_lt (by decide))
      (Nat.lt_trans other.interfaceIndex.toNat_lt (by decide)) same),
      congrArg (fun index => appendDecimal (UInt32.toNat index))⟩
  | nodeId =>
    exact ⟨fun same => UInt64.toNat_inj.mp (appendDecimal_inj e.nodeId.toNat_lt other.nodeId.toNat_lt
      same), congrArg (fun id => appendDecimal (UInt64.toNat id))⟩

/-! ## Keys -/

theorem fieldValue_text {display : Ipv6Text} {field : Field} {e : FlowEvent} {octet : UInt8}
    (member : octet ∈ fieldValue display field e) : 46 ≤ octet.toNat := by
  have digits : ∀ {value : Nat}, value < 2 ^ 64 → octet ∈ appendDecimal value → 46 ≤ octet.toNat :=
    fun fits inside => Nat.le_trans (by decide) (appendDecimal_digits fits inside).1
  have address : ∀ ip : IpAddr, octet ∈ appendIp display ip → 46 ≤ octet.toNat := by
    intro ip inside
    cases ip with
    | v4 => exact (appendIpv4_text inside).1
    | v6 address =>
      have charset := display.charset address octet inside
      simp only [UInt8.le_iff_toNat_le] at charset
      rcases charset with digit | letter | rfl
      · exact Nat.le_trans (by decide) digit.1
      · exact Nat.le_trans (by decide) letter.1
      · decide
  cases field with
  | srcIp => exact address _ member
  | dstIp => exact address _ member
  | protocol =>
    by_cases named : Named e.protocol
    · have letters : ∀ p, Named p → ∀ o ∈ appendProtocol p, 46 ≤ o.toNat := by
        rintro p (rfl | rfl | rfl | rfl) <;> simp [appendProtocol, ascii]
      exact letters _ named octet member
    · rw [fieldValue, appendProtocol_unnamed named] at member
      exact digits (octet_fits _) member
  | direction =>
    have letters : ∀ d : Direction, ∀ o ∈ ascii d.name, 46 ≤ o.toNat := by
      intro d
      cases d <;> simp [Direction.name, ascii]
    exact letters _ octet member
  | srcPort => exact digits (Nat.lt_trans e.srcPort.toNat_lt (by decide)) member
  | dstPort => exact digits (Nat.lt_trans e.dstPort.toNat_lt (by decide)) member
  | tcpFlags => exact digits (octet_fits _) member
  | bytes => exact digits (Nat.lt_trans e.bytes.toNat_lt (by decide)) member
  | packets => exact digits (Nat.lt_trans e.packets.toNat_lt (by decide)) member
  | interfaceIndex => exact digits (Nat.lt_trans e.interfaceIndex.toNat_lt (by decide)) member
  | nodeId => exact digits e.nodeId.toNat_lt member

theorem fieldValue_ne_nil (display : Ipv6Text) (field : Field) (e : FlowEvent) :
    fieldValue display field e ≠ [] := by
  have address : ∀ ip : IpAddr, appendIp display ip ≠ [] := by
    intro ip
    cases ip with
    | v4 a b c d => simp [appendIp, appendIpv4_eq]
    | v6 address => exact List.ne_nil_of_mem (display.colon address)
  cases field with
  | srcIp => exact address _
  | dstIp => exact address _
  | protocol =>
    by_cases named : Named e.protocol
    · obtain ⟨octet, member, -⟩ := appendProtocol_letter named
      exact List.ne_nil_of_mem member
    · rw [fieldValue, appendProtocol_unnamed named]
      exact appendDecimal_ne_nil (octet_fits _)
  | direction =>
    show ascii e.direction.name ≠ []
    cases e.direction <;> decide
  | srcPort => exact appendDecimal_ne_nil (Nat.lt_trans e.srcPort.toNat_lt (by decide))
  | dstPort => exact appendDecimal_ne_nil (Nat.lt_trans e.dstPort.toNat_lt (by decide))
  | tcpFlags => exact appendDecimal_ne_nil (octet_fits _)
  | bytes => exact appendDecimal_ne_nil (Nat.lt_trans e.bytes.toNat_lt (by decide))
  | packets => exact appendDecimal_ne_nil (Nat.lt_trans e.packets.toNat_lt (by decide))
  | interfaceIndex => exact appendDecimal_ne_nil (Nat.lt_trans e.interfaceIndex.toNat_lt (by decide))
  | nodeId => exact appendDecimal_ne_nil e.nodeId.toNat_lt

theorem decimal_octet_length (octet : UInt8) : (appendDecimal octet.toNat).length ≤ 3 :=
  appendDecimal_length (by decide) (Nat.lt_trans octet.toNat_lt (by decide)) (octet_fits octet)

theorem decimal_u32_length (word : UInt32) : (appendDecimal word.toNat).length ≤ 10 :=
  appendDecimal_length (by decide) (Nat.lt_trans word.toNat_lt (by decide))
    (Nat.lt_trans word.toNat_lt (by decide))

theorem decimal_port_length (port : UInt16) : (appendDecimal port.toNat).length ≤ 5 :=
  appendDecimal_length (by decide) (Nat.lt_trans port.toNat_lt (by decide))
    (Nat.lt_trans port.toNat_lt (by decide))

/-- Every value is within the declared maximum of its field. -/
theorem fieldValue_length {display : Ipv6Text}
    (short : ∀ address, (display.text address).length ≤ 39) (field : Field) (e : FlowEvent) :
    (fieldValue display field e).length ≤ field.maxEncodedLen := by
  have address : ∀ ip : IpAddr, (appendIp display ip).length ≤ 39 := by
    intro ip
    cases ip with
    | v4 a b c d =>
      have first := decimal_octet_length a
      have second := decimal_octet_length b
      have third := decimal_octet_length c
      have fourth := decimal_octet_length d
      simp only [appendIp, appendIpv4_eq, List.length_append, List.length_singleton]
      omega
    | v6 address => exact short address
  cases field with
  | srcIp => exact address _
  | dstIp => exact address _
  | protocol =>
    by_cases named : Named e.protocol
    · have names : ∀ p, Named p → (appendProtocol p).length ≤ 6 := by
        rintro p (rfl | rfl | rfl | rfl) <;> decide
      exact names _ named
    · rw [fieldValue, appendProtocol_unnamed named]
      exact Nat.le_trans (decimal_octet_length _) (by decide)
  | direction =>
    show (ascii e.direction.name).length ≤ 7
    cases e.direction <;> decide
  | srcPort => exact decimal_port_length _
  | dstPort => exact decimal_port_length _
  | tcpFlags => exact decimal_octet_length _
  | bytes => exact decimal_u32_length _
  | packets => exact decimal_u32_length _
  | interfaceIndex => exact decimal_u32_length _
  | nodeId =>
    exact appendDecimal_length (by decide) (Nat.lt_trans e.nodeId.toNat_lt (by decide)) e.nodeId.toNat_lt

section

variable {display : Ipv6Text} {event : FlowEvent}

theorem intercalate_cons (sep : UInt8) (part : Bytes) (parts : List Bytes) :
    [sep].intercalate (part :: parts) = part ++ parts.flatMap (fun later => [sep] ++ later) := by
  induction parts generalizing part with
  | nil => simp [List.intercalate]
  | cons next parts ih =>
    have rest := ih next
    simp only [List.intercalate, List.intersperse_cons_cons, List.flatten_cons, List.flatMap_cons,
      List.append_assoc] at rest ⊢
    rw [rest]

theorem groupKeyLoop_later {i : Nat} (some : 0 < i) (fields : List Field) (out : Bytes) :
    groupKeyLoop display event i fields out =
      out ++ fields.flatMap (fun field => [groupKeySep] ++ fieldValue display field event) := by
  induction fields generalizing i out with
  | nil => rw [groupKeyLoop, List.flatMap_nil, List.append_nil]
  | cons field fields ih =>
    rw [groupKeyLoop, if_pos some, ih (Nat.succ_pos i), List.flatMap_cons, List.append_assoc,
      List.append_assoc, List.append_assoc]

/-- The buffer is cleared first, so only the encoding of the fields is left in it. -/
theorem groupKeyInto_eq (fields : List Field) (out : Bytes) :
    groupKeyInto display fields event out = groupKey display fields event := by
  cases fields with
  | nil => rfl
  | cons field fields =>
    rw [groupKeyInto, groupKeyLoop, groupKeyLoop_later Nat.one_pos, groupKey, List.map_cons,
      intercalate_cons, List.flatMap_map]
    rfl

theorem groupKey_split {fields : List Field} (some : fields ≠ []) :
    splitGroupKey (groupKey display fields event) =
      fields.map (fun field => fieldValue display field event) := by
  have parts : (groupKey display fields event).splitOn groupKeySep =
      fields.map (fun field => fieldValue display field event) := by
    refine List.splitOn_intercalate groupKeySep (fun part member sep => ?_) (by simpa using some)
    obtain ⟨field, -, rfl⟩ := List.mem_map.mp member
    exact absurd (fieldValue_text sep) (by decide)
  have filled : groupKey display fields event ≠ [] := by
    obtain ⟨field, later, rfl⟩ := List.exists_cons_of_ne_nil some
    rw [groupKey, List.map_cons, intercalate_cons]
    exact List.append_ne_nil_of_left_ne_nil (fieldValue_ne_nil display field event) _
  rw [splitGroupKey, if_neg (by simpa using filled), parts]

theorem groupKey_length (short : ∀ address, (display.text address).length ≤ 39)
    (fields : List Field) :
    (groupKey display fields event).length ≤
      (fields.map Field.maxEncodedLen).sum + (fields.length - 1) := by
  have later : ∀ fields : List Field,
      (fields.flatMap (fun field => [groupKeySep] ++ fieldValue display field event)).length ≤
        (fields.map Field.maxEncodedLen).sum + fields.length := by
    intro fields
    induction fields with
    | nil => exact Nat.le_refl 0
    | cons field fields ih =>
      have first := fieldValue_length short field event
      rw [List.flatMap_cons, List.length_append, List.length_append, List.length_singleton,
        List.map_cons, List.sum_cons, List.length_cons]
      omega
  cases fields with
  | nil => exact Nat.le_refl 0
  | cons field fields =>
    have first := fieldValue_length short field event
    have rest := later fields
    rw [groupKey, List.map_cons, intercalate_cons, List.flatMap_map, List.length_append, List.map_cons,
      List.sum_cons, List.length_cons]
    omega

end

end FlowSketch.Source.Core

namespace FlowSketch.Source.Planner
open Lib.Octets Lib.Word64 Source.Core Gateway

/-- What a group key is for: the texts of the fields can be read off it, whatever the buffer held
before, it tells events apart by exactly the values of the fields, and it is as long as the planner
reckons with at most. The planner's figure is a machine word. -/
structure FaithfulKey (display : Ipv6Text) (lossy : Bytes → String) (fields : List Field)
    (event : FlowEvent) : Prop where
  split : (splitGroupKey (groupKey display fields event)).map lossy =
    fields.map (fun field => field.extract display event)
  cleared : ∀ out, groupKeyInto display fields event out = groupKey display fields event
  separates : ∀ other, groupKey display fields event = groupKey display fields other ↔
    ∀ field ∈ fields, field.Agrees event other
  bounded : (groupKey display fields event).length ≤
    (fields.map Field.maxEncodedLen).sum + (fields.length - 1)
  planned : ∀ query, storedFields query = fields →
    maximumStoredKeyBytes query = (fields.map Field.maxEncodedLen).sum + (fields.length - 1) ∨
      modulus ≤ (fields.map Field.maxEncodedLen).sum + (fields.length - 1)

theorem group_key_faithful {display : Ipv6Text}
    (short : ∀ address, (display.text address).length ≤ 39) {lossy : Bytes → String}
    (reads : ∀ text, lossy (asBytes text) = text) {fields : List Field} (some : fields ≠ [])
    (event : FlowEvent) : FaithfulKey display lossy fields event where
  split := by
    rw [groupKey_split some, List.map_map]
    refine List.map_congr_left fun field _ => ?_
    show lossy (fieldValue display field event) = field.extract display event
    rw [← ascii_extract, ← asBytes_ascii (plain_extract display field event), reads]
  cleared := groupKeyInto_eq fields
  separates other := by
    constructor
    · intro same field member
      have parts := congrArg splitGroupKey same
      rw [groupKey_split some, groupKey_split some] at parts
      exact (fieldValue_eq_iff display field event other).mp (List.map_inj_left.mp parts field member)
    · intro agree
      rw [groupKey, groupKey]
      refine congrArg _ (List.map_inj_left.mpr fun field member => ?_)
      exact (fieldValue_eq_iff display field event other).mpr (agree field member)
  bounded := groupKey_length short fields
  planned query same := by
    have exact := maximumStoredKeyBytes_exact query
    rw [exactKeyBytes, same] at exact
    exact exact

theorem ports_faithful :
    FaithfulKey Ipv6Text.expanded (fun bytes => (fromUtf8 bytes).getD "") [.srcIp, .dstPort]
      default := by
  refine group_key_faithful (fun address => ?_) (fun text => ?_) (List.cons_ne_nil _ _) default
  · show ((List.range 39).map _).length ≤ 39
    rw [List.length_map, List.length_range]
  · rw [fromUtf8_asBytes]
    rfl

end FlowSketch.Source.Planner
