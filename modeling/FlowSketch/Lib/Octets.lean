import Mathlib

/-!
# Byte strings

Byte strings are lists of octets, compared lexicographically as `Vec<u8>` is. `leBytes` and `leValue`
are the fixed-width little-endian encoding of a natural number and its inverse.
-/

namespace FlowSketch.Lib.Octets

abbrev Bytes := List UInt8

instance linearOrderUInt8 : LinearOrder UInt8 where
  le_refl := UInt8.le_refl
  le_trans _ _ _ := UInt8.le_trans
  le_antisymm _ _ := UInt8.le_antisymm
  le_total := UInt8.le_total
  lt_iff_le_not_ge := Std.LawfulOrderLT.lt_iff
  toDecidableLE := inferInstance
  min_def _ _ := rfl
  max_def _ _ := rfl

def leBytes : Nat → Nat → Bytes
  | 0, _ => []
  | width + 1, value => UInt8.ofNat value :: leBytes width (value / 256)

def leValue : Bytes → Nat
  | [] => 0
  | octet :: rest => octet.toNat + 256 * leValue rest

end FlowSketch.Lib.Octets
