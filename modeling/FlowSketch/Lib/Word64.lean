import Mathlib

/-!
# 64-bit words as natural numbers

Counters and clocks are `u64` in the source. They are carried as `Nat`, and every addition that the
source writes as a plain `+` goes through `wrappingAdd`: the release profile has no overflow checks,
so a sum past the last word wraps. `saturatingAdd` is the explicit saturating operation.
-/

namespace FlowSketch.Lib.Word64

def modulus : Nat := 2 ^ 64

def wrappingAdd (a b : Nat) : Nat := (a + b) % modulus

def wrappingSub (a b : Nat) : Nat := (a + modulus - b) % modulus

def wrappingMul (a b : Nat) : Nat := (a * b) % modulus

def saturatingAdd (a b : Nat) : Nat := min (a + b) (modulus - 1)

def checkedAdd (a b : Nat) : Option Nat := if a + b < modulus then some (a + b) else none

def checkedSub (a b : Nat) : Option Nat := if b ≤ a then some (a - b) else none

theorem modulus_pos : 0 < modulus := Nat.two_pow_pos 64

theorem wrappingAdd_of_lt {a b : Nat} (fits : a + b < modulus) : wrappingAdd a b = a + b :=
  Nat.mod_eq_of_lt fits

theorem wrappingAdd_eq_left_iff {a b : Nat} (left : a < modulus) (right : b < modulus) :
    wrappingAdd a b = a ↔ b = 0 := by
  unfold wrappingAdd modulus at *
  omega

theorem wrappingAdd_lt (a b : Nat) : wrappingAdd a b < modulus := Nat.mod_lt _ modulus_pos

/-- A wrapped sum agrees with the sum exactly when the sum fits a word. -/
theorem wrappingAdd_eq_iff (a b : Nat) : wrappingAdd a b = a + b ↔ a + b < modulus :=
  ⟨fun same => same ▸ wrappingAdd_lt a b, wrappingAdd_of_lt⟩

theorem wrappingSub_of_le {a b : Nat} (le : b ≤ a) (fits : a < modulus) :
    wrappingSub a b = a - b := by
  have shift : a + modulus - b = a - b + modulus := by omega
  rw [wrappingSub, shift, Nat.add_mod_right, Nat.mod_eq_of_lt (by omega)]

theorem saturatingAdd_mono {a b c d : Nat} (left : a ≤ c) (right : b ≤ d) :
    saturatingAdd a b ≤ saturatingAdd c d := by
  unfold saturatingAdd
  omega

instance linearOrderUInt64 : LinearOrder UInt64 where
  le_refl := UInt64.le_refl
  le_trans _ _ _ := UInt64.le_trans
  le_antisymm _ _ := UInt64.le_antisymm
  le_total := UInt64.le_total
  lt_iff_le_not_ge := Std.LawfulOrderLT.lt_iff
  toDecidableLE := inferInstance
  min_def _ _ := rfl
  max_def _ _ := rfl

instance lawfulOrderMaxUInt64 : Std.LawfulOrderMax UInt64 where
  max_le_iff a b c := by
    show (if a ≤ b then b else a) ≤ c ↔ a ≤ c ∧ b ≤ c
    split
    next le => exact ⟨fun most => ⟨UInt64.le_trans le most, most⟩, fun both => both.2⟩
    next not_le =>
      have ge : b ≤ a := (UInt64.le_total a b).resolve_left not_le
      exact ⟨fun most => ⟨most, UInt64.le_trans ge most⟩, fun both => both.1⟩
  max_eq_or a b := by
    show (if a ≤ b then b else a) = a ∨ (if a ≤ b then b else a) = b
    split
    · exact Or.inr rfl
    · exact Or.inl rfl

end FlowSketch.Lib.Word64
