import Mathlib
import FlowSketch.Lib.Word64

/-!
# Trees of updates and merges

What a mergeable summary has been fed, as a tree: one update after another, and merges of whole
subtrees. The weight of a key, the total weight and the number of updates are sums over the tree. A sum
that is linear in the values depends on the weights of the keys only, not on the shape of the tree.
-/

namespace FlowSketch.Lib
open Word64

inductive UpdateTree (κ ν : Type) where
  | empty
  | update (tree : UpdateTree κ ν) (key : κ) (value : ν)
  | merge (left right : UpdateTree κ ν)

namespace UpdateTree

variable {κ ν : Type}

/-- The updates from left to right. -/
def entries : UpdateTree κ ν → List (κ × ν)
  | empty => []
  | update tree key value => tree.entries ++ [(key, value)]
  | merge left right => left.entries ++ right.entries

def map {μ : Type} (f : ν → μ) : UpdateTree κ ν → UpdateTree κ μ
  | empty => empty
  | update tree key value => (tree.map f).update key (f value)
  | merge left right => (left.map f).merge (right.map f)

/-- The number of updates. -/
def updates : UpdateTree κ ν → Nat
  | empty => 0
  | update tree _ _ => tree.updates + 1
  | merge left right => left.updates + right.updates

section

variable [AddCommMonoid ν]

/-- The net weight of a key. -/
def weight [DecidableEq κ] : UpdateTree κ ν → κ → ν
  | empty, _ => 0
  | update tree key value, other => tree.weight other + if other = key then value else 0
  | merge left right, other => left.weight other + right.weight other

def total : UpdateTree κ ν → ν
  | empty => 0
  | update tree _ value => tree.total + value
  | merge left right => left.total + right.total

variable {M : Type} [AddCommMonoid M]

end

theorem weight_le_total [DecidableEq κ] (tree : UpdateTree κ Nat) (key : κ) :
    tree.weight key ≤ tree.total := by
  induction tree with
  | empty => exact le_rfl
  | update tree changed value ih =>
    rw [weight, total]
    split <;> omega
  | merge left right ihLeft ihRight =>
    rw [weight, total]
    omega

/-! ## What holds all along a tree -/

section

variable {ε σ : Type} (build : UpdateTree κ ν → Except ε σ)

/-- `step` holds of every update and the state it is made in, `join` of every two merged states. -/
def Along (step : σ → κ → ν → Prop) (join : σ → σ → Prop) : UpdateTree κ ν → Prop
  | empty => True
  | update tree key value =>
    Along step join tree ∧ ∀ s, build tree = .ok s → step s key value
  | merge left right =>
    Along step join left ∧ Along step join right ∧
      ∀ s t, build left = .ok s → build right = .ok t → join s t

end

section

variable {ε σ : Type} {build : UpdateTree κ Nat → Except ε σ}

/-- Subtrees weigh no more than the tree. -/
theorem along_of_total {step : σ → κ → Nat → Prop} {join : σ → σ → Prop} {bound : Nat}
    (steps : ∀ {tree key value s}, (update tree key value).total < bound → build tree = .ok s →
      step s key value)
    (joins : ∀ {left right s t}, (merge left right).total < bound → build left = .ok s →
      build right = .ok t → join s t) {tree : UpdateTree κ Nat} (bounded : tree.total < bound) :
    tree.Along build step join := by
  induction tree with
  | empty => trivial
  | update tree key value ih =>
    exact ⟨ih (lt_of_le_of_lt (Nat.le_add_right _ _) bounded), fun _ built => steps bounded built⟩
  | merge left right ihLeft ihRight =>
    exact ⟨ihLeft (lt_of_le_of_lt (Nat.le_add_right _ _) bounded),
      ihRight (lt_of_le_of_lt (Nat.le_add_left _ _) bounded),
      fun _ _ builtLeft builtRight => joins bounded builtLeft builtRight⟩

end

/-- A word that counts the updates overflows nowhere exactly when all of them fit it. -/
theorem along_count_iff {ε σ : Type} {build : UpdateTree κ ν → Except ε σ} {count : σ → Nat}
    (total : ∀ tree, ∃ s, build tree = .ok s)
    (counts : ∀ {tree s}, build tree = .ok s → count s = tree.updates % modulus)
    (tree : UpdateTree κ ν) :
    tree.Along build (fun s _ _ => count s + 1 < modulus) (fun s t => count s + count t < modulus) ↔
      tree.updates < modulus := by
  induction tree with
  | empty => exact iff_of_true trivial modulus_pos
  | update tree key value ih =>
    obtain ⟨s, built⟩ := total tree
    rw [Along, ih, updates]
    constructor
    · rintro ⟨few, fits⟩
      have last := fits s built
      rwa [counts built, Nat.mod_eq_of_lt few] at last
    · intro fits
      have few : tree.updates < modulus := by omega
      refine ⟨few, fun t again => ?_⟩
      rwa [counts again, Nat.mod_eq_of_lt few]
  | merge left right ihLeft ihRight =>
    obtain ⟨s, builtLeft⟩ := total left
    obtain ⟨t, builtRight⟩ := total right
    rw [Along, ihLeft, ihRight, updates]
    constructor
    · rintro ⟨fewLeft, fewRight, fits⟩
      have last := fits s t builtLeft builtRight
      rwa [counts builtLeft, counts builtRight, Nat.mod_eq_of_lt fewLeft,
        Nat.mod_eq_of_lt fewRight] at last
    · intro fits
      have fewLeft : left.updates < modulus := by omega
      have fewRight : right.updates < modulus := by omega
      refine ⟨fewLeft, fewRight, fun s t againLeft againRight => ?_⟩
      rwa [counts againLeft, counts againRight, Nat.mod_eq_of_lt fewLeft,
        Nat.mod_eq_of_lt fewRight]

/-! ## Doubling -/

/-- One update, merged with a copy of itself over and over. -/
def doubled (key : κ) (value : ν) : Nat → UpdateTree κ ν
  | 0 => empty.update key value
  | n + 1 => (doubled key value n).merge (doubled key value n)

end UpdateTree

end FlowSketch.Lib
