import FlowSketch.Lib.AssocMap

/-!
# Counters kept in a map

`tally m key` is the counter of a key, zero if it has none, and `mass m` is the sum of all counters.
-/

namespace FlowSketch.Lib.AssocMap

variable {κ : Type}

def tally [BEq κ] (m : List (κ × Nat)) (key : κ) : Nat := (m.lookup key).getD 0

def mass (m : List (κ × Nat)) : Nat := (m.map Prod.snd).sum

theorem mass_cons (entry : κ × Nat) (m : List (κ × Nat)) : mass (entry :: m) = entry.2 + mass m := by
  rw [mass, List.map_cons, List.sum_cons, mass]

variable [BEq κ] [LawfulBEq κ]

theorem tally_of_mem {m : List (κ × Nat)} (distinct : (keys m).Nodup) {key : κ} {count : Nat}
    (member : (key, count) ∈ m) : tally m key = count := by
  rw [tally, (lookup_eq_some_iff distinct).mpr member, Option.getD_some]

theorem tally_of_not_mem {m : List (κ × Nat)} {key : κ} (absent : key ∉ keys m) : tally m key = 0 := by
  rw [tally, lookup_eq_none_iff.mpr absent, Option.getD_none]

theorem tally_insert [DecidableEq κ] (key : κ) (value : Nat) (m : List (κ × Nat)) (other : κ) :
    tally (insert key value m) other = if other = key then value else tally m other := by
  rw [tally, lookup_insert]
  split <;> rfl

theorem tally_cons [DecidableEq κ] (entry : κ × Nat) (m : List (κ × Nat)) (key : κ) :
    tally (entry :: m) key = if key = entry.1 then entry.2 else tally m key := by
  rw [tally, List.lookup_cons]
  by_cases same : key = entry.1
  · rw [beq_iff_eq.mpr same, if_pos same]
    rfl
  · rw [beq_eq_false_iff_ne.mpr same, if_neg same]
    rfl

/-- Overwriting a counter moves the sum by the difference. -/
theorem mass_insert [DecidableEq κ] (key : κ) (value : Nat) (m : List (κ × Nat)) :
    mass (insert key value m) + tally m key = mass m + value := by
  induction m with
  | nil => simp [insert, mass, tally]
  | cons entry rest ih =>
    rw [insert, tally_cons]
    by_cases same : entry.1 = key
    · rw [if_pos same, if_pos same.symm, mass_cons, mass_cons]
      omega
    · rw [if_neg same, if_neg (Ne.symm same), mass_cons, mass_cons]
      omega

theorem tally_le_mass (m : List (κ × Nat)) (key : κ) : tally m key ≤ mass m := by
  classical
  induction m with
  | nil => exact le_rfl
  | cons entry rest ih =>
    rw [tally_cons, mass_cons]
    split <;> omega

/-- Maps with the same keys and counters list the same pairs. -/
theorem perm_of_tally {m m' : List (κ × Nat)} (distinct : (keys m).Nodup)
    (distinct' : (keys m').Nodup) (sameKeys : ∀ key, key ∈ keys m ↔ key ∈ keys m')
    (same : ∀ key, tally m key = tally m' key) : m.Perm m' := by
  refine perm_of_lookup distinct distinct' fun key => ?_
  have counts := same key
  rw [tally, tally] at counts
  cases here : m.lookup key with
  | none =>
    have absent : key ∉ keys m' := fun member =>
      lookup_eq_none_iff.mp here ((sameKeys key).mpr member)
    rw [lookup_eq_none_iff.mpr absent]
  | some count =>
    cases there : m'.lookup key with
    | none =>
      have absent : key ∉ keys m := fun member =>
        lookup_eq_none_iff.mp there ((sameKeys key).mp member)
      rw [lookup_eq_none_iff.mpr absent] at here
      cases here
    | some count' =>
      rw [here, there] at counts
      exact congrArg some counts

end FlowSketch.Lib.AssocMap
