import FlowSketch.Lib.CounterGuarantee
import FlowSketch.Source.SpaceSaving.Decode

/-!
# Merge trees

A summary built from empty ones by any tree of `add`, `add_key_buf` and `merge_from` keeps the error
model of the module: counts overestimate by at most their error, and errors stay within the weight
divided by the capacity. As long as the total weight fits a word, so does every count on the way.
The update counter is the exception: it counts zero-weight updates too, and a tree of merges can
double it past the last word.
-/

namespace FlowSketch.Source.SpaceSaving
open Lib.Octets Lib.Word64 Lib.BinaryHeap Lib.CounterSummary Source.Core

inductive Tree where
  | empty
  | add (tree : Tree) (key : Bytes) (weight : Nat)
  | addKeyBuf (tree : Tree) (key : Bytes) (weight : Nat)
  | merge (left right : Tree)

namespace Tree

/-- The summary the tree builds; all of its leaves share one capacity and one hash. -/
def build (hashing : Hashing) (capacity : Nat) (hash : HashSpec) : Tree → Option SpaceSaving
  | empty => (SpaceSaving.new capacity hash).toOption
  | add tree key weight => do (← tree.build hashing capacity hash).add hashing key weight
  | addKeyBuf tree key weight => do
    let (s, _) ← (← tree.build hashing capacity hash).addKeyBuf hashing key weight
    return s
  | merge left right => do
    let s ← left.build hashing capacity hash
    (s.mergeFrom hashing (← right.build hashing capacity hash)).toOption

/-- The true weight of a key. -/
def weight : Tree → Bytes → Nat
  | empty => fun _ => 0
  | add tree key w => Function.update tree.weight key (tree.weight key + w)
  | addKeyBuf tree key w => Function.update tree.weight key (tree.weight key + w)
  | merge left right => fun key => left.weight key + right.weight key

def total : Tree → Nat
  | empty => 0
  | add tree _ w => tree.total + w
  | addKeyBuf tree _ w => tree.total + w
  | merge left right => left.total + right.total

/-- The number of observations. -/
def adds : Tree → Nat
  | empty => 0
  | add tree _ _ => tree.adds + 1
  | addKeyBuf tree _ _ => tree.adds + 1
  | merge left right => left.adds + right.adds

/-- `step s` holds of every state an observation is made in, and `join` of every two merged ones. -/
def Along (hashing : Hashing) (capacity : Nat) (hash : HashSpec)
    (step : SpaceSaving → Bytes → Nat → Prop) (join : SpaceSaving → SpaceSaving → Prop) : Tree → Prop
  | empty => True
  | add tree key w => Along hashing capacity hash step join tree ∧
    ∀ s, tree.build hashing capacity hash = some s → step s key w
  | addKeyBuf tree key w => Along hashing capacity hash step join tree ∧
    ∀ s, tree.build hashing capacity hash = some s → step s key w
  | merge left right => Along hashing capacity hash step join left ∧
    Along hashing capacity hash step join right ∧
    ∀ s t, left.build hashing capacity hash = some s → right.build hashing capacity hash = some t →
      join s t

/-- No addition to a count, an error or the total weight overflows. -/
def WeightsFit (hashing : Hashing) (capacity : Nat) (hash : HashSpec) : Tree → Prop :=
  Along hashing capacity hash
    (fun s key w => s.totalWeight + w < modulus ∧ AddFits hashing s key w)
    (fun s t => s.totalWeight + t.totalWeight < modulus ∧ MergeFits hashing s t)

/-- No addition to the update counter overflows. -/
def UpdatesFit (hashing : Hashing) (capacity : Nat) (hash : HashSpec) : Tree → Prop :=
  Along hashing capacity hash (fun s _ _ => s.updates + 1 < modulus)
    (fun s t => s.updates + t.updates < modulus)

end Tree

/-- What a summary built by `tree` satisfies. -/
structure Built (hashing : Hashing) (capacity : Nat) (hash : HashSpec) (tree : Tree)
    (s : SpaceSaving) : Prop where
  wf : Wf hashing s
  ordered : HeapOrdered s
  capacityIs : s.capacity = capacity
  hashIs : s.hash = hash
  totalWeight : s.totalWeight = tree.total
  updates : s.updates = tree.adds % modulus
  guarantee : Guarantee capacity s.abs tree.weight tree.total

section

variable {hashing : Hashing} {capacity : Nat} {hash : HashSpec}

/-- A summary within its guarantee has room for every weight that keeps the total within a word. -/
theorem Built.addFits {tree : Tree} {s : SpaceSaving} (built : Built hashing capacity hash tree s)
    (positive : 0 < capacity) (key : Bytes) {w : Nat} (bounded : tree.total + w < modulus) :
    s.totalWeight + w < modulus ∧ AddFits hashing s key w := by
  refine ⟨built.totalWeight ▸ bounded, ?_⟩
  unfold AddFits
  cases found : s.findSlot hashing key with
  | some i =>
    obtain ⟨c, atI, _⟩ := (built.wf.indexed.find_iff key i).mp found
    have entry := summaryOf_entry built.wf.indexed.distinct (List.mem_of_getElem? atI)
    have small := built.guarantee.count_le entry
    have slotIs : (s.slotAt i).entry = c.entry := congrArg Content.entry (slotAt_content atI).2
    simp only [slotIs]
    omega
  | none =>
    by_cases room : s.slots.length < s.capacity
    · exact Or.inl room
    · have small := built.guarantee.floor_le_total positive
      rw [Summary.floor, keys_card built.wf.indexed, if_pos (by rw [← built.capacityIs]; omega),
        ← minimumCount_eq built.wf built.ordered] at small
      right
      omega

theorem Built.add {tree : Tree} {s : SpaceSaving} (built : Built hashing capacity hash tree s)
    (positive : 0 < capacity) (key : Bytes) {w : Nat} (bounded : tree.total + w < modulus) :
    ∃ t, s.add hashing key w = some t ∧ Built hashing capacity hash (tree.add key w) t := by
  obtain ⟨t, added, step⟩ := add_spec built.wf key w
  obtain ⟨fitsTotal, fits⟩ := built.addFits positive key bounded
  obtain ⟨ordered, summary⟩ := step.refines built.ordered fits
  refine ⟨t, added, step.wf, ordered, step.capacity.trans built.capacityIs,
    step.hash.trans built.hashIs, ?_, ?_, ?_⟩
  · rw [step.totalWeight, wrappingAdd_of_lt fitsTotal, built.totalWeight]
    rfl
  · rw [step.updates, wrappingAdd, built.updates, Nat.mod_add_mod]
    rfl
  · rw [summary, built.capacityIs]
    have kept := built.guarantee.add (evictionDigest hashing s.hash) key w positive
    simp only [Tree.weight, Tree.total]
    convert kept

theorem Built.charge_le {tree : Tree} {s : SpaceSaving} (built : Built hashing capacity hash tree s)
    (positive : 0 < capacity) (key : Bytes) :
    (charge hashing s key).count ≤ tree.total ∧ (charge hashing s key).error ≤ tree.total := by
  rw [charge_eq built.wf built.ordered, built.capacityIs]
  have one := built.guarantee.charged_sum {key} (by rw [Finset.card_singleton]; exact positive)
  rw [Finset.sum_singleton] at one
  have bounds := (built.guarantee.charged_bounds key).1
  omega

theorem Built.mergeFits {left right : Tree} {s t : SpaceSaving}
    (builtLeft : Built hashing capacity hash left s)
    (builtRight : Built hashing capacity hash right t) (positive : 0 < capacity)
    (bounded : left.total + right.total < modulus) :
    s.totalWeight + t.totalWeight < modulus ∧ MergeFits hashing s t := by
  refine ⟨by rw [builtLeft.totalWeight, builtRight.totalWeight]; exact bounded, ?_⟩
  intro key _
  have mine := builtLeft.charge_le positive key
  have theirs := builtRight.charge_le positive key
  omega

theorem Built.merge {left right : Tree} {s t : SpaceSaving}
    (builtLeft : Built hashing capacity hash left s)
    (builtRight : Built hashing capacity hash right t) (positive : 0 < capacity)
    (bounded : left.total + right.total < modulus) :
    ∃ u, s.mergeFrom hashing t = .ok u ∧ Built hashing capacity hash (left.merge right) u := by
  have compatible : s.compatibility hashing = t.compatibility hashing := by
    rw [compatibility, compatibility, paramsHash, paramsHash, builtLeft.capacityIs,
      builtRight.capacityIs, builtLeft.hashIs, builtRight.hashIs]
  obtain ⟨u, merged, step⟩ := mergeFrom_spec builtLeft.wf builtRight.wf compatible
  obtain ⟨fitsTotal, fits⟩ := builtLeft.mergeFits builtRight positive bounded
  refine ⟨u, merged, step.wf, step.ordered, step.capacity.trans builtLeft.capacityIs,
    step.hash.trans builtLeft.hashIs, ?_, ?_, ?_⟩
  · rw [step.totalWeight, wrappingAdd_of_lt fitsTotal, builtLeft.totalWeight,
      builtRight.totalWeight]
    rfl
  · rw [step.updates, wrappingAdd, builtLeft.updates, builtRight.updates, ← Nat.add_mod]
    rfl
  · rw [step.refines builtLeft.ordered builtRight.ordered fits, builtLeft.capacityIs,
      builtRight.capacityIs]
    exact builtLeft.guarantee.merge builtRight.guarantee positive

theorem Built.empty (positive : 0 < capacity) :
    ∃ s, Tree.empty.build hashing capacity hash = some s ∧
      Built hashing capacity hash Tree.empty s := by
  refine ⟨fresh capacity hash 0 0, ?_, Wf.clear (s := fresh capacity hash 0 0) positive,
    clear_heapOrdered (fresh capacity hash 0 0), rfl, rfl, rfl, rfl, Guarantee.empty capacity⟩
  rw [Tree.build, new, if_neg (by omega)]
  rfl

/-- Every tree whose weight fits a word builds a summary within its guarantee. -/
theorem build_built (hashing : Hashing) (hash : HashSpec) (positive : 0 < capacity) (tree : Tree) (bounded : tree.total < modulus) :
    ∃ s, tree.build hashing capacity hash = some s ∧ Built hashing capacity hash tree s := by
  induction tree with
  | empty => exact Built.empty positive
  | add tree key w ih =>
    obtain ⟨s, building, built⟩ := ih (by simp only [Tree.total] at bounded; omega)
    obtain ⟨t, added, next⟩ := built.add positive key bounded
    exact ⟨t, by rw [Tree.build, building]; exact added, next⟩
  | addKeyBuf tree key w ih =>
    obtain ⟨s, building, built⟩ := ih (by simp only [Tree.total] at bounded; omega)
    obtain ⟨t, added, next⟩ := built.add positive key bounded
    refine ⟨t, ?_, next.wf, next.ordered, next.capacityIs, next.hashIs, next.totalWeight, next.updates,
      next.guarantee⟩
    rw [Tree.build, building]
    show (s.addKeyBuf hashing key w).bind _ = _
    rw [addKeyBuf_eq_add, added]
    rfl
  | merge left right ihLeft ihRight =>
    obtain ⟨s, buildingLeft, builtLeft⟩ := ihLeft (by simp only [Tree.total] at bounded; omega)
    obtain ⟨t, buildingRight, builtRight⟩ := ihRight (by simp only [Tree.total] at bounded; omega)
    obtain ⟨u, merged, next⟩ := builtLeft.merge builtRight positive bounded
    refine ⟨u, ?_, next⟩
    rw [Tree.build, buildingLeft, buildingRight]
    show (s.mergeFrom hashing t).toOption = some u
    rw [merged]
    rfl

/-! ## Additions along a tree -/

theorem weightsFit (positive : 0 < capacity) (tree : Tree) (bounded : tree.total < modulus) :
    tree.WeightsFit hashing capacity hash := by
  have single : ∀ (tree : Tree) (key : Bytes) (w : Nat), tree.total + w < modulus → ∀ s,
      tree.build hashing capacity hash = some s →
        s.totalWeight + w < modulus ∧ AddFits hashing s key w := by
    intro tree key w bounded s building
    obtain ⟨t, same, built⟩ := build_built hashing hash positive tree (by omega)
    rw [building, Option.some.injEq] at same
    exact (same ▸ built).addFits positive key bounded
  induction tree with
  | empty => trivial
  | add tree key w ih =>
    simp only [Tree.total] at bounded
    exact ⟨ih (by omega), single tree key w bounded⟩
  | addKeyBuf tree key w ih =>
    simp only [Tree.total] at bounded
    exact ⟨ih (by omega), single tree key w bounded⟩
  | merge left right ihLeft ihRight =>
    simp only [Tree.total] at bounded
    refine ⟨ihLeft (by omega), ihRight (by omega), ?_⟩
    intro s t buildingLeft buildingRight
    obtain ⟨s', sameS, builtLeft⟩ :=
      build_built hashing hash positive left (by omega)
    obtain ⟨t', sameT, builtRight⟩ :=
      build_built hashing hash positive right (by omega)
    rw [buildingLeft, Option.some.injEq] at sameS
    rw [buildingRight, Option.some.injEq] at sameT
    exact (sameS ▸ builtLeft).mergeFits (sameT ▸ builtRight) positive bounded

/-- The update counter holds the number of observations exactly as long as it fits a word. -/
theorem updatesFit_iff (positive : 0 < capacity) (tree : Tree) (bounded : tree.total < modulus) :
    tree.UpdatesFit hashing capacity hash ↔ tree.adds < modulus := by
  have counter : ∀ tree : Tree, tree.total < modulus → tree.adds < modulus → ∀ s,
      tree.build hashing capacity hash = some s → s.updates = tree.adds := by
    intro tree bounded few s building
    obtain ⟨t, same, built⟩ := build_built hashing hash positive tree bounded
    rw [building, Option.some.injEq] at same
    rw [same, built.updates, Nat.mod_eq_of_lt few]
  have single : ∀ tree : Tree, tree.total < modulus →
      (tree.UpdatesFit hashing capacity hash ↔ tree.adds < modulus) →
      ((tree.UpdatesFit hashing capacity hash ∧ ∀ s, tree.build hashing capacity hash = some s →
        s.updates + 1 < modulus) ↔ tree.adds + 1 < modulus) := by
    intro tree bounded ih
    obtain ⟨s, building, _⟩ := build_built hashing hash positive tree bounded
    rw [ih]
    constructor
    · rintro ⟨few, fits⟩
      rw [← counter tree bounded few s building]
      exact fits s building
    · intro fits
      refine ⟨by omega, fun s building => ?_⟩
      rw [counter tree bounded (by omega) s building]
      exact fits
  induction tree with
  | empty => exact iff_of_true trivial modulus_pos
  | add tree key w ih =>
    simp only [Tree.total] at bounded
    exact single tree (by omega) (ih (by omega))
  | addKeyBuf tree key w ih =>
    simp only [Tree.total] at bounded
    exact single tree (by omega) (ih (by omega))
  | merge left right ihLeft ihRight =>
    simp only [Tree.total] at bounded
    obtain ⟨s, buildingLeft, _⟩ :=
      build_built hashing hash positive left (by omega)
    obtain ⟨t, buildingRight, _⟩ :=
      build_built hashing hash positive right (by omega)
    have fitsLeft := ihLeft (by omega)
    have fitsRight := ihRight (by omega)
    refine (and_congr fitsLeft (and_congr_left' fitsRight)).trans ?_
    rw [Tree.adds]
    constructor
    · rintro ⟨fewLeft, fewRight, fits⟩
      rw [← counter left (by omega) fewLeft s buildingLeft,
        ← counter right (by omega) fewRight t buildingRight]
      exact fits s t buildingLeft buildingRight
    · intro fits
      refine ⟨by omega, by omega, fun s t buildingLeft buildingRight => ?_⟩
      show s.updates + t.updates < modulus
      rw [counter left (by omega) (by omega) s buildingLeft,
        counter right (by omega) (by omega) t buildingRight]
      exact fits

/-! ## The guarantee -/

theorem counts_sum {s : SpaceSaving} (inv : Indexed hashing s) :
    (s.slots.map (fun slot => slot.entry.count)).sum = ∑ key ∈ s.abs.keys, s.abs.count key := by
  have keys : (s.slots.map Slot.key).Nodup := by
    simpa [contents, List.map_map, Function.comp_def, Slot.content] using inv.distinct
  have same : s.abs.keys = (s.slots.map Slot.key).toFinset := by
    simp [abs, summaryOf, contents, Function.comp_def, Slot.content]
  rw [same, List.sum_toFinset _ keys, List.map_map]
  congr 1
  refine List.map_congr_left (fun slot member => ?_)
  exact (Summary.count_of_entry (summaryOf_entry inv.distinct (c := slot.content)
    (List.mem_map_of_mem member))).symm

/-- The SpaceSaving guarantee over merge trees. `weight` is the true weight of a key and `total` the
weight of all of them; both are plain sums over the tree. -/
theorem tree_guarantee (positive : 0 < capacity) (tree : Tree) (bounded : tree.total < modulus) :
    ∃ s, tree.build hashing capacity hash = some s ∧
      (∀ key e, s.get hashing key = some e → e.error ≤ e.count ∧
        e.count - e.error ≤ tree.weight key ∧ tree.weight key ≤ e.count ∧
        e.error * capacity ≤ tree.total) ∧
      (s.slots.map (fun slot => slot.entry.count)).sum ≤ tree.total ∧
      (∀ key, s.get hashing key = none →
        if s.slots.length < capacity then tree.weight key = 0
        else tree.weight key ≤ s.minimumCount) ∧
      (∀ key, tree.total < tree.weight key * capacity → (s.get hashing key).isSome) ∧
      s.totalWeight = tree.total ∧ tree.WeightsFit hashing capacity hash ∧
      (tree.UpdatesFit hashing capacity hash ↔ tree.adds < modulus) := by
  obtain ⟨s, building, built⟩ := build_built hashing hash positive tree bounded
  have entryOf := get_eq_entry built.wf.indexed
  have card := keys_card built.wf.indexed
  refine ⟨s, building, ?_, ?_, ?_, ?_, built.totalWeight, weightsFit positive tree bounded,
    updatesFit_iff positive tree bounded⟩
  · intro key e found
    rw [entryOf] at found
    have bounds := built.guarantee.bounds found
    exact ⟨bounds.1, bounds.2.1, bounds.2.2, built.guarantee.error found⟩
  · rw [counts_sum built.wf.indexed]
    exact built.guarantee.sum
  · intro key missing
    rw [entryOf] at missing
    have untracked : key ∉ s.abs.keys := by simp [s.abs.mem_keys, missing]
    split
    next room => exact built.guarantee.untracked_zero (by omega) untracked
    next full =>
      have light := built.guarantee.untracked key untracked
      rw [Summary.floor, if_pos (by omega), ← minimumCount_eq built.wf built.ordered] at light
      exact light
  · intro key heavy
    rw [entryOf, ← s.abs.mem_keys]
    exact built.guarantee.tracked_of_heavy heavy

end

/-- Three observations and a merge, with an eviction on the way. -/
def sampleTree : Tree :=
  .merge (.add (.addKeyBuf .empty [1] 3) [2] 5) (.add .empty [3] 2)

theorem sampleTree_guarantee :
    ∃ s, sampleTree.build fsk1 1 (HashSpec.new 7) = some s ∧ s.totalWeight = 10 := by
  obtain ⟨s, building, _, _, _, _, totalWeight, _⟩ :=
    @tree_guarantee fsk1 1 (HashSpec.new 7) (by decide) sampleTree (by decide)
  exact ⟨s, building, totalWeight⟩

/-- A zero-weight observation, merged with itself over and over. -/
def doubled : Nat → Tree
  | 0 => .add .empty [] 0
  | n + 1 => .merge (doubled n) (doubled n)

theorem doubled_total (n : Nat) : (doubled n).total = 0 := by
  induction n with
  | zero => rfl
  | succ n ih => simp [doubled, Tree.total, ih]

theorem doubled_adds (n : Nat) : (doubled n).adds = 2 ^ n := by
  induction n with
  | zero => rfl
  | succ n ih =>
    rw [doubled, Tree.adds, ih]
    omega

/-- Without any weight at all, sixty-four merges overflow the update counter. -/
theorem doubled_updates_overflow :
    (doubled 64).total = 0 ∧ ¬(doubled 64).UpdatesFit fsk1 1 (HashSpec.new 0) := by
  refine ⟨doubled_total 64, ?_⟩
  rw [updatesFit_iff (by decide) _ (by rw [doubled_total]; decide), doubled_adds]
  decide

end FlowSketch.Source.SpaceSaving
