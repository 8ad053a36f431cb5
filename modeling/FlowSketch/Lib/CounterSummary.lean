import Mathlib
import FlowSketch.Lib.Ranking

/-!
# Counter summaries

A counter summary is a finite map from keys to a count and the part of it that may be error. `add`
and `merge` are the textbook steps of a bounded summary: an untracked key takes the place of the
least tracked key and inherits its count, a merge charges a key missing from one side that side's
least count and keeps the largest counts.

`Guarantee` is the bound both steps keep. Its part on the sum of the counts is what makes it
inductive: the least count of a full summary is at most the weight divided by the capacity.
-/

namespace FlowSketch.Lib.CounterSummary
open Ranking

structure Entry where
  count : Nat
  error : Nat
  deriving DecidableEq, Repr, Inhabited

/-- A finite map from keys to entries; `keys` is its domain. -/
structure Summary (κ : Type) where
  entry : κ → Option Entry
  keys : Finset κ
  mem_keys : ∀ k, k ∈ keys ↔ (entry k).isSome

variable {κ δ : Type}

namespace Summary

@[ext] theorem ext {a b : Summary κ} (same : ∀ k, a.entry k = b.entry k) : a = b := by
  obtain ⟨entryA, keysA, memA⟩ := a
  obtain ⟨entryB, keysB, memB⟩ := b
  obtain rfl : entryA = entryB := funext same
  obtain rfl : keysA = keysB := by
    ext k
    rw [memA, memB]
  rfl

def count (s : Summary κ) (k : κ) : Nat := ((s.entry k).map Entry.count).getD 0

def empty : Summary κ := ⟨fun _ => none, ∅, by simp⟩

instance : Inhabited (Summary κ) := ⟨empty⟩

theorem count_of_entry {s : Summary κ} {k : κ} {e : Entry} (tracked : s.entry k = some e) :
    s.count k = e.count := by
  simp [count, tracked]

theorem mem_of_entry {s : Summary κ} {k : κ} {e : Entry} (tracked : s.entry k = some e) :
    k ∈ s.keys := by
  simp [s.mem_keys, tracked]

theorem entry_of_not_mem {s : Summary κ} {k : κ} (untracked : k ∉ s.keys) :
    s.entry k = none := by
  simpa [s.mem_keys] using untracked

theorem entry_of_mem {s : Summary κ} {k : κ} (tracked : k ∈ s.keys) :
    ∃ e, s.entry k = some e :=
  Option.isSome_iff_exists.mp ((s.mem_keys k).mp tracked)

/-- The smallest tracked count, zero for the empty summary. -/
def minCount (s : Summary κ) : Nat :=
  if tracked : s.keys.Nonempty then s.keys.inf' tracked s.count else 0

theorem minCount_le {s : Summary κ} {k : κ} (tracked : k ∈ s.keys) : s.minCount ≤ s.count k := by
  rw [minCount, dif_pos ⟨k, tracked⟩]
  exact Finset.inf'_le _ tracked

theorem le_minCount {s : Summary κ} {bound : Nat} (tracked : s.keys.Nonempty)
    (below : ∀ k ∈ s.keys, bound ≤ s.count k) : bound ≤ s.minCount := by
  rw [minCount, dif_pos tracked]
  exact Finset.le_inf' _ _ below

theorem minCount_eq {s : Summary κ} {m : κ} (tracked : m ∈ s.keys)
    (least : ∀ k ∈ s.keys, s.count m ≤ s.count k) : s.minCount = s.count m :=
  le_antisymm (minCount_le tracked) (le_minCount ⟨m, tracked⟩ least)

/-- The most an untracked key may have weighed: nothing until the summary is full, the smallest
tracked count from then on. -/
def floor (capacity : Nat) (s : Summary κ) : Nat :=
  if capacity ≤ s.keys.card then s.minCount else 0

theorem floor_le {capacity : Nat} {s : Summary κ} {k : κ} (tracked : k ∈ s.keys) :
    s.floor capacity ≤ s.count k := by
  unfold floor
  split
  · exact minCount_le tracked
  · exact Nat.zero_le _

/-- A full summary holds its capacity times its least count. -/
theorem floor_mul_le_sum {capacity : Nat} {s : Summary κ} (size : s.keys.card ≤ capacity) :
    s.floor capacity * capacity ≤ ∑ k ∈ s.keys, s.count k := by
  unfold floor
  split
  next full =>
    obtain rfl : capacity = s.keys.card := by omega
    rw [Nat.mul_comm]
    exact Finset.card_nsmul_le_sum _ _ _ (fun k tracked => minCount_le tracked)
  next => simp

variable [LinearOrder κ]

def insert (s : Summary κ) (k : κ) (e : Entry) : Summary κ where
  entry := Function.update s.entry k (some e)
  keys := Insert.insert k s.keys
  mem_keys := by
    intro other
    by_cases same : other = k
    · simp [same]
    · simp [same, s.mem_keys]

def erase (s : Summary κ) (k : κ) : Summary κ where
  entry := Function.update s.entry k none
  keys := s.keys.erase k
  mem_keys := by
    intro other
    by_cases same : other = k
    · simp [same]
    · simp [same, s.mem_keys]

@[simp] theorem insert_keys (s : Summary κ) (k : κ) (e : Entry) :
    (s.insert k e).keys = Insert.insert k s.keys := rfl

@[simp] theorem erase_keys (s : Summary κ) (k : κ) : (s.erase k).keys = s.keys.erase k := rfl

theorem insert_entry (s : Summary κ) (k other : κ) (e : Entry) :
    (s.insert k e).entry other = if other = k then some e else s.entry other := by
  simp [insert, Function.update_apply]

theorem erase_entry (s : Summary κ) (k other : κ) :
    (s.erase k).entry other = if other = k then none else s.entry other := by
  simp [erase, Function.update_apply]

@[simp] theorem insert_count_same (s : Summary κ) (k : κ) (e : Entry) :
    (s.insert k e).count k = e.count := by
  simp [count, insert_entry]

theorem insert_count_other (s : Summary κ) {k other : κ} (e : Entry) (apart : other ≠ k) :
    (s.insert k e).count other = s.count other := by
  simp [count, insert_entry, apart]

theorem erase_count_other (s : Summary κ) {k other : κ} (apart : other ≠ k) :
    (s.erase k).count other = s.count other := by
  simp [count, erase_entry, apart]

variable [LinearOrder δ]

/-- The eviction order: by count, then by digest, then by the key itself. -/
def rank (digest : κ → δ) (s : Summary κ) (k : κ) : Nat ×ₗ δ ×ₗ κ :=
  toLex (s.count k, toLex (digest k, k))

omit [LinearOrder κ] [LinearOrder δ] in
theorem rank_injective (digest : κ → δ) (s : Summary κ) : Function.Injective (s.rank digest) := by
  intro a b same
  have pairs := congrArg (fun r => (ofLex (ofLex r).2).2) same
  exact pairs

theorem count_le_of_rank_le {digest : κ → δ} {s : Summary κ} {a b : κ}
    (below : s.rank digest a ≤ s.rank digest b) : s.count a ≤ s.count b := by
  rcases Prod.Lex.toLex_le_toLex.mp below with less | same
  · exact less.le
  · exact same.1.le

/-- The tracked key that comes first in the eviction order. -/
def leastKey (digest : κ → δ) (s : Summary κ) (tracked : s.keys.Nonempty) : κ :=
  (ofLex (ofLex ((s.keys.image (s.rank digest)).min' (tracked.image _))).2).2

theorem leastKey_spec (digest : κ → δ) (s : Summary κ) (tracked : s.keys.Nonempty) :
    s.leastKey digest tracked ∈ s.keys ∧
      ∀ k ∈ s.keys, s.rank digest (s.leastKey digest tracked) ≤ s.rank digest k := by
  have least := (s.keys.image (s.rank digest)).min'_mem (tracked.image _)
  obtain ⟨m, member, isLeast⟩ := Finset.mem_image.mp least
  have same : s.leastKey digest tracked = m := by
    unfold leastKey
    rw [← isLeast]
    rfl
  rw [same, isLeast]
  exact ⟨member, fun k belongs => Finset.min'_le _ _ (Finset.mem_image_of_mem _ belongs)⟩

/-- The evicted key is the only minimum: distinct keys never tie in the eviction order. -/
theorem leastKey_unique {digest : κ → δ} {s : Summary κ} {m : κ} (member : m ∈ s.keys)
    (least : ∀ k ∈ s.keys, s.rank digest m ≤ s.rank digest k) :
    s.leastKey digest ⟨m, member⟩ = m := by
  have spec := s.leastKey_spec digest ⟨m, member⟩
  exact rank_injective digest s (le_antisymm (spec.2 m member) (least _ spec.1))

theorem leastKey_count (digest : κ → δ) (s : Summary κ) (tracked : s.keys.Nonempty) :
    s.count (s.leastKey digest tracked) = s.minCount := by
  have spec := s.leastKey_spec digest tracked
  exact (minCount_eq spec.1 (fun k belongs => count_le_of_rank_le (spec.2 k belongs))).symm

/-- One weighted observation of `k`. -/
def add (capacity : Nat) (digest : κ → δ) (s : Summary κ) (k : κ) (weight : Nat) : Summary κ :=
  match s.entry k with
  | some e => s.insert k { e with count := e.count + weight }
  | none =>
    if full : capacity ≤ s.keys.card ∧ s.keys.Nonempty then
      (s.erase (s.leastKey digest full.2)).insert k
        { count := s.minCount + weight, error := s.minCount }
    else s.insert k { count := weight, error := 0 }

/-- The entry of `k`, or the charge for a key the summary does not track. -/
def charged (capacity : Nat) (s : Summary κ) (k : κ) : Entry :=
  (s.entry k).getD { count := s.floor capacity, error := s.floor capacity }

/-- Union of two summaries with missing keys charged; nothing is dropped yet. -/
def union (capacityA capacityB : Nat) (a b : Summary κ) : Summary κ where
  entry k :=
    if k ∈ a.keys ∪ b.keys then
      some { count := (a.charged capacityA k).count + (b.charged capacityB k).count,
             error := (a.charged capacityA k).error + (b.charged capacityB k).error }
    else none
  keys := a.keys ∪ b.keys
  mem_keys := by
    intro k
    by_cases member : k ∈ a.keys ∪ b.keys <;> simp [member]

/-- The retention order of a merge: larger counts first, then smaller keys. -/
def retention (s : Summary κ) (k : κ) : Natᵒᵈ ×ₗ κ := toLex (OrderDual.toDual (s.count k), k)

omit [LinearOrder κ] in
theorem retention_injective (s : Summary κ) : Function.Injective s.retention := by
  intro a b same
  exact congrArg (fun r => (ofLex r).2) same

theorem count_le_of_retention_lt {s : Summary κ} {a b : κ}
    (before : s.retention a < s.retention b) : s.count b ≤ s.count a := by
  rcases Prod.Lex.toLex_lt_toLex.mp before with less | same
  · exact (OrderDual.toDual_lt_toDual.mp less).le
  · exact (OrderDual.toDual_inj.mp same.1).ge

/-- Keep the `capacity` first keys of the retention order. -/
def trim (capacity : Nat) (s : Summary κ) : Summary κ where
  entry k := if precede s.retention s.keys k < capacity then s.entry k else none
  keys := firstRanked s.retention s.keys capacity
  mem_keys := by
    intro k
    by_cases early : precede s.retention s.keys k < capacity <;>
      simp [firstRanked, early, s.mem_keys]

def merge (capacityA capacityB : Nat) (a b : Summary κ) : Summary κ :=
  (union capacityA capacityB a b).trim capacityA

omit [LinearOrder κ] in
theorem charged_empty {capacity : Nat} (positive : 0 < capacity) (k : κ) :
    (empty : Summary κ).charged capacity k = { count := 0, error := 0 } := by
  have floor : (empty : Summary κ).floor capacity = 0 := by
    unfold Summary.floor
    exact if_neg (by simp only [empty, Finset.card_empty]; omega)
  rw [charged, floor]
  rfl

/-- Merging into an empty summary copies the other one, if it fits. -/
theorem empty_merge {capacity capacityB : Nat} {s : Summary κ} (positive : 0 < capacity)
    (size : s.keys.card ≤ capacity) : merge capacity capacityB empty s = s := by
  have inside : ∀ k, k ∈ (empty : Summary κ).keys ∪ s.keys ↔ k ∈ s.keys := by
    intro k
    simp [empty]
  refine Summary.ext fun k => ?_
  show (if precede _ (empty.keys ∪ s.keys) k < capacity then
    (if k ∈ empty.keys ∪ s.keys then _ else none) else none) = _
  by_cases tracked : k ∈ s.keys
  · obtain ⟨e, found⟩ := entry_of_mem tracked
    have early : precede (union capacity capacityB empty s).retention (empty.keys ∪ s.keys) k <
        capacity := by
      refine (Finset.card_lt_card ?_).trans_le
        ((Finset.card_le_card
          (Finset.union_subset (Finset.empty_subset _) (Finset.Subset.refl _))).trans size)
      refine (Finset.ssubset_iff_of_subset (Finset.filter_subset _ _)).mpr
        ⟨k, (inside k).mpr tracked, fun member => ?_⟩
      exact lt_irrefl _ (Finset.mem_filter.mp member).2
    rw [if_pos early, if_pos ((inside k).mpr tracked),
      charged_empty positive]
    simp [charged, found]
  · rw [if_neg (fun member => tracked ((inside k).mp member)), ite_self, entry_of_not_mem tracked]

end Summary

end FlowSketch.Lib.CounterSummary
