import Mathlib
import FlowSketch.Lib.CounterSummary

/-!
# What a counter summary guarantees

`Guarantee` relates a summary to the true weights of the observed keys. It holds of the empty
summary and is kept by `add` and by `merge`, so it holds after any tree of them. The total weight is
the only budget: the counts never sum past it, and so neither errors nor the charge for a missing
key can pass their share of it.
-/

namespace FlowSketch.Lib.CounterSummary
open Ranking

variable {κ δ : Type}

structure Guarantee (capacity : Nat) (s : Summary κ) (weight : κ → Nat) (total : Nat) : Prop where
  size : s.keys.card ≤ capacity
  bounds : ∀ {k e}, s.entry k = some e →
    e.error ≤ e.count ∧ e.count - e.error ≤ weight k ∧ weight k ≤ e.count
  error : ∀ {k e}, s.entry k = some e → e.error * capacity ≤ total
  sum : ∑ k ∈ s.keys, s.count k ≤ total
  untracked : ∀ k, k ∉ s.keys → weight k ≤ s.floor capacity

theorem Guarantee.empty (capacity : Nat) :
    Guarantee capacity (Summary.empty : Summary κ) (fun _ => 0) 0 where
  size := Nat.zero_le _
  bounds := by intro k e tracked; cases tracked
  error := by intro k e tracked; cases tracked
  sum := by simp [Summary.empty]
  untracked := by intro k _; exact Nat.zero_le _

namespace Guarantee

variable {capacity : Nat} {s : Summary κ} {weight : κ → Nat} {total : Nat}

theorem floor_mul_le (g : Guarantee capacity s weight total) :
    s.floor capacity * capacity ≤ total :=
  (Summary.floor_mul_le_sum g.size).trans g.sum

theorem count_le (g : Guarantee capacity s weight total) {k : κ} {e : Entry}
    (tracked : s.entry k = some e) : e.count ≤ total := by
  rw [← Summary.count_of_entry tracked]
  exact (Finset.single_le_sum (fun _ _ => Nat.zero_le _) (Summary.mem_of_entry tracked)).trans g.sum

theorem floor_le_total (g : Guarantee capacity s weight total) (positive : 0 < capacity) :
    s.floor capacity ≤ total :=
  (Nat.le_mul_of_pos_right _ positive).trans g.floor_mul_le

/-- A key heavier than its share of the total cannot be missing. -/
theorem tracked_of_heavy (g : Guarantee capacity s weight total) {k : κ}
    (heavy : total < weight k * capacity) : k ∈ s.keys := by
  by_contra missing
  have light := Nat.mul_le_mul_right capacity (g.untracked k missing)
  exact absurd (light.trans g.floor_mul_le) (not_le.mpr heavy)

/-- An untracked key weighs nothing until the summary is full. -/
theorem untracked_zero (g : Guarantee capacity s weight total) (room : s.keys.card < capacity)
    {k : κ} (missing : k ∉ s.keys) : weight k = 0 := by
  have light := g.untracked k missing
  rw [Summary.floor, if_neg (by omega)] at light
  omega

end Guarantee

/-! ## One observation -/

/-- Raising one tracked count, or inserting a key, never lowers the floor of a summary that keeps
its size. -/
theorem floor_mono {capacity : Nat} {s t : Summary κ} (size : s.keys.card = t.keys.card)
    (above : ∀ k ∈ t.keys, s.floor capacity ≤ t.count k) :
    s.floor capacity ≤ t.floor capacity := by
  by_cases full : capacity ≤ t.keys.card
  · rcases t.keys.eq_empty_or_nonempty with none | tracked
    · have nothing : s.floor capacity = 0 := by
        have : s.keys = ∅ := by rw [← Finset.card_eq_zero, size, none, Finset.card_empty]
        simp [Summary.floor, Summary.minCount, this]
      rw [nothing]
      exact Nat.zero_le _
    · rw [Summary.floor.eq_def capacity t, if_pos full]
      exact Summary.le_minCount tracked above
  · rw [Summary.floor, if_neg (by omega)]
    exact Nat.zero_le _

section Add

variable [LinearOrder κ] [LinearOrder δ] {capacity : Nat} {s : Summary κ} {weight : κ → Nat} {total : Nat}

theorem Guarantee.add_tracked (g : Guarantee capacity s weight total) {k : κ} {e : Entry}
    (tracked : s.entry k = some e) (w : Nat) :
    Guarantee capacity (s.insert k { e with count := e.count + w })
      (Function.update weight k (weight k + w)) (total + w) := by
  have member := Summary.mem_of_entry tracked
  have old := Summary.count_of_entry tracked
  have same : (s.insert k { e with count := e.count + w }).keys = s.keys :=
    Finset.insert_eq_of_mem member
  have raised : ∀ other, s.count other ≤
      (s.insert k { e with count := e.count + w }).count other := by
    intro other
    by_cases here : other = k
    · subst here
      rw [Summary.insert_count_same, old]
      exact Nat.le_add_right _ _
    · rw [Summary.insert_count_other _ _ here]
  refine ⟨by rw [same]; exact g.size, ?_, ?_, ?_, ?_⟩
  · intro other entry found
    rw [Summary.insert_entry] at found
    by_cases here : other = k
    · subst here
      rw [if_pos rfl, Option.some.injEq] at found
      subst found
      have bounds := g.bounds tracked
      simp only [Function.update_self]
      omega
    · rw [if_neg here] at found
      rw [Function.update_of_ne here]
      exact g.bounds found
  · intro other entry found
    rw [Summary.insert_entry] at found
    refine Nat.le_add_right_of_le ?_
    by_cases here : other = k
    · subst here
      rw [if_pos rfl, Option.some.injEq] at found
      subst found
      have share := g.error tracked
      exact share
    · rw [if_neg here] at found
      exact g.error found
  · rw [same, ← Finset.add_sum_erase _ _ member, Summary.insert_count_same]
    have rest : ∑ x ∈ s.keys.erase k, (s.insert k { e with count := e.count + w }).count x =
        ∑ x ∈ s.keys.erase k, s.count x :=
      Finset.sum_congr rfl (fun x inside =>
        Summary.insert_count_other _ _ (Finset.ne_of_mem_erase inside))
    have whole := Finset.add_sum_erase s.keys s.count member
    have bound := g.sum
    rw [rest]
    simp only
    omega
  · intro other missing
    rw [same] at missing
    have apart : other ≠ k := fun here => missing (here ▸ member)
    rw [Function.update_of_ne apart]
    refine (g.untracked other missing).trans (floor_mono (by rw [same]) ?_)
    intro x inside
    rw [same] at inside
    exact (Summary.floor_le inside).trans (raised x)

theorem Guarantee.add_room (g : Guarantee capacity s weight total) {k : κ}
    (missing : k ∉ s.keys) (room : s.keys.card < capacity) (w : Nat) :
    Guarantee capacity (s.insert k { count := w, error := 0 })
      (Function.update weight k (weight k + w)) (total + w) := by
  have zero : ∀ other, other ∉ s.keys → weight other = 0 := fun other => g.untracked_zero room
  refine ⟨?_, ?_, ?_, ?_, ?_⟩
  · rw [Summary.insert_keys, Finset.card_insert_of_notMem missing]
    exact room
  · intro other entry found
    rw [Summary.insert_entry] at found
    by_cases here : other = k
    · subst here
      rw [if_pos rfl, Option.some.injEq] at found
      subst found
      rw [Function.update_self, zero other missing]
      simp
    · rw [if_neg here] at found
      rw [Function.update_of_ne here]
      exact g.bounds found
  · intro other entry found
    rw [Summary.insert_entry] at found
    by_cases here : other = k
    · rw [if_pos here, Option.some.injEq] at found
      subst found
      simp
    · rw [if_neg here] at found
      exact Nat.le_add_right_of_le (g.error found)
  · rw [Summary.insert_keys, Finset.sum_insert missing, Summary.insert_count_same]
    have rest : ∑ x ∈ s.keys, (s.insert k { count := w, error := 0 }).count x =
        ∑ x ∈ s.keys, s.count x :=
      Finset.sum_congr rfl (fun x inside =>
        Summary.insert_count_other _ _ (fun here => missing (here ▸ inside)))
    have bound := g.sum
    rw [rest]
    simp only
    omega
  · intro other absent
    rw [Summary.insert_keys, Finset.mem_insert, not_or] at absent
    rw [Function.update_of_ne absent.1, zero other absent.2]
    exact Nat.zero_le _

theorem Guarantee.add_evict (g : Guarantee capacity s weight total) (digest : κ → δ) {k : κ}
    (missing : k ∉ s.keys) (full : capacity ≤ s.keys.card) (tracked : s.keys.Nonempty) (w : Nat) :
    Guarantee capacity ((s.erase (s.leastKey digest tracked)).insert k
        { count := s.minCount + w, error := s.minCount })
      (Function.update weight k (weight k + w)) (total + w) := by
  have victim := (s.leastKey_spec digest tracked).1
  have least := s.leastKey_count digest tracked
  generalize s.leastKey digest tracked = m at victim least
  have fresh : k ∉ s.keys.erase m := fun inside => missing (Finset.mem_of_mem_erase inside)
  have level : s.floor capacity = s.minCount := by rw [Summary.floor, if_pos full]
  have share : s.minCount * capacity ≤ total := level ▸ g.floor_mul_le
  have card : (Insert.insert k (s.keys.erase m)).card = s.keys.card := by
    rw [Finset.card_insert_of_notMem fresh, Finset.card_erase_of_mem victim]
    have := Finset.card_pos.mpr tracked
    omega
  have kept : ∀ other ∈ s.keys.erase m,
      ((s.erase m).insert k { count := s.minCount + w, error := s.minCount }).count other =
        s.count other := by
    intro other inside
    have apart : other ≠ k := fun here => missing (here ▸ Finset.mem_of_mem_erase inside)
    rw [Summary.insert_count_other _ _ apart,
      Summary.erase_count_other _ (Finset.ne_of_mem_erase inside)]
  refine ⟨?_, ?_, ?_, ?_, ?_⟩
  · rw [Summary.insert_keys, Summary.erase_keys, card]
    exact g.size
  · intro other entry found
    rw [Summary.insert_entry, Summary.erase_entry] at found
    by_cases here : other = k
    · subst here
      rw [if_pos rfl, Option.some.injEq] at found
      subst found
      have light := g.untracked other missing
      rw [level] at light
      simp only [Function.update_self]
      omega
    · rw [if_neg here] at found
      rw [Function.update_of_ne here]
      split at found
      · cases found
      · exact g.bounds found
  · intro other entry found
    rw [Summary.insert_entry, Summary.erase_entry] at found
    refine Nat.le_add_right_of_le ?_
    by_cases here : other = k
    · rw [if_pos here, Option.some.injEq] at found
      subst found
      exact share
    · rw [if_neg here] at found
      split at found
      · cases found
      · exact g.error found
  · rw [Summary.insert_keys, Summary.erase_keys, Finset.sum_insert fresh,
      Summary.insert_count_same, Finset.sum_congr rfl kept]
    have whole : s.count m + ∑ x ∈ s.keys.erase m, s.count x = ∑ x ∈ s.keys, s.count x :=
      Finset.add_sum_erase s.keys s.count victim
    have bound := g.sum
    rw [least] at whole
    show s.minCount + w + ∑ x ∈ s.keys.erase m, s.count x ≤ total + w
    omega
  · intro other absent
    rw [Summary.insert_keys, Summary.erase_keys, Finset.mem_insert, not_or] at absent
    rw [Function.update_of_ne absent.1]
    have light : weight other ≤ s.minCount := by
      by_cases evicted : other = m
      · subst evicted
        obtain ⟨e, found⟩ := Summary.entry_of_mem victim
        rw [← least, Summary.count_of_entry found]
        exact (g.bounds found).2.2
      · have gone : other ∉ s.keys := fun inside =>
          absent.2 (Finset.mem_erase.mpr ⟨evicted, inside⟩)
        exact level ▸ g.untracked other gone
    refine (level ▸ light).trans (floor_mono ?_ ?_)
    · rw [Summary.insert_keys, Summary.erase_keys, card]
    · intro x inside
      rw [Summary.insert_keys, Summary.erase_keys, Finset.mem_insert] at inside
      rw [level]
      rcases inside with here | inside
      · rw [here, Summary.insert_count_same]
        exact Nat.le_add_right _ _
      · rw [kept x inside]
        exact Summary.minCount_le (Finset.mem_of_mem_erase inside)

/-- One observation keeps the guarantee, whichever of the three branches it takes. -/
theorem Guarantee.add (g : Guarantee capacity s weight total) (digest : κ → δ) (k : κ) (w : Nat)
    (positive : 0 < capacity) :
    Guarantee capacity (s.add capacity digest k w)
      (Function.update weight k (weight k + w)) (total + w) := by
  unfold Summary.add
  cases tracked : s.entry k with
  | some e => exact g.add_tracked tracked w
  | none =>
    have missing : k ∉ s.keys := by simp [s.mem_keys, tracked]
    simp only
    split
    next full => exact g.add_evict digest missing full.1 full.2 w
    next open_ =>
      refine g.add_room missing ?_ w
      by_contra full
      exact open_ ⟨by omega, Finset.card_pos.mp (by omega)⟩

end Add

/-! ## Merging -/

section Merge

variable [LinearOrder κ] {capacity : Nat} {a b : Summary κ} {weightA weightB : κ → Nat} {totalA totalB : Nat}

omit [LinearOrder κ] in
theorem Guarantee.charged_bounds (g : Guarantee capacity a weightA totalA) (k : κ) :
    (a.charged capacity k).error ≤ (a.charged capacity k).count ∧
      (a.charged capacity k).count - (a.charged capacity k).error ≤ weightA k ∧
      weightA k ≤ (a.charged capacity k).count ∧
      (a.charged capacity k).error * capacity ≤ totalA ∧
      a.floor capacity ≤ (a.charged capacity k).count := by
  unfold Summary.charged
  cases tracked : a.entry k with
  | some e =>
    have bounds := g.bounds tracked
    have low : a.floor capacity ≤ a.count k := Summary.floor_le (Summary.mem_of_entry tracked)
    rw [Summary.count_of_entry tracked] at low
    exact ⟨bounds.1, bounds.2.1, bounds.2.2, g.error tracked, low⟩
  | none =>
    have missing : k ∉ a.keys := by simp [a.mem_keys, tracked]
    simpa using ⟨g.untracked k missing, g.floor_mul_le⟩

/-- The charge for untracked keys is already paid for: over any set of at most `capacity` keys the
charged counts of one side stay within that side's weight. -/
theorem Guarantee.charged_sum (g : Guarantee capacity a weightA totalA) (T : Finset κ)
    (size : T.card ≤ capacity) : ∑ k ∈ T, (a.charged capacity k).count ≤ totalA := by
  have split : ∑ k ∈ T, (a.charged capacity k).count =
      ∑ k ∈ T ∩ a.keys, a.count k + (T \ a.keys).card * a.floor capacity := by
    rw [← Finset.sum_inter_add_sum_sdiff T a.keys]
    congr 1
    · refine Finset.sum_congr rfl (fun k inside => ?_)
      obtain ⟨e, found⟩ := Summary.entry_of_mem (Finset.mem_inter.mp inside).2
      simp [Summary.charged, found, Summary.count_of_entry found]
    · refine Finset.sum_const_nat (fun k outside => ?_)
      have none := Summary.entry_of_not_mem (Finset.mem_sdiff.mp outside).2
      simp [Summary.charged, none]
  have unused : (T \ a.keys).card * a.floor capacity ≤ ∑ k ∈ a.keys \ T, a.count k := by
    by_cases full : capacity ≤ a.keys.card
    · have room : (T \ a.keys).card ≤ (a.keys \ T).card :=
        (Finset.card_sdiff_le_card_sdiff_iff).mpr (size.trans full)
      calc (T \ a.keys).card * a.floor capacity
          ≤ (a.keys \ T).card * a.floor capacity := Nat.mul_le_mul_right _ room
        _ ≤ ∑ k ∈ a.keys \ T, a.count k :=
          Finset.card_nsmul_le_sum _ _ _
            (fun k inside => Summary.floor_le (Finset.mem_sdiff.mp inside).1)
    · rw [Summary.floor, if_neg full, Nat.mul_zero]
      exact Nat.zero_le _
  have whole := Finset.sum_inter_add_sum_sdiff a.keys T a.count
  rw [Finset.inter_comm] at whole
  have bound := g.sum
  omega

theorem union_count {capacityA capacityB : Nat} {k : κ} (member : k ∈ a.keys ∪ b.keys) :
    (Summary.union capacityA capacityB a b).count k =
      (a.charged capacityA k).count + (b.charged capacityB k).count := by
  have found : (Summary.union capacityA capacityB a b).entry k =
      some { count := (a.charged capacityA k).count + (b.charged capacityB k).count,
             error := (a.charged capacityA k).error + (b.charged capacityB k).error } :=
    if_pos member
  exact Summary.count_of_entry found

theorem trim_count {s : Summary κ} {n : Nat} {k : κ} (kept : k ∈ (s.trim n).keys) :
    (s.trim n).count k = s.count k := by
  have early := (Finset.mem_filter.mp kept).2
  unfold Summary.count Summary.trim
  simp only [if_pos early]

theorem merge_keys_card (capacityA capacityB : Nat) (a b : Summary κ) :
    (Summary.merge capacityA capacityB a b).keys.card = min capacityA (a.keys ∪ b.keys).card :=
  card_firstRanked (Summary.retention_injective _) _ _

/-- A merge keeps the guarantee for the joined observations. -/
theorem Guarantee.merge (ga : Guarantee capacity a weightA totalA)
    (gb : Guarantee capacity b weightB totalB) (positive : 0 < capacity) :
    Guarantee capacity (Summary.merge capacity capacity a b)
      (fun k => weightA k + weightB k) (totalA + totalB) := by
  have card := merge_keys_card capacity capacity a b
  have inside : ∀ k ∈ (Summary.merge capacity capacity a b).keys, k ∈ a.keys ∪ b.keys :=
    fun k kept => (Finset.mem_filter.mp kept).1
  have counts : ∀ k ∈ (Summary.merge capacity capacity a b).keys,
      (Summary.merge capacity capacity a b).count k =
        (a.charged capacity k).count + (b.charged capacity k).count := by
    intro k kept
    rw [Summary.merge, trim_count kept, union_count (inside k kept)]
  have found : ∀ {k e}, (Summary.merge capacity capacity a b).entry k = some e →
      e.count = (a.charged capacity k).count + (b.charged capacity k).count ∧
      e.error = (a.charged capacity k).error + (b.charged capacity k).error := by
    intro k e tracked
    have kept := Summary.mem_of_entry tracked
    unfold Summary.merge Summary.trim Summary.union at tracked
    simp only [if_pos (inside k kept)] at tracked
    split at tracked
    · cases tracked
      exact ⟨rfl, rfl⟩
    · cases tracked
  refine ⟨by omega, ?_, ?_, ?_, ?_⟩
  · intro k e tracked
    obtain ⟨count, error⟩ := found tracked
    have left := ga.charged_bounds k
    have right := gb.charged_bounds k
    rw [count, error]
    omega
  · intro k e tracked
    obtain ⟨_, error⟩ := found tracked
    have left := ga.charged_bounds k
    have right := gb.charged_bounds k
    rw [error, Nat.add_mul]
    omega
  · rw [Finset.sum_congr rfl counts, Finset.sum_add_distrib]
    exact Nat.add_le_add (ga.charged_sum _ (by omega)) (gb.charged_sum _ (by omega))
  · intro k missing
    by_cases full : capacity ≤ (a.keys ∪ b.keys).card
    · -- the merge is full, and every retained count is at least the charge for this key
      have tracked : (Summary.merge capacity capacity a b).keys.Nonempty :=
        Finset.card_pos.mp (by omega)
      rw [Summary.floor, if_pos (by omega)]
      refine Summary.le_minCount tracked (fun other kept => ?_)
      rw [counts other kept]
      by_cases member : k ∈ a.keys ∪ b.keys
      · have order := lt_of_kept_of_dropped
          (Summary.retention_injective (Summary.union capacity capacity a b)) kept member missing
        have smaller := Summary.count_le_of_retention_lt order
        rw [union_count member, union_count (inside other kept)] at smaller
        have left := ga.charged_bounds k
        have right := gb.charged_bounds k
        omega
      · rw [Finset.mem_union, not_or] at member
        have left := ga.untracked k member.1
        have right := gb.untracked k member.2
        have lowA := (ga.charged_bounds other).2.2.2.2
        have lowB := (gb.charged_bounds other).2.2.2.2
        omega
    · -- nothing was dropped, so neither side was full
      have smallA : a.keys.card ≤ (a.keys ∪ b.keys).card :=
        Finset.card_le_card Finset.subset_union_left
      have smallB : b.keys.card ≤ (a.keys ∪ b.keys).card :=
        Finset.card_le_card Finset.subset_union_right
      have gone : k ∉ a.keys ∪ b.keys := by
        intro member
        refine missing (Finset.mem_filter.mpr ⟨member, ?_⟩)
        exact lt_of_le_of_lt (Finset.card_filter_le _ _) (not_le.mp full)
      rw [Finset.mem_union, not_or] at gone
      rw [ga.untracked_zero (by omega) gone.1, gb.untracked_zero (by omega) gone.2]
      exact Nat.zero_le _

end Merge

end FlowSketch.Lib.CounterSummary
