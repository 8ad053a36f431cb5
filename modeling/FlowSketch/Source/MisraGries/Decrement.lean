import FlowSketch.Lib.Tally
import FlowSketch.Source.Snapshots.Counters

/-!
# Decrements and trims

Both branches that shrink a Misra-Gries summary subtract one amount from every counter. What a key loses
is at most that amount, and the summary loses it once for each counter that held as much.
-/

namespace FlowSketch.Source.MisraGries
open Lib.Octets Lib.Word64 Lib.AssocMap Source.Core

section

variable {dec : Nat} {counters : List (Bytes × Nat)}

theorem decrement_cons (dec : Nat) (entry : Bytes × Nat) (counters : List (Bytes × Nat)) :
    decrement dec (entry :: counters) =
      if entry.2 ≤ dec then decrement dec counters
      else (entry.1, entry.2 - dec) :: decrement dec counters := by
  obtain ⟨key, count⟩ := entry
  unfold decrement
  rw [List.map_cons, List.filter_cons]
  by_cases small : count ≤ dec
  · simp [small]
  · have left : count - min count dec = count - dec := by omega
    have positive : 0 < count - dec := by omega
    simp [left, positive, small]

theorem tally_decrement (distinct : (keys counters).Nodup) (key : Bytes) :
    tally (decrement dec counters) key = tally counters key - dec := by
  induction counters with
  | nil => exact (Nat.zero_sub dec).symm
  | cons entry rest ih =>
    rw [keys, List.map_cons, List.nodup_cons] at distinct
    rw [decrement_cons, tally_cons]
    by_cases here : key = entry.1
    · subst here
      have absent : entry.1 ∉ keys (decrement dec rest) := fun member =>
        distinct.1 ((keys_decrement dec rest).subset member)
      rw [if_pos rfl]
      split
      · rw [tally_of_not_mem absent]
        omega
      · rw [tally_cons, if_pos rfl]
    · rw [if_neg here]
      split
      · exact ih distinct.2
      · rw [tally_cons, if_neg here]
        exact ih distinct.2

theorem mem_keys_decrement (distinct : (keys counters).Nodup) (key : Bytes) :
    key ∈ keys (decrement dec counters) ↔ dec < tally counters key := by
  induction counters with
  | nil => simp [decrement, tally]
  | cons entry rest ih =>
    rw [keys, List.map_cons, List.nodup_cons] at distinct
    have absent : entry.1 ∉ keys (decrement dec rest) := fun member =>
      distinct.1 ((keys_decrement dec rest).subset member)
    rw [decrement_cons, tally_cons]
    by_cases here : key = entry.1
    · subst here
      rw [if_pos rfl]
      split
      next small => exact iff_of_false absent (Nat.not_lt.mpr small)
      next large => exact iff_of_true List.mem_cons_self (Nat.lt_of_not_le large)
    · rw [if_neg here]
      split
      · exact ih distinct.2
      · rw [keys, List.map_cons, List.mem_cons, or_iff_right here]
        exact ih distinct.2

/-- Every counter that holds the amount gives it up. -/
theorem mass_decrement (dec : Nat) (counters : List (Bytes × Nat)) :
    mass (decrement dec counters) + counters.countP (fun entry => dec ≤ entry.2) * dec ≤
      mass counters := by
  induction counters with
  | nil => simp [decrement, mass]
  | cons entry rest ih =>
    rw [decrement_cons, List.countP_cons, mass_cons, Nat.add_mul]
    split
    next small =>
      have given : (if decide (dec ≤ entry.2) = true then 1 else 0) * dec ≤ entry.2 := by
        split
        next full => simpa using full
        · simp
      omega
    next large =>
      rw [if_pos (by simpa using Nat.le_of_lt (Nat.lt_of_not_le large)), mass_cons]
      omega

theorem length_decrement (dec : Nat) (counters : List (Bytes × Nat)) :
    (decrement dec counters).length = counters.countP (fun entry => dec < entry.2) := by
  induction counters with
  | nil => rfl
  | cons entry rest ih =>
    rw [decrement_cons, List.countP_cons]
    split
    next small => rw [if_neg (by simpa using small), ih, Nat.add_zero]
    next large => rw [if_pos (by simpa using large), List.length_cons, ih]

theorem decrement_perm {other : List (Bytes × Nat)} (same : counters.Perm other) (dec : Nat) :
    (decrement dec counters).Perm (decrement dec other) :=
  (same.map _).filter _

end

/-! ## Order statistics -/

section

variable {l : List Nat}

theorem countP_ge_of_sorted (sorted : l.Pairwise (· ≤ ·)) {i : Nat} (inside : i < l.length) :
    l.length - i ≤ l.countP (fun x => l.getD i 0 ≤ x) := by
  have above : ∀ x ∈ l.drop i, l.getD i 0 ≤ x := by
    intro x member
    rw [List.drop_eq_getElem_cons inside, List.mem_cons] at member
    rw [List.getD_eq_getElem _ _ inside]
    rcases member with rfl | later
    · exact le_rfl
    · obtain ⟨j, below, rfl⟩ := List.getElem_of_mem later
      rw [List.getElem_drop]
      exact List.pairwise_iff_getElem.mp sorted _ _ _ _ (by omega)
  have all : (l.drop i).countP (fun x => l.getD i 0 ≤ x) = (l.drop i).length :=
    List.countP_eq_length.mpr fun x member => by simpa using above x member
  have split : (l.take i ++ l.drop i).countP (fun x => l.getD i 0 ≤ x) = _ := List.countP_append
  rw [List.take_append_drop, all, List.length_drop] at split
  omega

theorem countP_gt_of_sorted (sorted : l.Pairwise (· ≤ ·)) {i : Nat} (inside : i < l.length) :
    l.countP (fun x => l.getD i 0 < x) ≤ l.length - (i + 1) := by
  have below : ∀ x ∈ l.take (i + 1), x ≤ l.getD i 0 := by
    intro x member
    obtain ⟨j, within, rfl⟩ := List.getElem_of_mem member
    rw [List.length_take] at within
    rw [List.getElem_take, List.getD_eq_getElem _ _ inside]
    rcases Nat.lt_or_ge j i with earlier | last
    · exact List.pairwise_iff_getElem.mp sorted _ _ _ _ earlier
    · obtain rfl : j = i := by omega
      exact le_rfl
  have none : (l.take (i + 1)).countP (fun x => l.getD i 0 < x) = 0 :=
    List.countP_eq_zero.mpr fun x member => by simpa using below x member
  have split : (l.take (i + 1) ++ l.drop (i + 1)).countP (fun x => l.getD i 0 < x) = _ :=
    List.countP_append
  rw [List.take_append_drop, none] at split
  have rest := List.countP_le_length (p := fun x => decide (l.getD i 0 < x)) (l := l.drop (i + 1))
  rw [List.length_drop] at rest
  omega

end

theorem sorted_counts (counts : List Nat) : (counts.mergeSort (· ≤ ·)).Pairwise (· ≤ ·) :=
  Lib.Ranking.sort_pairwise (fun _ _ => decide_eq_true_iff) counts

theorem sorted_counts_perm {a b : List Nat} (same : a.Perm b) :
    a.mergeSort (· ≤ ·) = b.mergeSort (· ≤ ·) :=
  Lib.Ranking.sort_eq_of_perm (fun _ _ => decide_eq_true_iff) same fun _ _ _ _ => id

/-! ## The trim loop -/

/-- The amount one round of the loop subtracts. -/
def trimAmount (capacity : Nat) (counters : List (Bytes × Nat)) : Nat :=
  ((counters.map Prod.snd).mergeSort (· ≤ ·)).getD (counters.length - capacity - 1) 0

section

variable {capacity : Nat} {counters : List (Bytes × Nat)}

theorem trimAmount_counts (long : capacity < counters.length) :
    capacity + 1 ≤ counters.countP (fun entry => trimAmount capacity counters ≤ entry.2) ∧
      counters.countP (fun entry => trimAmount capacity counters < entry.2) ≤ capacity := by
  have sorted := sorted_counts (counters.map Prod.snd)
  have perm := List.mergeSort_perm (counters.map Prod.snd) (fun a b => decide (a ≤ b))
  have length : ((counters.map Prod.snd).mergeSort (· ≤ ·)).length = counters.length := by
    rw [List.length_mergeSort, List.length_map]
  have inside : counters.length - capacity - 1 <
      ((counters.map Prod.snd).mergeSort (· ≤ ·)).length := by omega
  have atLeast := countP_ge_of_sorted sorted inside
  have above := countP_gt_of_sorted sorted inside
  rw [perm.countP_eq, List.countP_map, length] at atLeast above
  exact ⟨Nat.le_trans (by omega) atLeast, Nat.le_trans above (by omega)⟩

/-- One round is enough: it leaves at most as many counters as fit. -/
theorem trimToCapacity_eq {rounds : Nat} (enough : counters.length ≤ rounds) :
    trimToCapacity capacity rounds counters =
      if capacity < counters.length then decrement (trimAmount capacity counters) counters
      else counters := by
  split
  next long =>
    obtain ⟨more, rfl⟩ := Nat.exists_eq_succ_of_ne_zero (show rounds ≠ 0 by omega)
    have short : (decrement (trimAmount capacity counters) counters).length ≤ capacity := by
      rw [length_decrement]
      exact (trimAmount_counts long).2
    rw [trimToCapacity, if_pos long]
    show trimToCapacity capacity more (decrement (trimAmount capacity counters) counters) = _
    cases more with
    | zero => rfl
    | succ more => rw [trimToCapacity, if_neg (Nat.not_lt.mpr short)]
  next short =>
    cases rounds with
    | zero => rfl
    | succ rounds => rw [trimToCapacity, if_neg short]

theorem trimToCapacity_perm {other : List (Bytes × Nat)} (same : counters.Perm other) :
    (trimToCapacity capacity counters.length counters).Perm
      (trimToCapacity capacity other.length other) := by
  have amounts : trimAmount capacity counters = trimAmount capacity other := by
    rw [trimAmount, trimAmount, sorted_counts_perm (same.map Prod.snd), same.length_eq]
  rw [trimToCapacity_eq le_rfl, trimToCapacity_eq le_rfl, same.length_eq, amounts]
  split
  · exact decrement_perm same _
  · exact same

end

end FlowSketch.Source.MisraGries
