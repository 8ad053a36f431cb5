import FlowSketch.Lib.Ranking

/-!
# Weighted lists

A list of items with weights stands for the multiset in which every item is repeated as often as it
weighs. The item at a rank of the sorted multiset is found without building it, by adding up the weights.
-/

namespace FlowSketch.Lib.Spread

variable {α : Type}

/-- Every item as often as it weighs. -/
def spread (weighted : List (α × Nat)) : List α :=
  weighted.flatMap (fun entry => List.replicate entry.2 entry.1)

theorem spread_cons (entry : α × Nat) (rest : List (α × Nat)) :
    spread (entry :: rest) = List.replicate entry.2 entry.1 ++ spread rest := rfl

theorem spread_length (weighted : List (α × Nat)) :
    (spread weighted).length = (weighted.map Prod.snd).sum := by
  simp [spread, List.length_flatMap]

theorem spread_eq_nil {weighted : List (α × Nat)} (positive : ∀ entry ∈ weighted, 0 < entry.2) :
    spread weighted = [] ↔ weighted = [] := by
  constructor
  · intro none
    cases weighted with
    | nil => rfl
    | cons entry rest =>
      have heavy := positive entry List.mem_cons_self
      rw [spread_cons, List.append_eq_nil_iff, List.replicate_eq_nil_iff] at none
      omega
  · rintro rfl
    rfl

theorem spread_perm {weighted weighted' : List (α × Nat)} (same : weighted.Perm weighted') :
    (spread weighted).Perm (spread weighted') := same.flatMap_right _

theorem spread_pairwise [LinearOrder α] {weighted : List (α × Nat)}
    (sorted : weighted.Pairwise (fun a b => a.1 ≤ b.1)) : (spread weighted).Pairwise (· ≤ ·) := by
  induction weighted with
  | nil => exact List.Pairwise.nil
  | cons entry rest ih =>
    rw [spread_cons, List.pairwise_append]
    refine ⟨by simp, ih sorted.of_cons, ?_⟩
    intro mine copy theirs other
    obtain ⟨later, member, other⟩ := List.mem_flatMap.mp other
    rw [List.eq_of_mem_replicate copy, List.eq_of_mem_replicate other]
    exact List.rel_of_pairwise_cons sorted member

/-- The item of this rank, counted from one; past the end the last one. -/
def ranked (items : List α) (rank : Nat) : Option α := items[min rank items.length - 1]?

theorem ranked_of_le {items : List α} {rank : Nat} (inside : rank ≤ items.length) :
    ranked items rank = items[rank - 1]? := by
  rw [ranked, Nat.min_eq_left inside]

theorem ranked_of_gt {items : List α} {rank : Nat} (past : items.length < rank) :
    ranked items rank = items.getLast? := by
  rw [ranked, Nat.min_eq_right past.le, List.getLast?_eq_getElem?]

theorem ranked_mem {items : List α} (nonempty : items ≠ []) (rank : Nat) :
    ∃ item ∈ items, ranked items rank = some item := by
  have some_item := List.length_pos_iff.mpr nonempty
  have inside : min rank items.length - 1 < items.length := by omega
  exact ⟨_, List.getElem_mem inside, List.getElem?_eq_getElem inside⟩

theorem ranked_mono [LinearOrder α] {items : List α} (sorted : items.Pairwise (· ≤ ·))
    {rank rank' : Nat} (below : rank ≤ rank') {item item' : α} (first : ranked items rank = some item)
    (second : ranked items rank' = some item') : item ≤ item' := by
  obtain ⟨inside, rfl⟩ := List.getElem?_eq_some_iff.mp first
  obtain ⟨inside', rfl⟩ := List.getElem?_eq_some_iff.mp second
  exact sorted.rel_get_of_le (a := ⟨_, inside⟩) (b := ⟨_, inside'⟩) (Fin.mk_le_mk.mpr (by omega))

/-- The rank falls among the copies of the first item, or it counts on after them. -/
theorem ranked_spread_cons {entry : α × Nat} {rest : List (α × Nat)} {rank : Nat}
    (heavy : 0 < entry.2) :
    ranked (spread (entry :: rest)) rank =
      if rank ≤ entry.2 ∨ spread rest = [] then some entry.1
      else ranked (spread rest) (rank - entry.2) := by
  have total : (spread (entry :: rest)).length = entry.2 + (spread rest).length := by
    rw [spread_cons, List.length_append, List.length_replicate]
  unfold ranked
  split
  next here =>
    have among : min rank (spread (entry :: rest)).length - 1 < entry.2 := by
      rw [total]
      rcases here with early | alone
      · omega
      · rw [alone, List.length_nil]
        omega
    generalize min rank (spread (entry :: rest)).length - 1 = i at among ⊢
    rw [spread_cons, List.getElem?_append_left (by rwa [List.length_replicate]),
      List.getElem?_replicate_of_lt among]
  next later =>
    rw [not_or, Nat.not_le] at later
    have more := List.length_pos_iff.mpr later.2
    have after : min rank (spread (entry :: rest)).length - 1 =
        entry.2 + (min (rank - entry.2) (spread rest).length - 1) := by
      rw [total]
      omega
    rw [after, spread_cons, List.getElem?_append_right (by rw [List.length_replicate]; omega),
      List.length_replicate, Nat.add_sub_cancel_left]

end FlowSketch.Lib.Spread
