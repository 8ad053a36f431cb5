import Mathlib

/-!
# Rankings

Sorting by a rank, and the first elements of a finite set in a ranking: `firstRanked g U n` keeps the
elements of `U` that fewer than `n` elements precede in the order of `g`. On a list sorted by `g` this
is the prefix of length `n`, which is how code computes it.
-/

namespace FlowSketch.Lib.Ranking

section

variable {α β : Type} [LinearOrder β] {rank : α → β} {before : α → α → Bool}
variable (ranked : ∀ a b, before a b = true ↔ rank a ≤ rank b)

include ranked

theorem sort_pairwise (items : List α) :
    (items.mergeSort before).Pairwise (fun a b => rank a ≤ rank b) := by
  have sorted : (items.mergeSort before).Pairwise (fun a b => before a b = true) := by
    apply List.pairwise_mergeSort
    · intro a b c
      simp only [ranked]
      exact le_trans
    · intro a b
      rw [Bool.or_eq_true, ranked, ranked]
      exact le_total _ _
  exact sorted.imp fun {a b} => (ranked a b).mp

/-- A sort leaves nothing of the order of items that their ranks tell apart. -/
theorem sort_eq_of_perm {items items' : List α} (same : items.Perm items')
    (apart : ∀ a ∈ items, ∀ b ∈ items, rank a = rank b → a = b) :
    items.mergeSort before = items'.mergeSort before := by
  have sorted := List.mergeSort_perm items before
  have sorted' := List.mergeSort_perm items' before
  refine List.Perm.eq_of_pairwise ?_ (sort_pairwise ranked items) (sort_pairwise ranked items')
    (sorted.trans (same.trans sorted'.symm))
  intro a b memberA memberB below above
  exact apart a (sorted.mem_iff.mp memberA) b (same.mem_iff.mpr (sorted'.mem_iff.mp memberB))
    (le_antisymm below above)

/-- The first `n` of a sorted list with additions are the list itself exactly when the additions rank
after all of it and it has `n` items already. -/
theorem take_sort_append_iff {kept extra : List α} {n : Nat}
    (sorted : kept.Pairwise (fun a b => rank a ≤ rank b)) (short : kept.length ≤ n)
    (apart : ∀ a ∈ kept ++ extra, ∀ b ∈ kept ++ extra, rank a = rank b → a = b) :
    ((kept ++ extra).mergeSort before).take n = kept ↔
      ∀ b ∈ extra, kept.length = n ∧ ∀ a ∈ kept, rank a ≤ rank b := by
  have perm := List.mergeSort_perm (kept ++ extra) before
  have order := sort_pairwise ranked (kept ++ extra)
  constructor
  · intro first b member
    have cut := List.take_append_drop n ((kept ++ extra).mergeSort before)
    rw [first] at cut
    rw [← cut] at perm order
    have dropped := (List.perm_append_left_iff kept).mp perm
    have inside := dropped.mem_iff.mpr member
    refine ⟨?_, fun a earlier => (List.pairwise_append.mp order).2.2 a earlier b inside⟩
    have some_dropped := List.length_pos_of_mem inside
    have length := congrArg List.length first
    rw [List.length_drop] at some_dropped
    rw [List.length_take] at length
    omega
  · intro after
    have whole : (kept ++ extra).mergeSort before = kept ++ extra.mergeSort before := by
      have added := List.mergeSort_perm extra before
      refine List.Perm.eq_of_pairwise (fun a b memberA memberB below above => ?_) order ?_
        (perm.trans (added.symm.append_left kept))
      · refine apart a (perm.mem_iff.mp memberA) b ?_ (le_antisymm below above)
        exact (added.append_left kept).mem_iff.mp memberB
      · refine List.pairwise_append.mpr ⟨sorted, sort_pairwise ranked extra, fun a earlier b later => ?_⟩
        exact (after b (List.mem_mergeSort.mp later)).2 a earlier
    rw [whole]
    cases extra with
    | nil => rw [List.mergeSort_nil, List.append_nil, List.take_of_length_le short]
    | cons b extra => rw [← (after b List.mem_cons_self).1, List.take_left]

end

variable {κ β : Type} [DecidableEq κ] [LinearOrder β]

def precede (g : κ → β) (U : Finset κ) (k : κ) : Nat := (U.filter (fun other => g other < g k)).card

def firstRanked (g : κ → β) (U : Finset κ) (n : Nat) : Finset κ :=
  U.filter (fun k => precede g U k < n)

omit [DecidableEq κ] in
theorem precede_lt_of_lt {g : κ → β} {U : Finset κ} {a b : κ} (member : a ∈ U) (less : g a < g b) :
    precede g U a < precede g U b := by
  apply Finset.card_lt_card
  refine (Finset.ssubset_iff_of_subset ?_).mpr ⟨a, by simp [member, less], by simp⟩
  intro k belongs
  rw [Finset.mem_filter] at belongs ⊢
  exact ⟨belongs.1, belongs.2.trans less⟩

omit [DecidableEq κ] in
/-- A kept element ranks strictly before every dropped one. -/
theorem lt_of_kept_of_dropped {g : κ → β} (injective : Function.Injective g) {U : Finset κ}
    {n : Nat} {kept dropped : κ} (inside : kept ∈ firstRanked g U n) (member : dropped ∈ U)
    (outside : dropped ∉ firstRanked g U n) : g kept < g dropped := by
  rw [firstRanked, Finset.mem_filter] at inside outside
  rcases lt_trichotomy (g kept) (g dropped) with less | same | greater
  · exact less
  · exact absurd (injective same ▸ inside) outside
  · have earlier := precede_lt_of_lt member greater
    exact absurd ⟨member, by omega⟩ outside

theorem precede_insert_last {g : κ → β} {U : Finset κ} {last k : κ} (before : g k ≤ g last) :
    precede g (insert last U) k = precede g U k := by
  unfold precede
  rw [Finset.filter_insert, if_neg (not_lt.mpr before)]

/-- Adding an element after all others changes nothing but possibly keeps that element too. -/
theorem firstRanked_insert_last {g : κ → β} {U : Finset κ} {last : κ} (n : Nat)
    (before : ∀ k ∈ U, g k < g last) :
    firstRanked g (insert last U) n =
      if U.card < n then insert last (firstRanked g U n) else firstRanked g U n := by
  have all : precede g (insert last U) last = U.card := by
    rw [precede_insert_last (le_refl _), precede, Finset.filter_true_of_mem before]
  ext k
  rw [firstRanked, Finset.mem_filter, Finset.mem_insert]
  by_cases here : k = last
  · subst here
    have fresh : k ∉ U := fun member => lt_irrefl _ (before k member)
    rw [all]
    split
    next room => simp [room]
    next full => simp [full, firstRanked, fresh]
  · have inner : k ∈ U → (precede g (insert last U) k < n ↔ precede g U k < n) := by
      intro member
      rw [precede_insert_last (before k member).le]
    split <;> simp [here, firstRanked] <;> exact fun member => inner member

theorem card_firstRanked {g : κ → β} (injective : Function.Injective g) (U : Finset κ) (n : Nat) :
    (firstRanked g U n).card = min n U.card := by
  induction U using Finset.induction_on_max_value g with
  | empty => simp [firstRanked]
  | insert last U fresh below ih =>
    have before : ∀ k ∈ U, g k < g last := by
      intro k member
      refine lt_of_le_of_ne (below k member) (fun same => fresh ?_)
      exact injective same ▸ member
    rw [firstRanked_insert_last n before, Finset.card_insert_of_notMem fresh]
    have absent : last ∉ firstRanked g U n := fun member => fresh (Finset.mem_filter.mp member).1
    split
    · rw [Finset.card_insert_of_notMem absent, ih]
      omega
    · rw [ih]
      omega

/-- Truncating a sorted list keeps its first ranked elements. -/
theorem mem_take_iff {g : κ → β} (l : List κ) (n : Nat)
    (sorted : l.Pairwise (fun a b => g a < g b)) (k : κ) :
    k ∈ l.take n ↔ k ∈ firstRanked g l.toFinset n := by
  induction l using List.reverseRecOn with
  | nil =>
    rw [firstRanked, Finset.mem_filter]
    simp
  | append_singleton l last ih =>
    rw [List.pairwise_append] at sorted
    have before : ∀ k ∈ l.toFinset, g k < g last := by
      intro k member
      exact sorted.2.2 k (List.mem_toFinset.mp member) last (by simp)
    have nodup : l.Nodup := by
      refine sorted.1.imp ?_
      intro a b less same
      exact lt_irrefl (g a) (same ▸ less)
    have both : (l ++ [last]).toFinset = insert last l.toFinset := by
      ext other
      simp
    rw [both, firstRanked_insert_last n before, List.toFinset_card_of_nodup nodup,
      List.take_append, List.mem_append, ih sorted.1]
    split
    next room =>
      have some : n - l.length ≠ 0 := by omega
      obtain ⟨extra, more⟩ := Nat.exists_eq_succ_of_ne_zero some
      simp [more, or_comm]
    next full =>
      have none : n - l.length = 0 := by omega
      simp [none]

end FlowSketch.Lib.Ranking
