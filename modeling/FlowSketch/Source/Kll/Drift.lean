import FlowSketch.Lib.Ranking
import FlowSketch.Source.Kll.Runs

/-!
# Rank drift

A compaction of level `l` replaces a buffer by about half of it at double weight. The weighted count of
the items below a value moves by at most `2^l`, for either parity bit and for even and odd buffers. Over
a tree the drift is at most the sum of these amounts.
-/

namespace FlowSketch.Source.KllSketch
open Lib Lib.Octets Lib.Word64 Lib.Lists Source.Core

/-! ## Half of a sorted buffer -/

section

variable {p : Nat → Bool} (closed : ∀ {a b : Nat}, a ≤ b → p b = true → p a = true)

include closed in
theorem countP_zero_of_head {first : Nat} {rest : List Nat} (sorted : (first :: rest).Pairwise (· ≤ ·))
    (out : p first = false) : rest.countP p = 0 := by
  rw [List.countP_eq_zero]
  intro item member inside
  rw [closed (List.rel_of_pairwise_cons sorted member) inside] at out
  cases out

include closed in
theorem countP_everyOther {items : List Nat} (sorted : items.Pairwise (· ≤ ·)) :
    (everyOther items).countP p = (items.countP p + 1) / 2 := by
  induction items using everyOther.induct with
  | case1 => simp [everyOther]
  | case2 item =>
    rw [everyOther]
    cases inside : p item <;> simp [inside]
  | case3 first second rest ih =>
    have later := ih (List.Pairwise.of_cons (List.Pairwise.of_cons sorted))
    rw [everyOther]
    cases inside : p first with
    | false =>
      have none := countP_zero_of_head closed sorted inside
      have rest_zero : rest.countP p = 0 := by
        rw [List.countP_cons] at none
        omega
      rw [List.countP_cons, List.countP_cons, later, rest_zero, none]
      simp [inside]
    | true =>
      cases also : p second with
      | false =>
        have none := countP_zero_of_head closed (List.Pairwise.of_cons sorted) also
        rw [List.countP_cons, List.countP_cons, List.countP_cons, later, none]
        simp [inside, also]
      | true =>
        rw [List.countP_cons, List.countP_cons, List.countP_cons, later]
        simp only [inside, also, if_true]
        omega

include closed in
/-- What either parity bit promotes. -/
theorem countP_promoted {items : List Nat} (sorted : items.Pairwise (· ≤ ·)) (bit : Bool) :
    (everyOther (items.drop bit.toNat)).countP p = (items.countP p + (1 - bit.toNat)) / 2 := by
  cases bit with
  | false => exact countP_everyOther closed sorted
  | true =>
    cases items with
    | nil => simp [everyOther]
    | cons first rest =>
      show (everyOther rest).countP p = ((first :: rest).countP p + 0) / 2
      rw [countP_everyOther closed (List.Pairwise.of_cons sorted), List.countP_cons]
      cases inside : p first with
      | false =>
        rw [countP_zero_of_head closed sorted inside]
        rfl
      | true => simp

end

/-! ## Weighted counts -/

/-- The items that satisfy `p`, each with the weight of its level. -/
def weigh (p : Nat → Bool) : List (List Nat) → Nat
  | [] => 0
  | items :: rest => items.countP p + 2 * weigh p rest

section

variable (p : Nat → Bool)

theorem weigh_push (levels : List (List Nat)) : weigh p (levels ++ [[]]) = weigh p levels := by
  induction levels with
  | nil => rfl
  | cons items rest ih => rw [List.cons_append, weigh, ih, weigh]

theorem weigh_join (left right : List (List Nat)) :
    weigh p (joinLevels left right) = weigh p left + weigh p right := by
  induction left generalizing right with
  | nil => cases right <;> simp [joinLevels, weigh]
  | cons mine left ih =>
    cases right with
    | nil => simp [joinLevels, weigh]
    | cons theirs right =>
      rw [joinLevels, weigh, ih, weigh, weigh, List.countP_append]
      omega

theorem weigh_promote {levels : List (List Nat)} {level : Nat} (inside : level + 1 < levels.length)
    (promoted : List Nat) :
    weigh p (promote levels level promoted) + 2 ^ level * (levels.getD level []).countP p =
      weigh p levels + 2 ^ level * (2 * promoted.countP p) := by
  induction levels generalizing level with
  | nil => cases inside
  | cons items rest ih =>
    cases level with
    | zero =>
      cases rest with
      | nil => simp at inside
      | cons next rest =>
        have moved : promote (items :: next :: rest) 0 promoted = [] :: (next ++ promoted) :: rest :=
          rfl
        rw [moved]
        simp only [weigh, List.countP_append, List.countP_nil, List.getD_cons_zero, pow_zero]
        omega
    | succ level =>
      have deeper := @ih level (by simpa using inside)
      have moved : promote (items :: rest) (level + 1) promoted =
          items :: promote rest level promoted := rfl
      rw [moved, weigh, weigh, List.getD_cons_succ, pow_succ', Nat.mul_assoc, Nat.mul_assoc]
      omega

end

/-- What the compactions of these levels may move. -/
def drift (compactions : List Nat) : Nat := (compactions.map (fun level => 2 ^ level)).sum

theorem drift_append (a b : List Nat) : drift (a ++ b) = drift a + drift b := by
  rw [drift, List.map_append, List.sum_append, drift, drift]

/-- Counted by level. -/
theorem drift_eq_sum (compactions : List Nat) :
    drift compactions = ∑ level ∈ compactions.toFinset, compactions.count level * 2 ^ level := by
  rw [drift, Finset.sum_list_map_count]
  rfl

/-- Two numbers no further apart than a bound. -/
def Within (bound a b : Nat) : Prop := a ≤ b + bound ∧ b ≤ a + bound

theorem Within.trans {bound bound' a b c : Nat} (first : Within bound a b)
    (second : Within bound' b c) : Within (bound + bound') a c := by
  unfold Within at *
  omega

section

variable {p : Nat → Bool} (closed : ∀ {a b : Nat}, a ≤ b → p b = true → p a = true)

include closed in
theorem weigh_compacted {levels : List (List Nat)} {level : Nat} (inside : level < levels.length)
    (bit : Bool) : Within (2 ^ level) (weigh p (compacted levels level bit)) (weigh p levels) := by
  have sorted : ((levels.getD level []).mergeSort (· ≤ ·)).Pairwise (· ≤ ·) :=
    Lib.Ranking.sort_pairwise (fun _ _ => decide_eq_true_iff) _
  have count := countP_promoted closed sorted bit
  rw [(List.mergeSort_perm _ _).countP_eq] at count
  have moved : ∀ wide : List (List Nat), level + 1 < wide.length →
      wide.getD level [] = levels.getD level [] → weigh p wide = weigh p levels →
      Within (2 ^ level) (weigh p (promote wide level
        (everyOther (((levels.getD level []).mergeSort (· ≤ ·)).drop bit.toNat)))) (weigh p levels) := by
    intro wide room same total
    have change := weigh_promote p room
      (everyOther (((levels.getD level []).mergeSort (· ≤ ·)).drop bit.toNat))
    rw [same, total, count] at change
    generalize (levels.getD level []).countP p = below at change
    generalize weigh p (promote wide level _) = after at change ⊢
    generalize 2 ^ level = unit at change ⊢
    -- An even count moves exactly; an odd one gains or loses one item of this level.
    obtain ⟨half, even | odd⟩ : ∃ half, below = 2 * half ∨ below = 2 * half + 1 :=
      ⟨below / 2, by omega⟩
    · have exact : (below + (1 - bit.toNat)) / 2 = half := by
        cases bit <;> simp only [Bool.toNat_false, Bool.toNat_true] <;> omega
      rw [exact, ← even] at change
      unfold Within
      omega
    · cases bit with
      | false =>
        have more : (below + (1 - false.toNat)) / 2 = half + 1 := by
          simp only [Bool.toNat_false]
          omega
        have whole : 2 * (half + 1) = below + 1 := by omega
        rw [more, whole, Nat.mul_succ] at change
        unfold Within
        omega
      | true =>
        have less : (below + (1 - true.toNat)) / 2 = half := by
          simp only [Bool.toNat_true]
          omega
        rw [less, odd, Nat.mul_succ] at change
        unfold Within
        omega
  unfold compacted
  by_cases opens : level + 1 = levels.length
  · rw [if_pos opens]
    refine moved _ ?_ (List.getD_append _ _ _ _ inside) (weigh_push p levels)
    rw [List.length_append, List.length_singleton]
    omega
  · rw [if_neg opens]
    exact moved levels (by omega) rfl rfl

include closed in
theorem Pass.drifts {k level : Nat} {levels after : List (List Nat)} {compactions : List Nat}
    (pass : Pass k level levels compactions after) :
    Within (drift compactions) (weigh p after) (weigh p levels) := by
  induction pass with
  | done => exact ⟨le_rfl, le_rfl⟩
  | skip _ _ _ ih => exact ih
  | compact bit inside _ _ ih =>
    have step := weigh_compacted closed inside bit
    have both := ih.trans step
    rw [Nat.add_comm] at both
    exact both

/-- How many of the inserted values satisfy `p`. -/
def inserted (p : Nat → Bool) (tree : UpdateTree Unit Nat) : Nat :=
  tree.entries.countP (fun entry => p entry.2)

include closed in
theorem Runs.drifts {k : Nat} {tree : UpdateTree Unit Nat} {levels : List (List Nat)}
    {compactions : List Nat} (run : Runs k tree levels compactions) :
    Within (drift compactions) (weigh p levels) (inserted p tree) ∧ 0 < levels.length := by
  have grows : ∀ {k level : Nat} {levels after : List (List Nat)} {compactions : List Nat},
      Pass k level levels compactions after → 0 < levels.length → 0 < after.length := by
    intro k level levels after compactions pass
    induction pass with
    | done => exact id
    | skip _ _ _ ih => exact ih
    | compact bit inside _ _ ih =>
      intro _
      refine ih ?_
      rw [compacted, promote_length]
      split
      · simp
      · omega
  induction run with
  | new => exact ⟨⟨le_rfl, le_rfl⟩, Nat.one_pos⟩
  | @insert tree levels after before now value run pass ih =>
    obtain ⟨close, some_level⟩ := ih
    obtain ⟨first, rest, rfl⟩ := List.exists_cons_of_length_pos some_level
    refine ⟨?_, grows pass (by simp)⟩
    have step := pass.drifts closed
    have pushed : weigh p ((first :: rest).modify 0 (fun items => items ++ [value])) =
        weigh p (first :: rest) + if p value then 1 else 0 := by
      simp only [List.modify_zero_cons, weigh, List.countP_append, List.countP_singleton]
      omega
    have counted : inserted p (tree.update () value) = inserted p tree + if p value then 1 else 0 := by
      rw [inserted, UpdateTree.entries, List.countP_append, List.countP_singleton, inserted]
    rw [drift_append, counted]
    rw [pushed] at step
    unfold Within at *
    omega
  | @merge left right mine theirs after before before' now runLeft runRight pass ihLeft ihRight =>
    obtain ⟨close, some_level⟩ := ihLeft
    obtain ⟨close', _⟩ := ihRight
    have step := pass.drifts closed
    have counted : inserted p (left.merge right) = inserted p left + inserted p right := by
      rw [inserted, UpdateTree.entries, List.countP_append, inserted, inserted]
    refine ⟨?_, grows pass (by rw [join_length]; omega)⟩
    rw [drift_append, drift_append, counted]
    rw [weigh_join] at step
    unfold Within at *
    omega

end

/-! ## Items -/

theorem compacted_items {P : Nat → Prop} {levels : List (List Nat)} {level : Nat}
    (inside : level < levels.length) (all : ∀ items ∈ levels, ∀ item ∈ items, P item) (bit : Bool) :
    ∀ items ∈ compacted levels level bit, ∀ item ∈ items, P item := by
  have promoted : ∀ item ∈ everyOther (((levels.getD level []).mergeSort (· ≤ ·)).drop bit.toNat),
      P item := by
    intro item member
    have kept := List.mem_mergeSort.mp (List.mem_of_mem_drop (everyOther_subset _ member))
    rw [List.getD_eq_getElem _ _ inside] at kept
    exact all _ (List.getElem_mem inside) item kept
  refine forall_promote (fun items member => ?_) (by simp) (fun items held item member => ?_) level
  · split at member
    · rcases List.mem_append.mp member with old | new
      · exact all items old
      · rw [List.mem_singleton.mp new]
        simp
    · exact all items member
  · rcases List.mem_append.mp member with old | new
    · exact held item old
    · exact promoted item new

theorem Pass.items {P : Nat → Prop} {k level : Nat} {levels after : List (List Nat)}
    {compactions : List Nat} (pass : Pass k level levels compactions after)
    (all : ∀ items ∈ levels, ∀ item ∈ items, P item) : ∀ items ∈ after, ∀ item ∈ items, P item := by
  induction pass with
  | done => exact all
  | skip _ _ _ ih => exact ih all
  | compact bit inside _ _ ih => exact ih (compacted_items inside all bit)

/-- Every retained item was inserted. -/
theorem Runs.items {k : Nat} {tree : UpdateTree Unit Nat} {levels : List (List Nat)}
    {compactions : List Nat} (run : Runs k tree levels compactions) :
    ∀ items ∈ levels, ∀ item ∈ items, ((), item) ∈ tree.entries := by
  induction run with
  | new => simp
  | insert run pass ih =>
    refine pass.items (forall_modify (fun items member item inside => ?_) 0 fun items held => ?_)
    · exact List.mem_append_left _ (ih items member item inside)
    · intro item member
      rcases List.mem_append.mp member with old | new
      · exact held item old
      · rw [List.mem_singleton.mp new]
        exact List.mem_append_right _ (List.mem_singleton.mpr rfl)
  | merge _ _ pass ihLeft ihRight =>
    refine pass.items (forall_join (fun a b mine theirs item member => ?_)
      (fun items member item inside => List.mem_append_left _ (ihLeft items member item inside))
      (fun items member item inside => List.mem_append_right _ (ihRight items member item inside)))
    rcases List.mem_append.mp member with old | new
    · exact mine item old
    · exact theirs item new

/-! ## The bound -/

/-- The weighted number of retained items at most `v`. -/
def rankOf (levels : List (List Nat)) (v : Nat) : Nat := weigh (fun item => item ≤ v) levels

/-- The weight of all retained items. -/
def retained (levels : List (List Nat)) : Nat := weigh (fun _ => true) levels

/-- Rank drift over merge trees: of every run, whatever the parity bits, and so of the sketch the code
builds. -/
theorem kll_rank_drift {hashing : Hashing} {k : Nat} (hash : HashSpec) (enough : minLevelCapacity ≤ k)
    (tree : UpdateTree Unit Nat) :
    (∀ levels compactions, Runs k tree levels compactions →
      (∀ v, Within (∑ level ∈ compactions.toFinset, compactions.count level * 2 ^ level)
        (rankOf levels v) (tree.entries.countP (fun entry => entry.2 ≤ v))) ∧
      Within (∑ level ∈ compactions.toFinset, compactions.count level * 2 ^ level)
        (retained levels) tree.updates ∧
      ∀ items ∈ levels, ∀ item ∈ items, ((), item) ∈ tree.entries) ∧
    ∃ s compactions, ofTree hashing k hash tree = .ok (s, compactions) ∧
      Runs k tree s.levels compactions ∧ s.n = tree.updates % modulus := by
  refine ⟨fun levels compactions run => ?_, ?_⟩
  · rw [← drift_eq_sum]
    have all : inserted (fun _ => true) tree = tree.updates := by
      clear run
      induction tree with
      | empty => rfl
      | update tree key value ih =>
        rw [inserted, UpdateTree.entries, List.countP_append, UpdateTree.updates, ← ih]
        rfl
      | merge left right ihLeft ihRight =>
        rw [inserted, UpdateTree.entries, List.countP_append, UpdateTree.updates, ← ihLeft, ← ihRight]
        rfl
    refine ⟨fun v => ?_, ?_, run.items⟩
    · refine (run.drifts (p := fun item => item ≤ v) ?_).1
      intro a b below inside
      simp only [decide_eq_true_eq] at inside ⊢
      omega
    · have whole := (run.drifts (p := fun _ => true) (fun _ _ => rfl)).1
      rwa [all] at whole
  · obtain ⟨s, compactions, built, _, _, count, run⟩ := ofTree_runs hashing hash enough tree
    exact ⟨s, compactions, built, run, count⟩

theorem twoItems_drift :
    ∃ s compactions, ofTree fsk1 8 (HashSpec.new 1) ((UpdateTree.empty.update () 5).update () 3) =
      .ok (s, compactions) ∧ s.n = 2 := by
  obtain ⟨_, s, compactions, built, _, count⟩ := @kll_rank_drift fsk1 8 (HashSpec.new 1) (by decide)
    ((UpdateTree.empty.update () 5).update () 3)
  exact ⟨s, compactions, built, count⟩

end FlowSketch.Source.KllSketch
