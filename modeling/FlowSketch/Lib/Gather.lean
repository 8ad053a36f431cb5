import Mathlib

/-!
# Gathered answers

A coordinator collects answers from numbered parties. The answers come in any order, at most one from
each party, and each fits the party it came from. Once there are as many as parties, sorting them by
their numbers puts every answer beside its party.
-/

namespace FlowSketch.Lib

variable {α β : Type} {number : α → Nat} {Fits Fits' : α → β → Prop} {parties : List β} {answers : List α}

/-- Answers of different parties, each of which fits its party. -/
structure Gathered (number : α → Nat) (Fits : α → β → Prop) (parties : List β) (answers : List α) :
    Prop where
  distinct : (answers.map number).Nodup
  fits : ∀ a ∈ answers, ∃ party, parties[number a]? = some party ∧ Fits a party

namespace Gathered

theorem nil (number : α → Nat) (Fits : α → β → Prop) (parties : List β) :
    Gathered number Fits parties [] := ⟨List.nodup_nil, nofun⟩

theorem sublist {fewer : List α} (gathered : Gathered number Fits parties answers)
    (part : fewer.Sublist answers) : Gathered number Fits parties fewer :=
  ⟨gathered.distinct.sublist (part.map number), fun a member => gathered.fits a (part.subset member)⟩

theorem imp (gathered : Gathered number Fits parties answers)
    (weaker : ∀ a ∈ answers, ∀ party ∈ parties, Fits a party → Fits' a party) :
    Gathered number Fits' parties answers := by
  refine ⟨gathered.distinct, fun a member => ?_⟩
  obtain ⟨party, found, fits⟩ := gathered.fits a member
  exact ⟨party, found, weaker a member party (List.mem_of_getElem? found) fits⟩

/-- No answer fits any party, so there is none. -/
theorem eq_nil (gathered : Gathered number Fits parties answers)
    (none_fits : ∀ a ∈ answers, ∀ party ∈ parties, ¬Fits a party) : answers = [] := by
  refine List.eq_nil_iff_forall_not_mem.mpr fun a member => ?_
  obtain ⟨party, found, fits⟩ := gathered.fits a member
  exact none_fits a member party (List.mem_of_getElem? found) fits

/-- One party moves on, and its answer still fits. -/
theorem set (gathered : Gathered number Fits parties answers) {i : Nat} {party party' : β}
    (stood : parties[i]? = some party) (kept : ∀ a, Fits a party → Fits a party') :
    Gathered number Fits (parties.set i party') answers := by
  refine ⟨gathered.distinct, fun a member => ?_⟩
  obtain ⟨other, found, fits⟩ := gathered.fits a member
  rw [List.getElem?_set]
  split
  next same =>
    have inside : i < parties.length := (List.getElem?_eq_some_iff.mp stood).1
    rw [← same, stood] at found
    rw [if_pos inside]
    exact ⟨party', rfl, kept a (Option.some.inj found ▸ fits)⟩
  next => exact ⟨other, found, fits⟩

/-- A party that had not answered does. -/
theorem answer (gathered : Gathered number Fits parties answers) {a : α} {party : β}
    (stood : parties[number a]? = some party) (fits : Fits a party)
    (first : ∀ other ∈ answers, number other ≠ number a) :
    Gathered number Fits parties (answers ++ [a]) := by
  refine ⟨?_, fun other member => ?_⟩
  · rw [List.map_append, List.nodup_append]
    refine ⟨gathered.distinct, List.nodup_singleton _, fun n listed m single => ?_⟩
    obtain ⟨other, member, rfl⟩ := List.mem_map.mp listed
    rw [List.mem_singleton.mp single]
    exact first other member
  · rcases List.mem_append.mp member with old | new
    · exact gathered.fits other old
    · rw [List.mem_singleton.mp new]
      exact ⟨party, stood, fits⟩

/-- An answer of a party that fits no answer is its first. -/
theorem first (gathered : Gathered number Fits parties answers) {i : Nat} {party : β}
    (stood : parties[i]? = some party) (silent : ∀ a, ¬Fits a party) :
    ∀ other ∈ answers, number other ≠ i := by
  intro other member same
  obtain ⟨found, at_number, fits⟩ := gathered.fits other member
  rw [same, stood] at at_number
  exact silent other (Option.some.inj at_number ▸ fits)

/-- A party moves on and sends its first answer. -/
theorem send {heard waiting : List α} (gathered : Gathered number Fits parties (heard ++ waiting)) {i : Nat}
    {party party' : β} (stood : parties[i]? = some party) (silent : ∀ a, ¬Fits a party) {a : α}
    (sender : number a = i) (fits : Fits a party') :
    Gathered number Fits (parties.set i party') (heard ++ (waiting ++ [a])) := by
  have inside : i < parties.length := (List.getElem?_eq_some_iff.mp stood).1
  have moved := @set _ _ _ _ _ _ gathered i party party' stood fun a fits => absurd fits (silent a)
  rw [← List.append_assoc]
  refine moved.answer ?_ fits fun other member => sender ▸ gathered.first stood silent other member
  rw [sender, List.getElem?_set_self inside]

/-! ## All of them -/

theorem number_lt (gathered : Gathered number Fits parties answers) {a : α} (member : a ∈ answers) :
    number a < parties.length := by
  obtain ⟨_, found, _⟩ := gathered.fits a member
  exact (List.getElem?_eq_some_iff.mp found).1

theorem numbers_subset (gathered : Gathered number Fits parties answers) :
    answers.map number ⊆ List.range parties.length := by
  intro n listed
  obtain ⟨a, member, rfl⟩ := List.mem_map.mp listed
  exact List.mem_range.mpr (gathered.number_lt member)

/-- Different numbers below `n`, and `n` of them. -/
theorem numbers_perm (gathered : Gathered number Fits parties answers)
    (all : answers.length = parties.length) :
    (answers.map number).Perm (List.range parties.length) := by
  refine (gathered.distinct.subperm gathered.numbers_subset).perm_of_length_le ?_
  rw [List.length_map, List.length_range, all]

theorem length_le (gathered : Gathered number Fits parties answers) :
    answers.length ≤ parties.length := by
  have listed : (answers.map number).Subperm (List.range parties.length) :=
    gathered.distinct.subperm gathered.numbers_subset
  have length := listed.length_le
  rwa [List.length_map, List.length_range] at length

/-- When all have answered nothing else was sent. -/
theorem rest_nil {rest : List α} (gathered : Gathered number Fits parties (answers ++ rest))
    (all : answers.length = parties.length) : rest = [] := by
  have total := gathered.length_le
  rw [List.length_append] at total
  exact List.eq_nil_of_length_eq_zero (by omega)

theorem sorted_numbers (gathered : Gathered number Fits parties answers)
    (all : answers.length = parties.length) :
    (answers.mergeSort (fun a b => number a ≤ number b)).map number = List.range parties.length := by
  have sorted : (answers.mergeSort (fun a b => number a ≤ number b)).Pairwise
      (fun a b => decide (number a ≤ number b) = true) := by
    refine List.pairwise_mergeSort (fun a b c first second => ?_) (fun a b => ?_) answers
    · rw [decide_eq_true_eq] at first second ⊢
      exact first.trans second
    · rw [Bool.or_eq_true, decide_eq_true_eq, decide_eq_true_eq]
      exact Nat.le_total _ _
  have rearranged := (List.mergeSort_perm answers (fun a b => number a ≤ number b)).map number
  refine (rearranged.trans (gathered.numbers_perm all)).eq_of_pairwise
    (fun a b _ _ => Nat.le_antisymm) ?_ List.pairwise_le_range
  rw [List.pairwise_map]
  exact sorted.imp of_decide_eq_true

/-- Sorted by their numbers the answers stand beside the parties. -/
theorem beside (gathered : Gathered number Fits parties answers)
    (all : answers.length = parties.length) :
    List.Forall₂ Fits (answers.mergeSort (fun a b => number a ≤ number b)) parties := by
  have numbers := gathered.sorted_numbers all
  have length := congrArg List.length numbers
  rw [List.length_map, List.length_range] at length
  rw [List.forall₂_iff_get]
  refine ⟨length, fun i left right => ?_⟩
  have member := List.mem_mergeSort.mp (List.getElem_mem left)
  obtain ⟨party, found, fits⟩ := gathered.fits _ member
  have here : number (answers.mergeSort (fun a b => number a ≤ number b))[i] = i := by
    have entry := congrArg (fun list => list[i]?) numbers
    simp only [List.getElem?_map, List.getElem?_eq_getElem left, List.getElem?_range right,
      Option.map_some, Option.some.injEq] at entry
    exact entry
  rw [here] at found
  obtain ⟨_, same⟩ := List.getElem?_eq_some_iff.mp found
  rw [List.get_eq_getElem, List.get_eq_getElem, same]
  exact fits

/-- When all have answered every party fits an answer. -/
theorem each (gathered : Gathered number Fits parties answers)
    (all : answers.length = parties.length) : ∀ party ∈ parties, ∃ a ∈ answers, Fits a party := by
  intro party member
  obtain ⟨i, bound, rfl⟩ := List.getElem_of_mem member
  have related := List.forall₂_iff_get.mp (gathered.beside all)
  have left : i < (answers.mergeSort (fun a b => number a ≤ number b)).length := related.1 ▸ bound
  exact ⟨_, List.mem_mergeSort.mp (List.getElem_mem left), related.2 i left bound⟩

end Gathered

end FlowSketch.Lib
