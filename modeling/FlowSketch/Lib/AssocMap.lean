import FlowSketch.Lib.Ranking

/-!
# Hash maps as association lists

A hash map is a list of pairs with distinct keys; the list order is one order in which the map may
iterate. `lookup` does not depend on that order, and `insert` overwrites in place or adds at the end.
-/

namespace FlowSketch.Lib.AssocMap
open Ranking

variable {κ ν : Type}

abbrev keys (m : List (κ × ν)) : List κ := m.map Prod.fst

section

variable [BEq κ] [LawfulBEq κ]

theorem lookup_eq_some_iff {m : List (κ × ν)} (distinct : (keys m).Nodup) {key : κ} {value : ν} :
    m.lookup key = some value ↔ (key, value) ∈ m := by
  induction m with
  | nil => simp
  | cons entry rest ih =>
    obtain ⟨k, v⟩ := entry
    rw [keys, List.map_cons, List.nodup_cons] at distinct
    rw [List.lookup_cons, List.mem_cons, Prod.mk.injEq]
    by_cases same : key = k
    · subst same
      have absent : (key, value) ∉ rest := fun member =>
        distinct.1 (List.mem_map.mpr ⟨_, member, rfl⟩)
      simp only [beq_self_eq_true, Option.some.injEq, true_and, absent, or_false]
      exact eq_comm
    · simp only [beq_eq_false_iff_ne.mpr same, same, false_and, false_or]
      exact ih distinct.2

theorem lookup_eq_none_iff {m : List (κ × ν)} {key : κ} : m.lookup key = none ↔ key ∉ keys m := by
  rw [List.lookup_eq_none_iff]
  simp only [keys, List.mem_map, not_exists, not_and, bne_iff_ne, ne_eq]
  exact ⟨fun differs entry member same => differs entry member same.symm,
    fun differs entry member same => differs entry member same.symm⟩

/-- The iteration order does not matter to lookups. -/
theorem lookup_perm {m m' : List (κ × ν)} (same : m.Perm m') (distinct : (keys m).Nodup) (key : κ) :
    m.lookup key = m'.lookup key := by
  have distinct' : (keys m').Nodup := (same.map Prod.fst).nodup_iff.mp distinct
  refine Option.ext fun value => ?_
  rw [lookup_eq_some_iff distinct, lookup_eq_some_iff distinct', same.mem_iff]

/-- Maps with the same lookups list the same pairs. -/
theorem perm_of_lookup {m m' : List (κ × ν)} (distinct : (keys m).Nodup)
    (distinct' : (keys m').Nodup) (same : ∀ key, m.lookup key = m'.lookup key) : m.Perm m' := by
  refine (List.perm_ext_iff_of_nodup distinct.of_map distinct'.of_map).mpr fun (key, value) => ?_
  rw [← lookup_eq_some_iff distinct, ← lookup_eq_some_iff distinct', same]

end

variable [DecidableEq κ]

def insert (key : κ) (value : ν) : List (κ × ν) → List (κ × ν)
  | [] => [(key, value)]
  | entry :: rest =>
    if entry.1 = key then (key, value) :: rest else entry :: insert key value rest

theorem keys_insert (key : κ) (value : ν) (m : List (κ × ν)) :
    keys (insert key value m) = if key ∈ keys m then keys m else keys m ++ [key] := by
  induction m with
  | nil => rfl
  | cons entry rest ih =>
    rw [insert]
    by_cases same : entry.1 = key
    · rw [if_pos same]
      simp [same]
    · rw [if_neg same, keys, List.map_cons, ← keys, ih]
      by_cases inside : key ∈ keys rest
      · simp [inside]
      · simp [inside, Ne.symm same]

theorem insert_nodup {key : κ} {value : ν} {m : List (κ × ν)} (distinct : (keys m).Nodup) :
    (keys (insert key value m)).Nodup := by
  rw [keys_insert]
  split
  · exact distinct
  next absent => exact List.nodup_append.mpr ⟨distinct, by simp, by grind⟩

theorem insert_of_not_mem {key : κ} {value : ν} {m : List (κ × ν)} (absent : key ∉ keys m) :
    insert key value m = m ++ [(key, value)] := by
  induction m with
  | nil => rfl
  | cons entry rest ih =>
    rw [keys, List.map_cons, List.mem_cons, not_or] at absent
    rw [insert, if_neg (Ne.symm absent.1), ih absent.2, List.cons_append]

theorem mem_insert {key : κ} {value : ν} {m : List (κ × ν)} (distinct : (keys m).Nodup)
    {entry : κ × ν} :
    entry ∈ insert key value m ↔ entry = (key, value) ∨ entry ∈ m ∧ entry.1 ≠ key := by
  induction m with
  | nil => simp [insert]
  | cons first rest ih =>
    rw [keys, List.map_cons, List.nodup_cons] at distinct
    rw [insert]
    by_cases same : first.1 = key
    · have others : ∀ other ∈ rest, other.1 ≠ key := fun other member equal =>
        distinct.1 (List.mem_map.mpr ⟨other, member, equal.trans same.symm⟩)
      rw [if_pos same]
      grind
    · rw [if_neg same, List.mem_cons, ih distinct.2]
      grind

theorem lookup_insert [BEq κ] [LawfulBEq κ] (key : κ) (value : ν) (m : List (κ × ν)) (other : κ) :
    (insert key value m).lookup other = if other = key then some value else m.lookup other := by
  induction m with
  | nil =>
    rw [insert, List.lookup_cons]
    by_cases same : other = key
    · simp [same]
    · simp [same, beq_eq_false_iff_ne.mpr same]
  | cons entry rest ih =>
    obtain ⟨k, v⟩ := entry
    rw [insert]
    by_cases replaced : k = key
    · subst replaced
      rw [if_pos rfl, List.lookup_cons, List.lookup_cons]
      by_cases same : other = k
      · simp [same]
      · simp [same, beq_eq_false_iff_ne.mpr same]
    · rw [if_neg replaced, List.lookup_cons, List.lookup_cons, ih]
      by_cases same : other = k
      · subst same
        simp [replaced]
      · simp [beq_eq_false_iff_ne.mpr same]

theorem insert_perm {m m' : List (κ × ν)} (same : m.Perm m') (distinct : (keys m).Nodup) (key : κ)
    (value : ν) : (insert key value m).Perm (insert key value m') := by
  have distinct' : (keys m').Nodup := (same.map Prod.fst).nodup_iff.mp distinct
  refine perm_of_lookup (insert_nodup distinct) (insert_nodup distinct') fun other => ?_
  rw [lookup_insert, lookup_insert, lookup_perm same distinct]

theorem filter_key_of_not_mem {m : List (κ × ν)} {key : κ} (absent : key ∉ keys m) :
    m.filter (fun entry => entry.1 ≠ key) = m :=
  List.filter_eq_self.mpr fun _ member =>
    decide_eq_true fun same => absent (same ▸ List.mem_map_of_mem member)

/-- A map is one of its entries and the rest. -/
theorem perm_cons_filter [BEq κ] [LawfulBEq κ] {m : List (κ × ν)} (distinct : (keys m).Nodup)
    {key : κ} {value : ν} (found : m.lookup key = some value) :
    m.Perm ((key, value) :: m.filter (fun entry => entry.1 ≠ key)) := by
  induction m with
  | nil => cases found
  | cons entry rest ih =>
    obtain ⟨k, v⟩ := entry
    rw [keys, List.map_cons, List.nodup_cons] at distinct
    rw [List.lookup_cons] at found
    by_cases same : key = k
    · subst same
      rw [beq_self_eq_true] at found
      cases found
      rw [List.filter_cons_of_neg (by simp), filter_key_of_not_mem distinct.1]
    · rw [beq_eq_false_iff_ne.mpr same] at found
      rw [List.filter_cons_of_pos (by simpa using Ne.symm same)]
      exact ((ih distinct.2 found).cons (k, v)).trans (List.Perm.swap _ _ _)

theorem filter_insert (key : κ) (value : ν) (m : List (κ × ν)) :
    (insert key value m).filter (fun entry => entry.1 ≠ key) =
      m.filter (fun entry => entry.1 ≠ key) := by
  induction m with
  | nil => simp [insert]
  | cons entry rest ih =>
    rw [insert]
    split
    next same => rw [List.filter_cons_of_neg (by simp), List.filter_cons_of_neg (by simp [same])]
    next apart =>
      rw [List.filter_cons_of_pos (by simpa using apart), List.filter_cons_of_pos (by simpa using apart),
        ih]

theorem insert_perm_cons [BEq κ] [LawfulBEq κ] {m : List (κ × ν)} (distinct : (keys m).Nodup) (key : κ)
    (value : ν) :
    (insert key value m).Perm ((key, value) :: m.filter (fun entry => entry.1 ≠ key)) := by
  rw [← filter_insert key value m]
  exact perm_cons_filter (insert_nodup distinct) (by rw [lookup_insert, if_pos rfl])

theorem insert_length_le (key : κ) (value : ν) (m : List (κ × ν)) :
    (insert key value m).length ≤ m.length + 1 := by
  induction m with
  | nil => exact le_rfl
  | cons entry rest ih =>
    rw [insert]
    split
    · simp
    · simpa using ih

theorem insert_length_of_mem {key : κ} {value : ν} {m : List (κ × ν)} (present : key ∈ keys m) :
    (insert key value m).length = m.length := by
  have lengths := congrArg List.length (keys_insert key value m)
  rw [if_pos present] at lengths
  simpa using lengths

theorem forall_insert {P : κ × ν → Prop} {key : κ} {value : ν} {m : List (κ × ν)}
    (all : ∀ entry ∈ m, P entry) (new : P (key, value)) : ∀ entry ∈ insert key value m, P entry := by
  induction m with
  | nil => simpa [insert] using new
  | cons first rest ih =>
    rw [List.forall_mem_cons] at all
    rw [insert]
    split
    · exact List.forall_mem_cons.mpr ⟨new, all.2⟩
    · exact List.forall_mem_cons.mpr ⟨all.1, ih all.2⟩

/-! ## Listing by key -/

section

variable [LinearOrder κ]

omit [DecidableEq κ] in
/-- Sorting by key leaves nothing of the iteration order. -/
theorem sort_by_key_perm {m m' : List (κ × ν)} (same : m.Perm m') (distinct : (keys m).Nodup) :
    m.mergeSort (fun left right => left.1 ≤ right.1) =
      m'.mergeSort (fun left right => left.1 ≤ right.1) :=
  sort_eq_of_perm (fun _ _ => decide_eq_true_iff) same fun _ memberA _ memberB =>
    List.inj_on_of_nodup_map distinct memberA memberB

end

end FlowSketch.Lib.AssocMap
