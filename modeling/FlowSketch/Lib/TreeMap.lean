import FlowSketch.Lib.AssocMap
import FlowSketch.Lib.SortedMap

/-!
# Tree maps

A map that iterates in the order of its keys is its sorted list of entries. Such a map is determined by
its lookups, and a total over its entries changes with one entry at a time.
-/

namespace FlowSketch.Lib
open SortedMap

structure TreeMap (K V : Type) [LinearOrder K] where
  entries : List (K × V)
  sorted : Sorted entries

namespace TreeMap

variable {K V W : Type} [LinearOrder K]

def empty : TreeMap K V := ⟨[], List.Pairwise.nil⟩

def get (m : TreeMap K V) (key : K) : Option V := m.entries.lookup key

def size (m : TreeMap K V) : Nat := m.entries.length

def isEmpty (m : TreeMap K V) : Bool := m.entries.isEmpty

theorem nodup (m : TreeMap K V) : (AssocMap.keys m.entries).Nodup :=
  List.pairwise_map.mpr (m.sorted.imp fun less => ne_of_lt less)

theorem get_eq_some_iff {m : TreeMap K V} {key : K} {value : V} :
    m.get key = some value ↔ (key, value) ∈ m.entries :=
  AssocMap.lookup_eq_some_iff m.nodup

theorem get_eq_none_iff {m : TreeMap K V} {key : K} :
    m.get key = none ↔ ∀ value, (key, value) ∉ m.entries := by
  rw [get, AssocMap.lookup_eq_none_iff]
  simp

@[simp] theorem get_empty (key : K) : (empty : TreeMap K V).get key = none := rfl

theorem isEmpty_iff {m : TreeMap K V} : m.isEmpty ↔ ∀ key, m.get key = none := by
  rw [isEmpty, List.isEmpty_iff]
  constructor
  · intro nothing key
    rw [get, nothing, List.lookup_nil]
  · intro none
    refine List.eq_nil_iff_forall_not_mem.mpr fun entry member => ?_
    exact get_eq_none_iff.mp (none entry.1) entry.2 member

/-- Lookups determine the map. -/
theorem ext_get {m m' : TreeMap K V} (same : ∀ key, m.get key = m'.get key) : m = m' := by
  obtain ⟨entries, sorted⟩ := m
  obtain ⟨entries', sorted'⟩ := m'
  have listed := AssocMap.perm_of_lookup (TreeMap.nodup ⟨entries, sorted⟩)
    (TreeMap.nodup ⟨entries', sorted'⟩) same
  have equal : entries = entries' :=
    listed.eq_of_pairwise (fun a b _ _ less greater => absurd less (lt_asymm greater)) sorted sorted'
  subst equal
  rfl

/-! ## Overwriting -/

def insertEntry (key : K) (value : V) : List (K × V) → List (K × V)
  | [] => [(key, value)]
  | (k, v) :: rest =>
    if k = key then (key, value) :: rest
    else if key < k then (key, value) :: (k, v) :: rest
    else (k, v) :: insertEntry key value rest

theorem lookup_insertEntry (key : K) (value : V) (m : List (K × V)) (other : K) :
    (insertEntry key value m).lookup other = if other = key then some value else m.lookup other := by
  induction m with
  | nil =>
    rw [insertEntry, List.lookup_cons]
    by_cases same : other = key
    · simp [same]
    · simp [same, beq_eq_false_iff_ne.mpr same]
  | cons entry rest ih =>
    obtain ⟨k, v⟩ := entry
    rw [insertEntry]
    split
    next found =>
      rw [List.lookup_cons, List.lookup_cons, found]
      by_cases same : other = key
      · simp [same]
      · simp [same, beq_eq_false_iff_ne.mpr same]
    next other_key =>
      split
      · rw [List.lookup_cons]
        by_cases same : other = key
        · simp [same]
        · simp [same, beq_eq_false_iff_ne.mpr same]
      · rw [List.lookup_cons, List.lookup_cons, ih]
        by_cases here : other = k
        · simp [here, other_key]
        · simp [beq_eq_false_iff_ne.mpr here]

theorem insertEntry_keys {key : K} {value : V} {m : List (K × V)} {entry : K × V}
    (member : entry ∈ insertEntry key value m) : entry.1 = key ∨ entry ∈ m := by
  induction m with
  | nil =>
    rw [List.mem_singleton.mp member]
    exact .inl rfl
  | cons head rest ih =>
    obtain ⟨k, v⟩ := head
    rw [insertEntry] at member
    split at member
    · rcases List.mem_cons.mp member with rfl | later
      · exact .inl rfl
      · exact .inr (List.mem_cons_of_mem _ later)
    · split at member
      · rcases List.mem_cons.mp member with rfl | later
        · exact .inl rfl
        · exact .inr later
      · rcases List.mem_cons.mp member with rfl | later
        · exact .inr List.mem_cons_self
        · exact (ih later).imp_right (List.mem_cons_of_mem _)

theorem insertEntry_sorted (key : K) (value : V) {m : List (K × V)} (sorted : Sorted m) :
    Sorted (insertEntry key value m) := by
  induction m with
  | nil => exact List.pairwise_singleton _ _
  | cons head rest ih =>
    obtain ⟨k, v⟩ := head
    obtain ⟨first, tail⟩ := List.pairwise_cons.mp sorted
    rw [insertEntry]
    split
    next same =>
      subst same
      exact List.pairwise_cons.mpr ⟨first, tail⟩
    next different =>
      split
      next less =>
        refine List.pairwise_cons.mpr ⟨fun entry member => ?_, sorted⟩
        rcases List.mem_cons.mp member with rfl | later
        · exact less
        · exact lt_trans less (first entry later)
      next not_less =>
        refine List.pairwise_cons.mpr ⟨fun entry member => ?_, ih tail⟩
        rcases insertEntry_keys member with same | later
        · rw [same]
          exact lt_of_le_of_ne (not_lt.mp not_less) different
        · exact first entry later

def insert (m : TreeMap K V) (key : K) (value : V) : TreeMap K V :=
  ⟨insertEntry key value m.entries, insertEntry_sorted key value m.sorted⟩

@[simp] theorem get_insert (m : TreeMap K V) (key : K) (value : V) (other : K) :
    (m.insert key value).get other = if other = key then some value else m.get other :=
  lookup_insertEntry key value m.entries other

theorem insert_isEmpty (m : TreeMap K V) (key : K) (value : V) :
    (m.insert key value).isEmpty = false := by
  by_contra empty
  have none := isEmpty_iff.mp (Bool.eq_true_of_not_eq_false empty) key
  rw [get_insert, if_pos rfl] at none
  cases none

/-! ## Filtering and mapping -/

def filter (keep : K → V → Bool) (m : TreeMap K V) : TreeMap K V :=
  ⟨m.entries.filter (fun entry => keep entry.1 entry.2), m.sorted.sublist List.filter_sublist⟩

def erase (m : TreeMap K V) (key : K) : TreeMap K V := m.filter (fun k _ => k ≠ key)

theorem map_sorted (f : K → V → W) {m : List (K × V)} (sorted : Sorted m) :
    Sorted (m.map (fun entry => (entry.1, f entry.1 entry.2))) := by
  rw [Sorted, List.pairwise_map]
  exact sorted

def mapValues (f : K → V → W) (m : TreeMap K V) : TreeMap K W :=
  ⟨m.entries.map (fun entry => (entry.1, f entry.1 entry.2)), map_sorted f m.sorted⟩

theorem get_filter (keep : K → V → Bool) (m : TreeMap K V) (key : K) :
    (m.filter keep).get key = (m.get key).filter (keep key) := by
  refine Option.ext fun value => ?_
  rw [get_eq_some_iff, Option.filter_eq_some_iff, get_eq_some_iff]
  exact List.mem_filter

@[simp] theorem get_erase (m : TreeMap K V) (key other : K) :
    (m.erase key).get other = if other = key then none else m.get other := by
  rw [erase, get_filter]
  split
  next same => simp [same]
  next apart =>
    cases m.get other with
    | none => rfl
    | some value => simp [apart]

theorem get_mapValues (f : K → V → W) (m : TreeMap K V) (key : K) :
    (m.mapValues f).get key = (m.get key).map (f key) := by
  refine Option.ext fun value => ?_
  rw [get_eq_some_iff, Option.map_eq_some_iff]
  constructor
  · intro member
    obtain ⟨entry, inside, equal⟩ := List.mem_map.mp member
    cases equal
    exact ⟨entry.2, get_eq_some_iff.mpr inside, rfl⟩
  · rintro ⟨old, found, rfl⟩
    exact List.mem_map.mpr ⟨(key, old), get_eq_some_iff.mp found, rfl⟩

theorem erase_of_absent {m : TreeMap K V} {key : K} (absent : m.get key = none) : m.erase key = m := by
  refine ext_get fun other => ?_
  rw [get_erase]
  split
  next same => rw [same, absent]
  next => rfl

theorem erase_insert (m : TreeMap K V) (key : K) (value : V) :
    (m.insert key value).erase key = m.erase key := by
  refine ext_get fun other => ?_
  simp only [get_erase, get_insert]
  split <;> rfl

/-! ## Totals -/

theorem entries_perm {m : TreeMap K V} {key : K} {value : V} (found : m.get key = some value) :
    m.entries.Perm ((key, value) :: (m.erase key).entries) :=
  AssocMap.perm_cons_filter m.nodup found

def total (f : K → V → Nat) (m : TreeMap K V) : Nat :=
  (m.entries.map (fun entry => f entry.1 entry.2)).sum

@[simp] theorem total_empty (f : K → V → Nat) : (empty : TreeMap K V).total f = 0 := rfl

theorem total_erase (f : K → V → Nat) (m : TreeMap K V) (key : K) :
    (m.erase key).total f + (m.get key).elim 0 (f key) = m.total f := by
  cases found : m.get key with
  | none => rw [erase_of_absent found, Option.elim_none, Nat.add_zero]
  | some value =>
    have sums := ((entries_perm found).map (fun entry => f entry.1 entry.2)).sum_eq
    rw [List.map_cons, List.sum_cons, Nat.add_comm] at sums
    exact sums.symm

/-- Overwriting an entry exchanges its share of the total. -/
theorem total_insert (f : K → V → Nat) (m : TreeMap K V) (key : K) (value : V) :
    (m.insert key value).total f + (m.get key).elim 0 (f key) = m.total f + f key value := by
  have after := total_erase f (m.insert key value) key
  have before := total_erase f m key
  rw [erase_insert, get_insert, if_pos rfl, Option.elim_some] at after
  omega

/-- A filter takes out what it drops. -/
theorem total_filter (f : K → V → Nat) (keep : K → V → Bool) (m : TreeMap K V) :
    (m.filter keep).total f + (m.filter (fun k v => !keep k v)).total f = m.total f := by
  have split := List.filter_append_perm (fun entry => keep entry.1 entry.2) m.entries
  have sums := (split.map (fun entry => f entry.1 entry.2)).sum_eq
  rw [List.map_append, List.sum_append] at sums
  exact sums

theorem total_mapValues (f : K → W → Nat) (g : K → V → W) (m : TreeMap K V) :
    (m.mapValues g).total f = m.total (fun k v => f k (g k v)) := by
  rw [total, total, mapValues, List.map_map]
  rfl

end TreeMap

end FlowSketch.Lib
