import Mathlib

/-!
# Ordered maps as sorted lists

A map whose keys come out in order is the list of its entries, sorted by key. `upsert` inserts a new
entry or joins it into the one its key has; joining may fail.
-/

namespace FlowSketch.Lib.SortedMap

variable {K V ε : Type} [LinearOrder K]

def Sorted (m : List (K × V)) : Prop := m.Pairwise (fun a b => a.1 < b.1)

def upsert (key : K) (new : V) (join : V → Except ε V) : List (K × V) → Except ε (List (K × V))
  | [] => .ok [(key, new)]
  | (k, v) :: rest =>
    if k = key then (join v).map (fun joined => (k, joined) :: rest)
    else if key < k then .ok ((key, new) :: (k, v) :: rest)
    else (upsert key new join rest).map (fun rest => (k, v) :: rest)

theorem upsert_total {key : K} {new : V} {join : V → Except ε V} {m : List (K × V)}
    (joins : ∀ old, (key, old) ∈ m → ∃ v, join old = .ok v) :
    ∃ m', upsert key new join m = .ok m' := by
  induction m with
  | nil => exact ⟨_, rfl⟩
  | cons entry rest ih =>
    obtain ⟨k, v⟩ := entry
    unfold upsert
    split
    next same =>
      obtain ⟨joined, done⟩ := joins v (by rw [same]; exact List.mem_cons_self)
      exact ⟨_, by rw [done]; rfl⟩
    next =>
      split
      · exact ⟨_, rfl⟩
      · obtain ⟨m', done⟩ := ih (fun old member => joins old (List.mem_cons_of_mem _ member))
        exact ⟨_, by rw [done]; rfl⟩

/-- The keys of the result are those before and the new one. -/
theorem upsert_keys {key : K} {new : V} {join : V → Except ε V} {m m' : List (K × V)}
    (done : upsert key new join m = .ok m') {entry : K × V} (member : entry ∈ m') :
    entry.1 = key ∨ ∃ old, (entry.1, old) ∈ m := by
  induction m generalizing m' with
  | nil =>
    obtain rfl := Except.ok.inj done
    rw [List.mem_singleton.mp member]
    exact Or.inl rfl
  | cons head rest ih =>
    obtain ⟨k, v⟩ := head
    unfold upsert at done
    split at done
    next same =>
      cases joined : join v with
      | error e => rw [joined] at done; cases done
      | ok w =>
        rw [joined] at done
        obtain rfl := Except.ok.inj done
        rcases List.mem_cons.mp member with rfl | later
        · exact Or.inl same
        · exact Or.inr ⟨entry.2, List.mem_cons_of_mem _ later⟩
    next =>
      split at done
      · obtain rfl := Except.ok.inj done
        rcases List.mem_cons.mp member with rfl | later
        · exact Or.inl rfl
        · exact Or.inr ⟨entry.2, later⟩
      · cases inner : upsert key new join rest with
        | error e => rw [inner] at done; cases done
        | ok rest' =>
          rw [inner] at done
          obtain rfl := Except.ok.inj done
          rcases List.mem_cons.mp member with rfl | later
          · exact Or.inr ⟨v, List.mem_cons_self⟩
          · rcases ih inner later with same | ⟨old, inside⟩
            · exact Or.inl same
            · exact Or.inr ⟨old, List.mem_cons_of_mem _ inside⟩

theorem upsert_sorted {key : K} {new : V} {join : V → Except ε V} {m m' : List (K × V)}
    (sorted : Sorted m) (done : upsert key new join m = .ok m') : Sorted m' := by
  induction m generalizing m' with
  | nil =>
    obtain rfl := Except.ok.inj done
    exact List.pairwise_singleton _ _
  | cons head rest ih =>
    obtain ⟨k, v⟩ := head
    obtain ⟨first, tail⟩ := List.pairwise_cons.mp sorted
    unfold upsert at done
    split at done
    next same =>
      cases joined : join v with
      | error e => rw [joined] at done; cases done
      | ok w =>
        rw [joined] at done
        obtain rfl := Except.ok.inj done
        exact List.pairwise_cons.mpr ⟨first, tail⟩
    next different =>
      split at done
      next less =>
        obtain rfl := Except.ok.inj done
        refine List.pairwise_cons.mpr ⟨fun entry member => ?_, sorted⟩
        rcases List.mem_cons.mp member with rfl | later
        · exact less
        · exact lt_trans less (first entry later)
      next not_less =>
        cases inner : upsert key new join rest with
        | error e => rw [inner] at done; cases done
        | ok rest' =>
          rw [inner] at done
          obtain rfl := Except.ok.inj done
          refine List.pairwise_cons.mpr ⟨fun entry member => ?_, ih tail inner⟩
          rcases upsert_keys inner member with same | ⟨old, inside⟩
          · rw [same]
            exact lt_of_le_of_ne (not_lt.mp not_less) different
          · exact first (entry.1, old) inside

/-- What the result holds: the other keys as before, the new key joined or inserted. -/
theorem mem_upsert {key : K} {new : V} {join : V → Except ε V} {m m' : List (K × V)}
    (sorted : Sorted m) (done : upsert key new join m = .ok m') (k : K) (v : V) :
    (k, v) ∈ m' ↔ (k ≠ key ∧ (k, v) ∈ m) ∨
      (k = key ∧ ((∃ old, (key, old) ∈ m ∧ join old = .ok v) ∨ ((∀ old, (key, old) ∉ m) ∧ v = new))) := by
  induction m generalizing m' with
  | nil =>
    obtain rfl := Except.ok.inj done
    simp
  | cons head rest ih =>
    obtain ⟨k₀, v₀⟩ := head
    obtain ⟨first, tail⟩ := List.pairwise_cons.mp sorted
    unfold upsert at done
    split at done
    next same =>
      subst same
      have alone : ∀ old, (k₀, old) ∉ rest := fun old member =>
        lt_irrefl k₀ (first (k₀, old) member)
      cases joined : join v₀ with
      | error e => rw [joined] at done; cases done
      | ok w =>
        rw [joined] at done
        obtain rfl := Except.ok.inj done
        by_cases here : k = k₀
        · subst here
          simp [alone, joined, eq_comm]
        · simp [here]
    next different =>
      split at done
      next less =>
        obtain rfl := Except.ok.inj done
        have absent : ∀ old, (key, old) ∉ (k₀, v₀) :: rest := by
          intro old member
          rcases List.mem_cons.mp member with same | later
          · exact different (Prod.mk.inj same).1.symm
          · exact lt_asymm less (first (key, old) later)
        by_cases here : k = key
        · subst here
          rw [List.mem_cons]
          simp [absent]
        · simp [here]
      next not_less =>
        cases inner : upsert key new join rest with
        | error e => rw [inner] at done; cases done
        | ok rest' =>
          rw [inner] at done
          obtain rfl := Except.ok.inj done
          have entries := ih tail inner
          have apart : ∀ old, (key, old) ≠ (k₀, v₀) := fun old same => different (Prod.mk.inj same).1.symm
          by_cases here : k = key
          · subst here
            simp only [List.mem_cons, apart, false_or] at entries ⊢
            exact entries
          · simp only [List.mem_cons, here, ne_eq, not_false_eq_true, true_and, false_and, or_false]
              at entries ⊢
            rw [entries]

end FlowSketch.Lib.SortedMap
