import Mathlib

/-!
# Related lists

Pointwise relations between lists, beyond what `List.Forall₂` comes with.
-/

namespace FlowSketch.Lib.Lists

variable {α β : Type} {R : α → β → Prop} {as : List α} {bs : List β}

theorem forall₂_set (related : List.Forall₂ R as bs) (i : Nat) {a : α} {b : β} (new : R a b) :
    List.Forall₂ R (as.set i a) (bs.set i b) := by
  induction related generalizing i with
  | nil => exact .nil
  | cons head tail ih =>
    cases i with
    | zero => exact .cons new tail
    | succ i => exact .cons head (ih i)

/-- One element of a list that is related to itself is replaced. -/
theorem forall₂_set_right {S : α → α → Prop} {list : List α} (refl : ∀ a ∈ list, S a a) {i : Nat} {a b : α}
    (stood : list[i]? = some a) (new : S a b) : List.Forall₂ S list (list.set i b) := by
  obtain ⟨inside, same⟩ := List.getElem?_eq_some_iff.mp stood
  have set := forall₂_set (List.forall₂_same.mpr refl) i new
  rwa [← same, List.set_getElem_self inside] at set

theorem exists_left_of_mem (related : List.Forall₂ R as bs) {b : β} (member : b ∈ bs) :
    ∃ a ∈ as, R a b := by
  induction related with
  | nil => cases member
  | cons head tail ih =>
    rcases List.mem_cons.mp member with rfl | later
    · exact ⟨_, List.mem_cons_self, head⟩
    · obtain ⟨a, inside, holds⟩ := ih later
      exact ⟨a, List.mem_cons_of_mem _ inside, holds⟩

theorem exists_right_of_mem (related : List.Forall₂ R as bs) {a : α} (member : a ∈ as) :
    ∃ b ∈ bs, R a b :=
  exists_left_of_mem related.flip member

/-- Related lists, as a list of pairs. -/
theorem exists_pairs (related : List.Forall₂ R as bs) :
    ∃ ts : List (α × β), as = ts.map Prod.fst ∧ bs = ts.map Prod.snd ∧ ∀ t ∈ ts, R t.1 t.2 := by
  induction related with
  | nil => exact ⟨[], rfl, rfl, nofun⟩
  | @cons a b _ _ head _ ih =>
    obtain ⟨ts, rfl, rfl, all⟩ := ih
    exact ⟨(a, b) :: ts, rfl, rfl, List.forall_mem_cons.mpr ⟨head, all⟩⟩

/-- Two relations from one list, as a list of triples. -/
theorem exists_triples {γ : Type} {S : α → γ → Prop} {cs : List γ} (left : List.Forall₂ R as bs)
    (right : List.Forall₂ S as cs) :
    ∃ ts : List (α × β × γ), as = ts.map (fun t => t.1) ∧ bs = ts.map (fun t => t.2.1) ∧
      cs = ts.map (fun t => t.2.2) ∧ ∀ t ∈ ts, R t.1 t.2.1 ∧ S t.1 t.2.2 := by
  induction left generalizing cs with
  | nil =>
    cases right
    exact ⟨[], rfl, rfl, rfl, by simp⟩
  | @cons a b as bs head tail ih =>
    cases right with
    | @cons _ c _ cs other rest =>
      obtain ⟨ts, rfl, rfl, rfl, all⟩ := ih rest
      exact ⟨(a, b, c) :: ts, rfl, rfl, rfl, List.forall_mem_cons.mpr ⟨⟨head, other⟩, all⟩⟩

theorem zipWith3_map {α β γ δ τ : Type} (f : α → β → γ → δ) (a : τ → α) (b : τ → β) (c : τ → γ)
    (ts : List τ) :
    List.zipWith3 f (ts.map a) (ts.map b) (ts.map c) = ts.map (fun t => f (a t) (b t) (c t)) := by
  induction ts with
  | nil => rfl
  | cons t ts ih => rw [List.map_cons, List.map_cons, List.map_cons, List.zipWith3, ih, List.map_cons]

theorem zipWith_map_same {α β γ τ : Type} (f : α → β → γ) (a : τ → α) (b : τ → β) (ts : List τ) :
    List.zipWith f (ts.map a) (ts.map b) = ts.map (fun t => f (a t) (b t)) := by
  rw [List.zipWith_map, List.zipWith_self]

/-! ## Folds that modify one element at a time -/

section

variable {ρ α : Type} (place : ρ → Nat) (f : ρ → α → α)

theorem foldl_modify_length (rows : List ρ) (table : List α) :
    (rows.foldl (fun table row => table.modify (place row) (f row)) table).length =
      table.length := by
  induction rows generalizing table with
  | nil => rfl
  | cons row rest ih => rw [List.foldl_cons, ih, List.length_modify]

theorem forall_modify {P : α → Prop} {table : List α} (all : ∀ x ∈ table, P x) (i : Nat)
    {g : α → α} (keeps : ∀ x, P x → P (g x)) : ∀ x ∈ table.modify i g, P x := by
  intro x member
  obtain ⟨j, found⟩ := List.mem_iff_getElem?.mp member
  rw [List.getElem?_modify, Option.map_eq_map, Option.map_eq_some_iff] at found
  obtain ⟨old, present, rfl⟩ := found
  have held := all old (List.mem_of_getElem? present)
  split
  · exact keeps old held
  · exact held

theorem forall_foldl_modify {P : α → Prop} (keeps : ∀ row x, P x → P (f row x)) (rows : List ρ)
    {table : List α} (all : ∀ x ∈ table, P x) :
    ∀ x ∈ rows.foldl (fun table row => table.modify (place row) (f row)) table, P x := by
  induction rows generalizing table with
  | nil => exact all
  | cons row rest ih => exact ih (forall_modify all (place row) (keeps row))

end

/-! ## Buckets -/

/-- Buckets one after the other hold what was put into them. -/
theorem buckets_perm {α : Type} (place : α → Nat) (list : List α) (n : Nat) :
    ((List.range n).flatMap (fun i => list.filter (fun a => place a = i))).Perm
      (list.filter (fun a => place a < n)) := by
  induction n with
  | zero => simp
  | succ n ih =>
    have split := List.filter_append_perm (fun a => place a < n) (list.filter (fun a => place a < n + 1))
    rw [List.filter_filter, List.filter_filter] at split
    have below : list.filter (fun a => decide (place a < n) && decide (place a < n + 1)) =
        list.filter (fun a => place a < n) :=
      List.filter_congr fun a _ => by
        rw [← Bool.decide_and]
        exact decide_eq_decide.mpr ⟨And.left, fun less => ⟨less, Nat.lt_succ_of_lt less⟩⟩
    have last : list.filter (fun a => !decide (place a < n) && decide (place a < n + 1)) =
        list.filter (fun a => place a = n) :=
      List.filter_congr fun a _ => by
        rw [← decide_not, ← Bool.decide_and]
        refine decide_eq_decide.mpr ?_
        omega
    rw [below, last] at split
    rw [List.range_succ, List.flatMap_append, List.flatMap_singleton]
    exact (ih.append_right _).trans split

end FlowSketch.Lib.Lists
