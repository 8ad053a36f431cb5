import Mathlib

/-!
# Tables stored row by row

A table of `width` columns is one list; the cell in column `c` of row `r` is at `r * width + c`. A loop
that modifies one cell of every row changes exactly the cells it names, whatever order it visits them in.
-/

namespace FlowSketch.Lib.Grid

variable {α ρ : Type}

theorem cell_row {width row col : Nat} (inside : col < width) : (row * width + col) / width = row := by
  rw [Nat.mul_comm, Nat.mul_add_div (Nat.zero_lt_of_lt inside), Nat.div_eq_of_lt inside, Nat.add_zero]

theorem cell_col {width row col : Nat} (inside : col < width) : (row * width + col) % width = col := by
  rw [Nat.mul_comm, Nat.mul_add_mod, Nat.mod_eq_of_lt inside]

theorem cell_lt {width depth row col : Nat} (inside : col < width) (below : row < depth) :
    row * width + col < width * depth := by
  calc row * width + col < row * width + width := by omega
    _ = (row + 1) * width := (Nat.succ_mul row width).symm
    _ ≤ depth * width := Nat.mul_le_mul_right width below
    _ = width * depth := Nat.mul_comm depth width

section

variable {place : ρ → Nat} {f : ρ → α → α}

theorem getElem?_foldl_of_not_mem {rows : List ρ} {i : Nat} (apart : i ∉ rows.map place)
    (table : List α) :
    (rows.foldl (fun table row => table.modify (place row) (f row)) table)[i]? = table[i]? := by
  induction rows generalizing table with
  | nil => rfl
  | cons row rows ih =>
    rw [List.map_cons, List.mem_cons, not_or] at apart
    rw [List.foldl_cons, ih apart.2, List.getElem?_modify_ne _ _ (Ne.symm apart.1)]

theorem getElem?_foldl_of_mem {rows : List ρ} (distinct : (rows.map place).Nodup) {row : ρ}
    (member : row ∈ rows) (table : List α) :
    (rows.foldl (fun table row => table.modify (place row) (f row)) table)[place row]? =
      (table[place row]?).map (f row) := by
  induction rows generalizing table with
  | nil => cases member
  | cons first rows ih =>
    rw [List.map_cons, List.nodup_cons] at distinct
    rw [List.foldl_cons]
    rcases List.mem_cons.mp member with rfl | later
    · rw [getElem?_foldl_of_not_mem distinct.1, List.getElem?_modify_eq, Option.map_eq_map]
    · have apart : place first ≠ place row := fun same =>
        distinct.1 (same ▸ List.mem_map_of_mem later)
      rw [ih distinct.2 later, List.getElem?_modify_ne _ _ apart]

end

/-- One cell of each of the first `depth` rows. -/
theorem getElem?_modify_rows {width depth : Nat} {col : Nat → Nat}
    (inside : ∀ row, row < depth → col row < width) (f : Nat → α → α) (table : List α) (i : Nat) :
    ((List.range depth).foldl (fun table row => table.modify (row * width + col row) (f row)) table)[i]? =
      if i / width < depth ∧ i % width = col (i / width) then (table[i]?).map (f (i / width))
      else table[i]? := by
  split
  next hit =>
    have place : i = i / width * width + col (i / width) := by
      rw [← hit.2, Nat.mul_comm]
      exact (Nat.div_add_mod i width).symm
    have distinct : ((List.range depth).map (fun row => row * width + col row)).Nodup := by
      refine List.Nodup.map_on (fun a memberA b memberB same => ?_) List.nodup_range
      rw [List.mem_range] at memberA memberB
      rw [← @cell_row width a _ (inside a memberA), same, cell_row (inside b memberB)]
    have found := @getElem?_foldl_of_mem α Nat (fun row => row * width + col row) f _ distinct _
      (List.mem_range.mpr hit.1) table
    rwa [← place] at found
  next miss =>
    refine getElem?_foldl_of_not_mem (fun member => miss ?_) table
    obtain ⟨row, below, rfl⟩ := List.mem_map.mp member
    rw [List.mem_range] at below
    rw [cell_row (inside row below), cell_col (inside row below)]
    exact ⟨below, rfl⟩

end FlowSketch.Lib.Grid
