import FlowSketch.Lib.Grid
import FlowSketch.Lib.UpdateTree
import FlowSketch.Source.Snapshots.Tables

/-!
# Cells of a Count-Min table

What an update and a merge do to one cell. A key is counted in one cell of every row, so the cell at `i`
counts the keys whose row hash picks column `i % width` in row `i / width`.
-/

namespace FlowSketch.Source
open Lib Lib.Octets Lib.Word64 Lib.Grid Source.Core

/-- The cell at `i` counts `key`. -/
def Hits (hashing : Hashing) (width : Nat) (hash : HashSpec) (key : Bytes) (i : Nat) : Prop :=
  i % width = hashing.index hash key (i / width) width

instance hitsDecidable (hashing : Hashing) (width : Nat) (hash : HashSpec) (key : Bytes) (i : Nat) :
    Decidable (Hits hashing width hash key i) :=
  inferInstanceAs (Decidable (_ = _))

theorem index_lt {width : Nat} (positive : 0 < width) (hashing : Hashing) (hash : HashSpec)
    (key : Bytes) (row : Nat) : hashing.index hash key row width < width :=
  Nat.mod_lt _ positive

theorem getD_addCells {α : Type} (sum : α → α → α) (zero : α) {mine theirs : List α} {i : Nat}
    (inside : i < mine.length) (length : theirs.length = mine.length) :
    (addCells sum mine theirs).getD i zero = sum (mine.getD i zero) (theirs.getD i zero) := by
  induction mine generalizing theirs i with
  | nil => cases inside
  | cons a mine ih =>
    cases theirs with
    | nil => cases length
    | cons b theirs =>
      cases i with
      | zero => rfl
      | succ i => exact ih (Nat.lt_of_succ_lt_succ inside) (Nat.succ_inj.mp length)

/-- A loop over the rows that modifies the cell of one key in each. -/
theorem getD_modify_rows {α : Type} (hashing : Hashing) {width depth : Nat} (positive : 0 < width)
    (hash : HashSpec) (key : Bytes) (f : Nat → α → α) {table : List α} (zero : α) {i : Nat}
    (size : table.length = width * depth) (inside : i < width * depth) :
    ((List.range depth).foldl (fun table row =>
        table.modify (row * width + hashing.index hash key row width) (f row)) table).getD i zero =
      if Hits hashing width hash key i then f (i / width) (table.getD i zero) else table.getD i zero := by
  have below : i / width < depth := Nat.div_lt_of_lt_mul inside
  have present : i < table.length := size ▸ inside
  rw [List.getD_eq_getElem?_getD, List.getD_eq_getElem?_getD,
    getElem?_modify_rows (fun row _ => index_lt positive hashing hash key row) f table i,
    List.getElem?_eq_getElem present]
  by_cases hit : Hits hashing width hash key i
  · rw [if_pos ⟨below, hit⟩, if_pos hit]
    rfl
  · rw [if_neg (fun both => hit both.2), if_neg hit]

theorem le_foldl_min {ρ : Type} {rows : List ρ} {count : ρ → Nat} {start x : Nat} :
    x ≤ rows.foldl (fun least row => min least (count row)) start ↔
      x ≤ start ∧ ∀ row ∈ rows, x ≤ count row := by
  induction rows generalizing start with
  | nil => simp
  | cons row rows ih => rw [List.foldl_cons, ih, le_min_iff, List.forall_mem_cons, and_assoc]

namespace CountMinSketch

/-- The sketch a tree of updates and merges builds; all of its leaves share their parameters. -/
def ofTree (hashing : Hashing) (width depth : Nat) (conservative : Bool) (hash : HashSpec) :
    UpdateTree Bytes Nat → Except SketchError CountMinSketch
  | .empty => CountMinSketch.new width depth conservative hash
  | .update tree key value => do
    let s ← ofTree hashing width depth conservative hash tree
    return s.update hashing key value
  | .merge left right => do
    let s ← ofTree hashing width depth conservative hash left
    let t ← ofTree hashing width depth conservative hash right
    s.mergeFrom hashing t

/-- The parameters, and one counter for each cell. -/
structure Shaped (width depth : Nat) (conservative : Bool) (hash : HashSpec) (s : CountMinSketch) :
    Prop where
  size : s.table.length = width * depth
  width : s.width = width
  depth : s.depth = depth
  conservative : s.conservative = conservative
  hash : s.hash = hash

/-- The counter at `i`. -/
def count (s : CountMinSketch) (i : Nat) : Nat := s.table.getD i 0

section

variable {hashing : Hashing} {width depth : Nat} {conservative : Bool} {hash : HashSpec}
variable {s : CountMinSketch}

theorem Shaped.new (conservative : Bool) (hash : HashSpec) (positive : 0 < width) (deep : 0 < depth) :
    ∃ s, CountMinSketch.new width depth conservative hash = .ok s ∧
      Shaped width depth conservative hash s ∧ (∀ i, s.count i = 0) ∧ s.totalWeight = 0 ∧
      s.updates = 0 := by
  have valid : ¬(width = 0 ∨ depth = 0) := by omega
  refine ⟨_, if_neg valid, ⟨by simp, rfl, rfl, rfl, rfl⟩, fun i => ?_, rfl, rfl⟩
  show (List.replicate (width * depth) 0).getD i 0 = 0
  rw [List.getD_eq_getElem?_getD, List.getElem?_replicate]
  split <;> rfl

theorem Shaped.cell (shaped : Shaped width depth conservative hash s) (key : Bytes) (row : Nat) :
    s.cell hashing key row = row * width + hashing.index hash key row width := by
  rw [CountMinSketch.cell, shaped.width, shaped.hash]

theorem hits_cell (positive : 0 < width) (hashing : Hashing) (hash : HashSpec) (key : Bytes)
    (row : Nat) :
    Hits hashing width hash key (row * width + hashing.index hash key row width) := by
  have inside := index_lt positive hashing hash key row
  rw [Hits, cell_row inside, cell_col inside]

theorem le_estimate_iff (hashing : Hashing) (s : CountMinSketch) (key : Bytes) {x : Nat} :
    x ≤ s.estimateU64 hashing key ↔
      x ≤ modulus - 1 ∧ ∀ row < s.depth, x ≤ s.count (s.cell hashing key row) := by
  unfold estimateU64
  rw [le_foldl_min]
  simp only [List.mem_range]
  rfl

/-- The estimate is at most every counter of the key. -/
theorem Shaped.estimate_le (shaped : Shaped width depth conservative hash s) {key : Bytes} {i : Nat}
    (inside : i < width * depth) (hit : Hits hashing width hash key i) :
    s.estimateU64 hashing key ≤ s.count i := by
  have below : i / width < s.depth := shaped.depth ▸ Nat.div_lt_of_lt_mul inside
  have least := ((le_estimate_iff hashing s key).mp le_rfl).2 _ below
  have place : s.cell hashing key (i / width) = i := by
    rw [shaped.cell, ← show i % width = _ from hit, Nat.mul_comm]
    exact Nat.div_add_mod i width
  rwa [place] at least

/-- What an update makes of a counter of its key. -/
def raised (hashing : Hashing) (s : CountMinSketch) (key : Bytes) (value count : Nat) : Nat :=
  if s.conservative then
    let target := wrappingAdd (s.estimateU64 hashing key) value
    if count < target then target else count
  else wrappingAdd count value

theorem Shaped.update (shaped : Shaped width depth conservative hash s) (hashing : Hashing)
    (positive : 0 < width) (key : Bytes) (value : Nat) :
    Shaped width depth conservative hash (s.update hashing key value) ∧
      ∀ i < width * depth, (s.update hashing key value).count i =
        if Hits hashing width hash key i then s.raised hashing key value (s.count i)
        else s.count i := by
  have rows := fun (f : Nat → Nat → Nat) => @getD_modify_rows Nat hashing width depth positive hash key
    f s.table 0
  unfold CountMinSketch.update raiseRows addRows raised count
  simp only [CountMinSketch.cell, shaped.width, shaped.hash, shaped.depth]
  split
  next flag =>
    exact ⟨⟨(Lib.Lists.foldl_modify_length _ _ _ _).trans shaped.size, rfl, rfl,
      shaped.conservative, rfl⟩,
      fun i inside => rows (fun _ count => _) shaped.size inside⟩
  next flag =>
    exact ⟨⟨(Lib.Lists.foldl_modify_length _ _ _ _).trans shaped.size, rfl, rfl,
      shaped.conservative, rfl⟩,
      fun i inside => rows (fun _ count => wrappingAdd count value) shaped.size inside⟩

theorem Shaped.merge {t : CountMinSketch} (mine : Shaped width depth conservative hash s)
    (theirs : Shaped width depth conservative hash t) (hashing : Hashing) :
    ∃ merged, s.mergeFrom hashing t = .ok merged ∧ Shaped width depth conservative hash merged ∧
      (∀ i < width * depth, merged.count i = wrappingAdd (s.count i) (t.count i)) ∧
      merged.totalWeight = wrappingAdd s.totalWeight t.totalWeight ∧
      merged.updates = wrappingAdd s.updates t.updates := by
  have compatible : (s.compatibility hashing).ensureMatches (t.compatibility hashing) = .ok () := by
    rw [SketchCompatibility.ensureMatches_ok_iff]
    simp only [compatibility, paramsHash, mine.width, theirs.width, mine.depth, theirs.depth,
      mine.conservative, theirs.conservative, mine.hash, theirs.hash]
  unfold mergeFrom
  rw [compatible]
  refine ⟨_, rfl, ⟨(addCells_length _ _ _).trans mine.size, mine.width, mine.depth,
    mine.conservative, mine.hash⟩, fun i inside => ?_, rfl, rfl⟩
  exact getD_addCells wrappingAdd 0 (mine.size ▸ inside) (theirs.size.trans mine.size.symm)

/-- A tree over valid parameters always builds a sketch; its totals are taken modulo a word. -/
theorem ofTree_total (hashing : Hashing) (conservative : Bool) (hash : HashSpec) (positive : 0 < width)
    (deep : 0 < depth) (tree : UpdateTree Bytes Nat) :
    ∃ s, ofTree hashing width depth conservative hash tree = .ok s ∧
      Shaped width depth conservative hash s ∧ s.totalWeight = tree.total % modulus ∧
      s.updates = tree.updates % modulus := by
  induction tree with
  | empty =>
    obtain ⟨s, created, shaped, _, weight, updates⟩ := Shaped.new conservative hash positive deep
    exact ⟨s, created, shaped, weight, updates⟩
  | update tree key value ih =>
    obtain ⟨s, built, shaped, weight, updates⟩ := ih
    refine ⟨s.update hashing key value, ?_, (shaped.update hashing positive key value).1, ?_, ?_⟩
    · rw [ofTree, built]
      rfl
    · show wrappingAdd s.totalWeight value = _
      rw [weight, wrappingAdd, Nat.mod_add_mod, UpdateTree.total]
    · show wrappingAdd s.updates 1 = _
      rw [updates, wrappingAdd, Nat.mod_add_mod, UpdateTree.updates]
  | merge left right ihLeft ihRight =>
    obtain ⟨s, builtLeft, shapedLeft, weightLeft, updatesLeft⟩ := ihLeft
    obtain ⟨t, builtRight, shapedRight, weightRight, updatesRight⟩ := ihRight
    obtain ⟨merged, joined, shaped, _, weight, updates⟩ := shapedLeft.merge shapedRight hashing
    refine ⟨merged, ?_, shaped, ?_, ?_⟩
    · rw [ofTree, builtLeft, builtRight]
      exact joined
    · rw [weight, weightLeft, weightRight, wrappingAdd, ← Nat.add_mod, UpdateTree.total]
    · rw [updates, updatesLeft, updatesRight, wrappingAdd, ← Nat.add_mod, UpdateTree.updates]

end

end CountMinSketch

end FlowSketch.Source
