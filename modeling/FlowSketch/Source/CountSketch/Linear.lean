import FlowSketch.Source.CountMin.Cells

/-!
# Linear tables

Plain Count-Min and CountSketch add up: the counter at `i` is a fixed linear combination of the weights
of the keys, modulo a word. Trees of updates and merges with the same weights build the same table,
and a stream merged with its negation leaves nothing.
-/

namespace FlowSketch.Source
open Lib Lib.Octets Lib.Word64 Lib.Grid Source.Core

namespace CountMinSketch

/-- What one update adds to the counter at `i`. -/
def share (hashing : Hashing) (width : Nat) (hash : HashSpec) (i : Nat) (key : Bytes) : Nat →+ Nat :=
  if Hits hashing width hash key i then AddMonoidHom.id Nat else 0

variable {hashing : Hashing} {width depth : Nat} {hash : HashSpec}

end CountMinSketch

namespace CountSketch

/-- The sketch a tree of signed updates and merges builds. -/
def ofTree (hashing : Hashing) (width depth : Nat) (hash : HashSpec) :
    UpdateTree Bytes Int → Except SketchError CountSketch
  | .empty => CountSketch.new width depth hash
  | .update tree key value => do
    let s ← ofTree hashing width depth hash tree
    return s.updateSigned hashing key value
  | .merge left right => do
    let s ← ofTree hashing width depth hash left
    let t ← ofTree hashing width depth hash right
    s.mergeFrom hashing t

structure Shaped (width depth : Nat) (hash : HashSpec) (s : CountSketch) : Prop where
  size : s.table.length = width * depth
  width : s.width = width
  depth : s.depth = depth
  hash : s.hash = hash

/-- The counter at `i`. -/
def count (s : CountSketch) (i : Nat) : Int := s.table.getD i 0

/-- What one update adds to the counter at `i`: the value under the sign of its row. -/
def share (hashing : Hashing) (width : Nat) (hash : HashSpec) (i : Nat) (key : Bytes) : Int →+ Int :=
  if Hits hashing width hash key i then AddMonoidHom.mulLeft (hashing.sign hash key (i / width)) else 0

variable {hashing : Hashing} {width depth : Nat} {hash : HashSpec} {s t : CountSketch}

theorem Shaped.merge (mine : Shaped width depth hash s) (theirs : Shaped width depth hash t)
    (hashing : Hashing) :
    ∃ merged, s.mergeFrom hashing t = .ok merged ∧ Shaped width depth hash merged ∧
      ∀ i < width * depth, merged.count i = wrapI64 (s.count i + t.count i) := by
  have compatible : (s.compatibility hashing).ensureMatches (t.compatibility hashing) = .ok () := by
    rw [SketchCompatibility.ensureMatches_ok_iff]
    simp only [compatibility, paramsHash, mine.width, theirs.width, mine.depth, theirs.depth,
      mine.hash, theirs.hash]
  unfold mergeFrom
  rw [compatible]
  refine ⟨_, rfl, ⟨(addCells_length _ _ _).trans mine.size, mine.width, mine.depth, mine.hash⟩,
    fun i inside => ?_⟩
  exact getD_addCells (fun a b => wrapI64 (a + b)) 0 (mine.size ▸ inside)
    (theirs.size.trans mine.size.symm)

theorem Shaped.updateSigned (shaped : Shaped width depth hash s) (hashing : Hashing)
    (positive : 0 < width) (key : Bytes) (value : Int) :
    Shaped width depth hash (s.updateSigned hashing key value) ∧
      ∀ i < width * depth, (s.updateSigned hashing key value).count i =
        if Hits hashing width hash key i then
          wrapI64 (s.count i + wrapI64 (hashing.sign hash key (i / width) * value))
        else s.count i := by
  unfold CountSketch.updateSigned count
  simp only [cell, shaped.width, shaped.hash, shaped.depth]
  refine ⟨⟨(Lib.Lists.foldl_modify_length _ _ _ _).trans shaped.size, rfl, rfl, rfl⟩,
    fun i inside => ?_⟩
  exact getD_modify_rows hashing positive hash key
    (fun row count => wrapI64 (count + wrapI64 (hashing.sign hash key row * value))) 0 shaped.size inside

end CountSketch

end FlowSketch.Source
