import Mathlib
import FlowSketch.Source.SpaceSaving

/-!
# The indexed heap of slots

`HeapInv` says that heap positions and the slots' back pointers are inverse to each other. A swap
keeps it and touches nothing else of the summary but the two back pointers, so the sifts only
permute the heap: `Reheaped` is that frame.
-/

namespace FlowSketch.Source
open Lib.Octets Lib.Word64 Lib.BinaryHeap Source.Core
open Lib.CounterSummary (Entry)

/-- What a slot holds apart from its heap position. -/
structure Content where
  key : Bytes
  digest : UInt64
  entry : Entry
  deriving DecidableEq

def Slot.content (slot : Slot) : Content := { slot with }

theorem Slot.rank_of_content {a b : Slot} (same : a.content = b.content) : a.rank = b.rank := by
  simp only [content, Content.mk.injEq] at same
  simp [rank, same]

namespace SpaceSaving

def contents (s : SpaceSaving) : List Content := s.slots.map Slot.content

@[simp] theorem contents_length (s : SpaceSaving) : s.contents.length = s.slots.length :=
  List.length_map _

theorem contents_getElem? {s : SpaceSaving} {i : Nat} (inside : i < s.slots.length) :
    s.contents[i]? = some (s.slotAt i).content := by
  simp [contents, slotAt, List.getD_eq_getElem?_getD, List.getElem?_eq_getElem inside]

theorem slotAt_content {s : SpaceSaving} {i : Nat} {c : Content} (found : s.contents[i]? = some c) :
    i < s.slots.length ∧ (s.slotAt i).content = c := by
  obtain ⟨inside, here⟩ := List.getElem?_eq_some_iff.mp found
  rw [contents_length] at inside
  rw [contents_getElem? inside, Option.some.injEq] at found
  exact ⟨inside, found⟩

structure HeapInv (s : SpaceSaving) : Prop where
  length : s.minHeap.length = s.slots.length
  inside : ∀ i, i < s.minHeap.length → s.heapAt i < s.slots.length
  back : ∀ i, i < s.minHeap.length → (s.slotAt (s.heapAt i)).heapIndex = i

theorem slotAt_of_getElem? {s : SpaceSaving} {i : Nat} {slot : Slot}
    (found : s.slots[i]? = some slot) : s.slotAt i = slot := by
  simp [slotAt, List.getD_eq_getElem?_getD, found]

theorem getElem?_slotAt {s : SpaceSaving} {i : Nat} (inside : i < s.slots.length) :
    s.slots[i]? = some (s.slotAt i) := by
  simp [slotAt, List.getD_eq_getElem?_getD, List.getElem?_eq_getElem inside]

theorem HeapInv.injective {s : SpaceSaving} (inv : HeapInv s) {i j : Nat}
    (left : i < s.minHeap.length) (right : j < s.minHeap.length)
    (same : s.heapAt i = s.heapAt j) : i = j := by
  have pointer := inv.back i left
  rw [same, inv.back j right] at pointer
  exact pointer.symm

theorem heapAt_eq_getElem {s : SpaceSaving} {i : Nat} (inside : i < s.minHeap.length) :
    s.heapAt i = s.minHeap[i] := by
  simp [heapAt, List.getD_eq_getElem?_getD, List.getElem?_eq_getElem inside]

/-- The heap lists every slot exactly once. -/
theorem HeapInv.perm {s : SpaceSaving} (inv : HeapInv s) :
    s.minHeap.Perm (List.range s.slots.length) := by
  have nodup : s.minHeap.Nodup := by
    rw [List.nodup_iff_injective_get]
    intro i j same
    apply Fin.ext
    refine inv.injective i.isLt j.isLt ?_
    rw [heapAt_eq_getElem i.isLt, heapAt_eq_getElem j.isLt]
    exact same
  have subset : s.minHeap ⊆ List.range s.slots.length := by
    intro x member
    obtain ⟨i, bound, rfl⟩ := List.mem_iff_getElem.mp member
    rw [List.mem_range, ← heapAt_eq_getElem bound]
    exact inv.inside i bound
  exact (nodup.subperm subset).perm_of_length_le (by simp [inv.length])

/-- Back pointers are exact: every slot sits at the heap position it names. -/
theorem HeapInv.position {s : SpaceSaving} (inv : HeapInv s) {i : Nat}
    (inside : i < s.slots.length) :
    (s.slotAt i).heapIndex < s.minHeap.length ∧ s.heapAt (s.slotAt i).heapIndex = i := by
  have member : i ∈ s.minHeap := inv.perm.mem_iff.mpr (List.mem_range.mpr inside)
  obtain ⟨j, bound, here⟩ := List.mem_iff_getElem.mp member
  rw [← heapAt_eq_getElem bound] at here
  have pointer := inv.back j bound
  rw [here] at pointer
  rw [pointer]
  exact ⟨bound, here⟩

/-! ## Swaps -/

theorem swapHeap_heapAt (s : SpaceSaving) {left right : Nat} (hl : left < s.minHeap.length)
    (hr : right < s.minHeap.length) (k : Nat) :
    (s.swapHeap left right).heapAt k =
      if k = right then s.heapAt left else if k = left then s.heapAt right else s.heapAt k := by
  simp only [swapHeap, heapAt, List.getD_eq_getElem?_getD, List.getElem?_set, List.length_set]
  by_cases atRight : k = right
  · rw [if_pos atRight.symm, if_pos hr, if_pos atRight, Option.getD_some]
  · rw [if_neg (Ne.symm atRight), if_neg atRight]
    by_cases atLeft : k = left
    · rw [if_pos atLeft.symm, if_pos hl, if_pos atLeft, Option.getD_some]
    · rw [if_neg (Ne.symm atLeft), if_neg atLeft]

theorem swapHeap_slots (s : SpaceSaving) {left right : Nat} (hl : left < s.minHeap.length)
    (hr : right < s.minHeap.length) (j : Nat) :
    (s.swapHeap left right).slots[j]? = (s.slots[j]?).map (fun slot =>
      { slot with heapIndex := if j = s.heapAt left then right
                               else if j = s.heapAt right then left else slot.heapIndex }) := by
  have atRight : (s.swapHeap left right).heapAt right = s.heapAt left := by
    rw [swapHeap_heapAt s hl hr, if_pos rfl]
  have atLeft : (s.swapHeap left right).heapAt left = s.heapAt right := by
    rw [swapHeap_heapAt s hl hr]
    by_cases same : left = right <;> simp [same]
  have written : (s.swapHeap left right).slots =
      setHeapIndex (setHeapIndex s.slots ((s.swapHeap left right).heapAt left) left)
        ((s.swapHeap left right).heapAt right) right := rfl
  rw [written, atLeft, atRight]
  simp only [setHeapIndex, List.getElem?_modify, Option.map_eq_map, Option.map_map]
  congr 1
  funext slot
  simp only [Function.comp_apply, eq_comm (a := j)]
  split <;> split <;> rfl

@[simp] theorem swapHeap_minHeap_length (s : SpaceSaving) (left right : Nat) :
    (s.swapHeap left right).minHeap.length = s.minHeap.length := by
  simp [swapHeap]

@[simp] theorem swapHeap_slots_length (s : SpaceSaving) (left right : Nat) :
    (s.swapHeap left right).slots.length = s.slots.length := by
  simp [swapHeap, setHeapIndex]

/-- `t` is `s` with the heap rearranged. -/
structure Reheaped (s t : SpaceSaving) : Prop where
  capacity : t.capacity = s.capacity
  hash : t.hash = s.hash
  keyIndex : t.keyIndex = s.keyIndex
  totalWeight : t.totalWeight = s.totalWeight
  updates : t.updates = s.updates
  contents : t.contents = s.contents

theorem Reheaped.refl (s : SpaceSaving) : Reheaped s s := ⟨rfl, rfl, rfl, rfl, rfl, rfl⟩

theorem Reheaped.trans {s t u : SpaceSaving} (first : Reheaped s t) (second : Reheaped t u) :
    Reheaped s u :=
  ⟨second.capacity.trans first.capacity, second.hash.trans first.hash,
    second.keyIndex.trans first.keyIndex, second.totalWeight.trans first.totalWeight,
    second.updates.trans first.updates, second.contents.trans first.contents⟩

theorem Reheaped.length {s t : SpaceSaving} (r : Reheaped s t) :
    t.slots.length = s.slots.length := by
  simpa using congrArg List.length r.contents

theorem swapHeap_reheaped (s : SpaceSaving) {left right : Nat} (hl : left < s.minHeap.length)
    (hr : right < s.minHeap.length) : Reheaped s (s.swapHeap left right) := by
  refine ⟨rfl, rfl, rfl, rfl, rfl, ?_⟩
  apply List.ext_getElem?
  intro i
  unfold SpaceSaving.contents
  rw [List.getElem?_map, List.getElem?_map, swapHeap_slots s hl hr, Option.map_map]
  rfl

theorem swapHeap_rank (s : SpaceSaving) {left right : Nat} (hl : left < s.minHeap.length)
    (hr : right < s.minHeap.length) (i : Nat) :
    ((s.swapHeap left right).slotAt i).rank = (s.slotAt i).rank := by
  apply Slot.rank_of_content
  unfold slotAt
  rw [List.getD_eq_getElem?_getD, List.getD_eq_getElem?_getD, swapHeap_slots s hl hr]
  cases s.slots[i]? <;> rfl

theorem HeapInv.swap {s : SpaceSaving} (inv : HeapInv s) {left right : Nat}
    (hl : left < s.minHeap.length) (hr : right < s.minHeap.length) :
    HeapInv (s.swapHeap left right) := by
  refine ⟨by simp [inv.length], ?_, ?_⟩
  · intro i bound
    rw [swapHeap_minHeap_length] at bound
    rw [swapHeap_heapAt s hl hr, swapHeap_slots_length]
    split
    · exact inv.inside left hl
    · split
      · exact inv.inside right hr
      · exact inv.inside i bound
  · intro i bound
    rw [swapHeap_minHeap_length] at bound
    -- the pointer of the slot now at position `i` was set by the last of the two writes
    have pointer : ∀ k, k < s.minHeap.length →
        ((s.swapHeap left right).slotAt (s.heapAt k)).heapIndex =
          if k = left then right else if k = right then left else k := by
      intro k fits
      have found := swapHeap_slots s hl hr (s.heapAt k)
      rw [getElem?_slotAt (inv.inside k fits), Option.map_some] at found
      rw [slotAt_of_getElem? found]
      have sameLeft : s.heapAt k = s.heapAt left ↔ k = left :=
        ⟨inv.injective fits hl, fun h => h ▸ rfl⟩
      have sameRight : s.heapAt k = s.heapAt right ↔ k = right :=
        ⟨inv.injective fits hr, fun h => h ▸ rfl⟩
      simp only [sameLeft, sameRight, inv.back k fits]
    rw [swapHeap_heapAt s hl hr]
    by_cases atRight : i = right
    · rw [if_pos atRight, pointer left hl, if_pos rfl, atRight]
    · rw [if_neg atRight]
      by_cases atLeft : i = left
      · subst atLeft
        rw [if_pos rfl, pointer right hr, if_neg (Ne.symm atRight), if_pos rfl]
      · rw [if_neg atLeft, pointer i bound, if_neg atLeft, if_neg atRight]

/-! ## Sifts -/

def heapRank (s : SpaceSaving) (i : Nat) : Nat ×ₗ Nat ×ₗ Bytes := (s.slotAt (s.heapAt i)).rank

/-- Every child sorts at or above its parent by (count, digest, key). -/
def HeapOrdered (s : SpaceSaving) : Prop := Ordered heapOps heapRank s

theorem heapView (origin : SpaceSaving) :
    View heapOps (fun s => HeapInv s ∧ Reheaped origin s) heapRank where
  less_iff := by
    intro s i j _ _ _
    simp [heapOps, heapSlotIsLess, slotIsLess, heapRank]
  swap_inv := by
    intro s i j inv left right
    exact ⟨inv.1.swap left right, inv.2.trans (swapHeap_reheaped s left right)⟩
  swap_size := by
    intro s i j _ _ _
    exact swapHeap_minHeap_length s i j
  swap_rank := by
    intro s i j inv left right distinct k
    show ((s.swapHeap i j).slotAt ((s.swapHeap i j).heapAt k)).rank = _
    rw [swapHeap_rank s left right, swapHeap_heapAt s left right]
    unfold heapRank
    by_cases atLeft : k = i
    · rw [if_neg (by omega), if_pos atLeft, if_pos atLeft]
    · by_cases atRight : k = j
      · rw [if_pos atRight, if_neg atLeft, if_pos atRight]
      · rw [if_neg atRight, if_neg atLeft, if_neg atLeft, if_neg atRight]

/-- Without any assumption on the order, a sift only rearranges the heap. -/
theorem siftDown_frame {s : SpaceSaving} (inv : HeapInv s) (index : Nat) :
    HeapInv (s.siftDown index) ∧ Reheaped s (s.siftDown index) :=
  (siftDown_inv (heapView s) s index ⟨inv, Reheaped.refl s⟩).1

theorem siftUp_frame {s : SpaceSaving} (inv : HeapInv s) {index : Nat}
    (inside : index < s.minHeap.length) :
    HeapInv (s.siftUp index) ∧ Reheaped s (s.siftUp index) :=
  (siftUp_inv (heapView s) s index ⟨inv, Reheaped.refl s⟩ inside).1

theorem siftDown_heapOrdered {s : SpaceSaving} (inv : HeapInv s) {index : Nat}
    (order : DownOrdered heapOps heapRank s index) : HeapOrdered (s.siftDown index) :=
  siftDown_ordered (heapView s) s index ⟨inv, Reheaped.refl s⟩ order

theorem siftUp_heapOrdered {s : SpaceSaving} (inv : HeapInv s) {index : Nat}
    (inside : index < s.minHeap.length) (order : UpOrdered heapOps heapRank s index) :
    HeapOrdered (s.siftUp index) :=
  siftUp_ordered (heapView s) s index ⟨inv, Reheaped.refl s⟩ inside order

end SpaceSaving

end FlowSketch.Source
