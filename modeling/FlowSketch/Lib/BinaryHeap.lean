import Mathlib

/-!
# In-place binary min-heaps over an abstract store

The sift loops only ever ask a store for its size, compare two heap positions and swap two heap
positions. `HeapOps` is that interface, so a store may keep any bookkeeping it likes (back pointers,
an arena) inside `swap`. `View` ties the comparisons to a rank in a linear order and names an
invariant that swaps keep; the sift theorems then hold for every such store.
-/

namespace FlowSketch.Lib.BinaryHeap

structure HeapOps (S : Type) where
  size : S → Nat
  less : S → Nat → Nat → Bool
  swap : S → Nat → Nat → S

def parent (index : Nat) : Nat := (index - 1) / 2

namespace HeapOps

variable {S : Type} (ops : HeapOps S)

/-- Each round moves to the parent, so `index` rounds reach the root. -/
def siftUpLoop : Nat → S → Nat → S
  | 0, s, _ => s
  | rounds + 1, s, index =>
    if index = 0 then s
    else if ops.less s index (parent index) then
      siftUpLoop rounds (ops.swap s index (parent index)) (parent index)
    else s

def siftUp (s : S) (index : Nat) : S := ops.siftUpLoop index s index

/-- What the heap does not read or write passes through. -/
theorem siftUp_map {f : S → S} (less : ∀ s i j, ops.less (f s) i j = ops.less s i j)
    (swap : ∀ s i j, ops.swap (f s) i j = f (ops.swap s i j)) (s : S) (index : Nat) :
    ops.siftUp (f s) index = f (ops.siftUp s index) := by
  suffices loop : ∀ rounds s index, ops.siftUpLoop rounds (f s) index =
      f (ops.siftUpLoop rounds s index) from loop index s index
  intro rounds
  induction rounds with
  | zero => exact fun _ _ => rfl
  | succ rounds ih =>
    intro s index
    rw [siftUpLoop, siftUpLoop, less, swap, ih]
    split
    · rfl
    · split
      · rfl
      · rfl

/-- What no swap changes, moving a node up does not change. -/
theorem siftUp_kept {P : S → Prop} (swap : ∀ s i j, P s → P (ops.swap s i j)) {s : S} (holds : P s)
    (index : Nat) : P (ops.siftUp s index) := by
  suffices loop : ∀ rounds s index, P s → P (ops.siftUpLoop rounds s index) from
    loop index s index holds
  intro rounds
  induction rounds with
  | zero => exact fun _ _ holds => holds
  | succ rounds ih =>
    intro s index holds
    rw [siftUpLoop]
    split
    · exact holds
    · split
      · exact ih _ _ (swap s index _ holds)
      · exact holds

def smallestChild (s : S) (index : Nat) : Nat :=
  let left := index * 2 + 1
  let right := left + 1
  if right < ops.size s && ops.less s right left then right else left

/-- Each round moves to a child, so `size - index` rounds leave the heap. -/
def siftDownLoop : Nat → S → Nat → S
  | 0, s, _ => s
  | rounds + 1, s, index =>
    if ops.size s ≤ index * 2 + 1 then s
    else
      let smallest := ops.smallestChild s index
      if ops.less s smallest index then
        siftDownLoop rounds (ops.swap s index smallest) smallest
      else s

def siftDown (s : S) (index : Nat) : S := ops.siftDownLoop (ops.size s - index) s index

theorem siftDown_kept {P : S → Prop} (swap : ∀ s i j, P s → P (ops.swap s i j)) {s : S} (holds : P s)
    (index : Nat) : P (ops.siftDown s index) := by
  suffices loop : ∀ rounds s index, P s → P (ops.siftDownLoop rounds s index) from
    loop (ops.size s - index) s index holds
  intro rounds
  induction rounds with
  | zero => exact fun _ _ holds => holds
  | succ rounds ih =>
    intro s index holds
    rw [siftDownLoop]
    split
    · exact holds
    · dsimp only
      split
      · exact ih _ _ (swap s index _ holds)
      · exact holds

end HeapOps

variable {S α : Type} [LinearOrder α]

/-- What the sift theorems need of a store: comparisons read `rank`, and a swap inside the heap
keeps `Inv` and the size and exchanges exactly two ranks. -/
structure View (ops : HeapOps S) (Inv : S → Prop) (rank : S → Nat → α) : Prop where
  less_iff : ∀ {s i j}, Inv s → i < ops.size s → j < ops.size s →
    (ops.less s i j = true ↔ rank s i < rank s j)
  swap_inv : ∀ {s i j}, Inv s → i < ops.size s → j < ops.size s → Inv (ops.swap s i j)
  swap_size : ∀ {s i j}, Inv s → i < ops.size s → j < ops.size s →
    ops.size (ops.swap s i j) = ops.size s
  swap_rank : ∀ {s i j}, Inv s → i < ops.size s → j < ops.size s → i ≠ j → ∀ k,
    rank (ops.swap s i j) k = if k = i then rank s j else if k = j then rank s i else rank s k

/-- Every position is at least its parent. -/
def Ordered (ops : HeapOps S) (rank : S → Nat → α) (s : S) : Prop :=
  ∀ i, 0 < i → i < ops.size s → rank s (parent i) ≤ rank s i

/-- Ordered everywhere except possibly between `index` and its parent. -/
structure UpOrdered (ops : HeapOps S) (rank : S → Nat → α) (s : S) (index : Nat) : Prop where
  off : ∀ i, 0 < i → i < ops.size s → i ≠ index → rank s (parent i) ≤ rank s i
  grand : ∀ c, 0 < c → c < ops.size s → parent c = index → 0 < index →
    rank s (parent index) ≤ rank s c

/-- Ordered everywhere except possibly between `index` and its children. -/
structure DownOrdered (ops : HeapOps S) (rank : S → Nat → α) (s : S) (index : Nat) : Prop where
  off : ∀ i, 0 < i → i < ops.size s → parent i ≠ index → rank s (parent i) ≤ rank s i
  grand : ∀ c, 0 < c → c < ops.size s → parent c = index → 0 < index →
    rank s (parent index) ≤ rank s c

theorem parent_lt {index : Nat} (positive : 0 < index) : parent index < index := by
  unfold parent
  omega

theorem child_cases {c index : Nat} (positive : 0 < c) (child : parent c = index) :
    c = index * 2 + 1 ∨ c = index * 2 + 2 := by
  unfold parent at child
  omega

/-- The root is a minimum of an ordered heap. -/
theorem Ordered.root_le {ops : HeapOps S} {rank : S → Nat → α} {s : S}
    (ordered : Ordered ops rank s) : ∀ i, i < ops.size s → rank s 0 ≤ rank s i := by
  intro i
  induction i using Nat.strongRecOn with
  | ind i ih =>
    intro inside
    rcases Nat.eq_zero_or_pos i with rfl | positive
    · exact le_refl _
    · have above := parent_lt positive
      exact (ih (parent i) above (by omega)).trans (ordered i positive inside)

/-- Raising one rank of an ordered heap leaves disorder only below it; at the root any new rank
does. -/
theorem Ordered.raise {ops : HeapOps S} {rank : S → Nat → α} {s t : S} {index : Nat}
    (ordered : Ordered ops rank s) (size : ops.size t = ops.size s)
    (inside : index < ops.size s) (others : ∀ i, i < ops.size s → i ≠ index → rank t i = rank s i)
    (raised : 0 < index → rank s index ≤ rank t index) : DownOrdered ops rank t index := by
  constructor
  · intro i positive fits off
    rw [size] at fits
    have above := parent_lt positive
    rw [others (parent i) (by omega) off]
    by_cases here : i = index
    · subst here
      exact (ordered i positive fits).trans (raised positive)
    · rw [others i fits here]
      exact ordered i positive fits
  · intro c positive fits child lower
    rw [size] at fits
    have above := parent_lt positive
    have higher := parent_lt lower
    rw [others (parent index) (by omega) (by omega), others c fits (by omega)]
    exact (ordered index lower inside).trans (child ▸ ordered c positive fits)

/-- A position appended to an ordered heap has no children yet. -/
theorem Ordered.push {ops : HeapOps S} {rank : S → Nat → α} {s t : S}
    (ordered : Ordered ops rank s) (size : ops.size t = ops.size s + 1)
    (others : ∀ i, i < ops.size s → rank t i = rank s i) :
    UpOrdered ops rank t (ops.size s) := by
  constructor
  · intro i positive fits off
    have above := parent_lt positive
    rw [others i (by omega), others (parent i) (by omega)]
    exact ordered i positive (by omega)
  · intro c positive fits child
    have above := parent_lt positive
    omega

section Sift

variable {ops : HeapOps S} {Inv : S → Prop} {rank : S → Nat → α} (view : View ops Inv rank)
include view

theorem UpOrdered.move {s : S} {index : Nat} (inv : Inv s) (order : UpOrdered ops rank s index)
    (inside : index < ops.size s) (positive : 0 < index)
    (smaller : rank s index < rank s (parent index)) :
    UpOrdered ops rank (ops.swap s index (parent index)) (parent index) := by
  have above := parent_lt positive
  have up : parent index < ops.size s := by omega
  have ranks := view.swap_rank inv inside up (by omega)
  have upper : 0 < parent index → rank s (parent (parent index)) ≤ rank s (parent index) :=
    fun higher => order.off (parent index) higher up (by omega)
  constructor
  · intro i lower bound distinct
    rw [view.swap_size inv inside up] at bound
    have higher := parent_lt lower
    rw [ranks, ranks]
    by_cases here : i = index
    · subst here
      rw [if_neg (by omega), if_pos rfl, if_pos rfl]
      exact smaller.le
    · rw [if_neg here, if_neg distinct]
      by_cases below : parent i = index
      · rw [if_pos below]
        exact order.grand i lower bound below positive
      · rw [if_neg below]
        by_cases sibling : parent i = parent index
        · rw [if_pos sibling]
          exact smaller.le.trans (sibling ▸ order.off i lower bound here)
        · rw [if_neg sibling]
          exact order.off i lower bound here
  · intro c lower bound child higher
    rw [view.swap_size inv inside up] at bound
    have top := parent_lt higher
    rw [ranks, ranks, if_neg (by omega), if_neg (by omega)]
    by_cases here : c = index
    · rw [if_pos here]
      exact upper higher
    · have apart : c ≠ parent index := by
        have := parent_lt lower
        omega
      rw [if_neg here, if_neg apart]
      exact (upper higher).trans (child ▸ order.off c lower bound here)

/-- Whatever the order, a sift only swaps positions inside the heap. -/
theorem siftUpLoop_inv (rounds : Nat) (s : S) (index : Nat) (inv : Inv s)
    (inside : index < ops.size s) :
    Inv (ops.siftUpLoop rounds s index) ∧
      ops.size (ops.siftUpLoop rounds s index) = ops.size s := by
  induction rounds generalizing s index with
  | zero => exact ⟨inv, rfl⟩
  | succ rounds ih =>
    rw [HeapOps.siftUpLoop]
    split
    · exact ⟨inv, rfl⟩
    · split
      next root _ =>
        have above := parent_lt (Nat.pos_of_ne_zero root)
        have up : parent index < ops.size s := by omega
        have size := view.swap_size inv inside up
        have rest := ih _ (parent index) (view.swap_inv inv inside up) (by omega)
        exact ⟨rest.1, rest.2.trans size⟩
      · exact ⟨inv, rfl⟩

theorem siftUp_inv (s : S) (index : Nat) (inv : Inv s) (inside : index < ops.size s) :
    Inv (ops.siftUp s index) ∧ ops.size (ops.siftUp s index) = ops.size s :=
  siftUpLoop_inv view index s index inv inside

theorem siftUpLoop_ordered (rounds : Nat) (s : S) (index : Nat) (enough : index ≤ rounds)
    (inv : Inv s) (inside : index < ops.size s) (order : UpOrdered ops rank s index) :
    Ordered ops rank (ops.siftUpLoop rounds s index) := by
  induction rounds generalizing s index with
  | zero =>
    obtain rfl : index = 0 := by omega
    exact fun i lower bound => order.off i lower bound (by omega)
  | succ rounds ih =>
    rw [HeapOps.siftUpLoop]
    by_cases root : index = 0
    · rw [if_pos root]
      exact fun i lower bound => order.off i lower bound (by omega)
    · rw [if_neg root]
      have positive := Nat.pos_of_ne_zero root
      have above := parent_lt positive
      have up : parent index < ops.size s := by omega
      have compare := view.less_iff inv inside up
      by_cases smaller : ops.less s index (parent index) = true
      · rw [if_pos smaller]
        have moved := order.move view inv inside positive (compare.mp smaller)
        have size := view.swap_size inv inside up
        exact ih (ops.swap s index (parent index)) (parent index) (by omega)
          (view.swap_inv inv inside up) (by omega) moved
      · rw [if_neg smaller]
        intro i lower bound
        by_cases here : i = index
        · subst here
          exact not_lt.mp (fun less => smaller (compare.mpr less))
        · exact order.off i lower bound here

/-- Sifting up repairs a heap whose only disorder is between `index` and its parent. -/
theorem siftUp_ordered (s : S) (index : Nat) (inv : Inv s) (inside : index < ops.size s)
    (order : UpOrdered ops rank s index) : Ordered ops rank (ops.siftUp s index) :=
  siftUpLoop_ordered view index s index (Nat.le_refl _) inv inside order

theorem smallestChild_spec {s : S} {index : Nat} (inv : Inv s)
    (inside : index * 2 + 1 < ops.size s) :
    ops.smallestChild s index < ops.size s ∧ 0 < ops.smallestChild s index ∧
      parent (ops.smallestChild s index) = index ∧
      ∀ c, 0 < c → c < ops.size s → parent c = index →
        rank s (ops.smallestChild s index) ≤ rank s c := by
  unfold HeapOps.smallestChild
  dsimp only
  split
  next right =>
    rw [Bool.and_eq_true, decide_eq_true_eq] at right
    have smaller := (view.less_iff inv right.1 inside).mp right.2
    refine ⟨right.1, by omega, by unfold parent; omega, ?_⟩
    intro c lower bound child
    rcases child_cases lower child with rfl | rfl
    · exact smaller.le
    · exact le_refl _
  next right =>
    refine ⟨inside, by omega, by unfold parent; omega, ?_⟩
    intro c lower bound child
    rcases child_cases lower child with rfl | rfl
    · exact le_refl _
    · refine not_lt.mp (fun less => right ?_)
      rw [Bool.and_eq_true, decide_eq_true_eq]
      exact ⟨bound, (view.less_iff inv bound inside).mpr less⟩

theorem DownOrdered.move {s : S} {index child : Nat} (inv : Inv s)
    (order : DownOrdered ops rank s index) (inside : index < ops.size s)
    (bound : child < ops.size s) (lower : 0 < child) (below : parent child = index)
    (smallest : ∀ c, 0 < c → c < ops.size s → parent c = index → rank s child ≤ rank s c)
    (smaller : rank s child < rank s index) :
    DownOrdered ops rank (ops.swap s index child) child := by
  have above := parent_lt lower
  have ranks := view.swap_rank inv inside bound (by omega)
  constructor
  · intro i positive fits off
    rw [view.swap_size inv inside bound] at fits
    have higher := parent_lt positive
    rw [ranks, ranks]
    by_cases here : i = index
    · subst here
      rw [if_neg (by omega), if_neg off, if_pos rfl]
      exact order.grand child lower bound below positive
    · rw [if_neg here]
      by_cases moved : i = child
      · rw [if_pos moved, moved, if_pos below]
        exact smaller.le
      · rw [if_neg moved]
        by_cases sibling : parent i = index
        · rw [if_pos sibling]
          exact smallest i positive fits sibling
        · rw [if_neg sibling, if_neg off]
          exact order.off i positive fits sibling
  · intro c positive fits under _
    rw [view.swap_size inv inside bound] at fits
    have higher := parent_lt positive
    rw [ranks, ranks, below, if_pos rfl, if_neg (by omega), if_neg (by omega)]
    exact under ▸ order.off c positive fits (by omega)

theorem siftDownLoop_inv (rounds : Nat) (s : S) (index : Nat) (inv : Inv s) :
    Inv (ops.siftDownLoop rounds s index) ∧
      ops.size (ops.siftDownLoop rounds s index) = ops.size s := by
  induction rounds generalizing s index with
  | zero => exact ⟨inv, rfl⟩
  | succ rounds ih =>
    rw [HeapOps.siftDownLoop]
    split
    · exact ⟨inv, rfl⟩
    · dsimp only
      split
      next leaf _ =>
        have bound := (smallestChild_spec view inv (Nat.lt_of_not_le leaf)).1
        have inside : index < ops.size s := by omega
        have size := view.swap_size inv inside bound
        have rest := ih _ (ops.smallestChild s index) (view.swap_inv inv inside bound)
        exact ⟨rest.1, rest.2.trans size⟩
      · exact ⟨inv, rfl⟩

theorem siftDown_inv (s : S) (index : Nat) (inv : Inv s) :
    Inv (ops.siftDown s index) ∧ ops.size (ops.siftDown s index) = ops.size s :=
  siftDownLoop_inv view (ops.size s - index) s index inv

theorem siftDownLoop_ordered (rounds : Nat) (s : S) (index : Nat)
    (enough : ops.size s ≤ index + rounds) (inv : Inv s)
    (order : DownOrdered ops rank s index) :
    Ordered ops rank (ops.siftDownLoop rounds s index) := by
  -- a position without children is in order as soon as the rest of the heap is
  have childless : ∀ (s : S) (index : Nat), DownOrdered ops rank s index →
      ops.size s ≤ index * 2 + 1 → Ordered ops rank s := by
    intro s index order leaf i positive fits
    refine order.off i positive fits (fun child => ?_)
    rcases child_cases positive child with same | same <;> omega
  induction rounds generalizing s index with
  | zero => exact childless s index order (by omega)
  | succ rounds ih =>
    rw [HeapOps.siftDownLoop]
    by_cases leaf : ops.size s ≤ index * 2 + 1
    · rw [if_pos leaf]
      exact childless s index order leaf
    · rw [if_neg leaf]
      dsimp only
      obtain ⟨bound, lower, below, smallest⟩ := smallestChild_spec view inv (Nat.lt_of_not_le leaf)
      have above := parent_lt lower
      have inside : index < ops.size s := by omega
      have compare := view.less_iff inv bound inside
      by_cases smaller : ops.less s (ops.smallestChild s index) index = true
      · rw [if_pos smaller]
        have moved := order.move view inv inside bound lower below smallest (compare.mp smaller)
        have size := view.swap_size inv inside bound
        exact ih _ (ops.smallestChild s index) (by omega) (view.swap_inv inv inside bound) moved
      · rw [if_neg smaller]
        intro i positive fits
        by_cases child : parent i = index
        · have least := not_lt.mp (fun less => smaller (compare.mpr less))
          exact child ▸ least.trans (smallest i positive fits child)
        · exact order.off i positive fits child

/-- Sifting down repairs a heap whose only disorder is between `index` and its children. -/
theorem siftDown_ordered (s : S) (index : Nat) (inv : Inv s)
    (order : DownOrdered ops rank s index) : Ordered ops rank (ops.siftDown s index) :=
  siftDownLoop_ordered view (ops.size s - index) s index (by omega) inv order

end Sift

end FlowSketch.Lib.BinaryHeap
