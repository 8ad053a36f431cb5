import FlowSketch.Source.SpaceSaving.Index

/-!
# What the in-place operations do

`raise`, `insertEntryWithDigest` and `replaceMin` each overwrite or append one slot, repair the index
and sift once. `Written` is their common result. The structural part holds whatever the counts are;
the heap order survives a raise only if the count did not wrap.
-/

namespace FlowSketch.Source.SpaceSaving
open Lib.Octets Lib.Word64 Lib.BinaryHeap Source.Core
open Lib.CounterSummary (Entry)

/-- The redundant structures agree with each other. -/
structure Wf (hashing : Hashing) (s : SpaceSaving) : Prop where
  indexed : Indexed hashing s
  heap : HeapInv s

/-- `t` is `s` with the slots' contents replaced by `cs`. -/
structure Written (hashing : Hashing) (s t : SpaceSaving) (cs : List Content) : Prop where
  wf : Wf hashing t
  contents : t.contents = cs
  capacity : t.capacity = s.capacity
  hash : t.hash = s.hash
  totalWeight : t.totalWeight = s.totalWeight
  updates : t.updates = s.updates

theorem Written.reheaped {hashing : Hashing} {s t u : SpaceSaving} {cs : List Content}
    (written : Written hashing s t cs) (frame : Reheaped t u) (heap : HeapInv u) :
    Written hashing s u cs :=
  ⟨⟨written.wf.indexed.reheaped frame, heap⟩, frame.contents.trans written.contents,
    frame.capacity.trans written.capacity, frame.hash.trans written.hash,
    frame.totalWeight.trans written.totalWeight, frame.updates.trans written.updates⟩

/-! ## Writing one slot -/

/-- The summary with slot `i` rewritten, before index and heap follow. -/
def modifySlot (s : SpaceSaving) (i : Nat) (f : Slot → Slot) : SpaceSaving :=
  { s with slots := s.slots.modify i f }

theorem modifySlot_slotAt (s : SpaceSaving) {i : Nat} (inside : i < s.slots.length)
    (f : Slot → Slot) (j : Nat) :
    (s.modifySlot i f).slotAt j = if j = i then f (s.slotAt i) else s.slotAt j := by
  simp only [slotAt, modifySlot, List.getD_eq_getElem?_getD, List.getElem?_modify]
  by_cases here : j = i
  · subst here
    simp [List.getElem?_eq_getElem inside]
  · rw [if_neg here]
    cases s.slots[j]? <;> simp [Ne.symm here]

theorem modifySlot_contents (s : SpaceSaving) {i : Nat} (inside : i < s.slots.length)
    (f : Slot → Slot) :
    (s.modifySlot i f).contents = s.contents.set i (f (s.slotAt i)).content := by
  apply List.ext_getElem?
  intro j
  rw [List.getElem?_set]
  by_cases here : i = j
  · subst here
    rw [if_pos rfl, contents_length, if_pos inside, contents_getElem? (by simpa [modifySlot]),
      modifySlot_slotAt s inside, if_pos rfl]
  · rw [if_neg here]
    simp only [contents, modifySlot, List.getElem?_map, List.getElem?_modify, if_neg here]
    simp

theorem HeapInv.modifySlot {s : SpaceSaving} (inv : HeapInv s) {i : Nat}
    (inside : i < s.slots.length) {f : Slot → Slot}
    (pointer : ∀ slot, (f slot).heapIndex = slot.heapIndex) : HeapInv (s.modifySlot i f) := by
  have size : (s.modifySlot i f).slots.length = s.slots.length := List.length_modify ..
  refine ⟨inv.length.trans size.symm, ?_, ?_⟩
  · intro j bound
    rw [size]
    exact inv.inside j bound
  · intro j bound
    rw [modifySlot_slotAt s inside]
    split
    next here =>
      rw [pointer, ← here]
      exact inv.back j bound
    next => exact inv.back j bound

/-- Only the heap position of the rewritten slot can have another rank. -/
theorem modifySlot_heapRank {s : SpaceSaving} (inv : HeapInv s) {i : Nat}
    (inside : i < s.slots.length) (f : Slot → Slot) {j : Nat} (bound : j < s.minHeap.length) :
    (s.modifySlot i f).heapRank j =
      if j = (s.slotAt i).heapIndex then (f (s.slotAt i)).rank else s.heapRank j := by
  have position := inv.position inside
  have same : s.heapAt j = i ↔ j = (s.slotAt i).heapIndex := by
    refine ⟨fun here => ?_, fun here => here ▸ position.2⟩
    rw [← here]
    exact (inv.back j bound).symm
  show ((s.modifySlot i f).slotAt (s.heapAt j)).rank = _
  rw [modifySlot_slotAt s inside]
  simp only [same]
  split <;> rfl

theorem keys_set (cs : List Content) (i : Nat) (c : Content) :
    (cs.set i c).map Content.key = (cs.map Content.key).set i c.key := List.map_set ..

/-- Rewriting a key keeps the keys distinct unless another slot holds it. -/
theorem distinct_set {cs : List Content} (distinct : (cs.map Content.key).Nodup) {i : Nat}
    {c : Content} (fresh : ∀ j d, cs[j]? = some d → d.key = c.key → j = i) :
    ((cs.set i c).map Content.key).Nodup := by
  rw [List.nodup_iff_injective_get]
  rintro ⟨a, boundA⟩ ⟨b, boundB⟩ same
  simp only [List.length_map, List.length_set] at boundA boundB
  have once := List.nodup_iff_getElem?_ne_getElem?.mp distinct
  simp only [List.get_eq_getElem, List.getElem_map, List.getElem_set] at same
  have atA : cs[a]? = some cs[a] := List.getElem?_eq_getElem boundA
  have atB : cs[b]? = some cs[b] := List.getElem?_eq_getElem boundB
  have inj : ∀ x y, x < y → y < cs.length → (cs[x]?).map Content.key ≠ (cs[y]?).map Content.key := by
    intro x y order bound
    have apart := once x y order (by simpa using bound)
    simpa using apart
  apply Fin.ext
  show a = b
  split at same <;> split at same
  · omega
  · rename_i hereA thereB
    exact absurd (fresh b cs[b] atB same.symm).symm thereB
  · rename_i thereA hereB
    exact absurd (fresh a cs[a] atA same).symm thereA
  · rcases Nat.lt_trichotomy a b with less | equal | greater
    · exact absurd (by simp [atA, atB, same]) (inj a b less boundB)
    · exact equal
    · exact absurd (by simp [atA, atB, same]) (inj b a greater boundA)

/-! ## The three slot updates -/

def raised (c : Content) (weight : Nat) : Content :=
  { c with entry := { c.entry with count := wrappingAdd c.entry.count weight } }

theorem raise_spec {hashing : Hashing} {s : SpaceSaving} (wf : Wf hashing s) {i : Nat} {c : Content}
    (found : s.contents[i]? = some c) (weight : Nat) :
    Written hashing s (s.raise i weight) (s.contents.set i (raised c weight)) ∧
      (HeapOrdered s → c.entry.count ≤ wrappingAdd c.entry.count weight →
        HeapOrdered (s.raise i weight)) := by
  obtain ⟨inside, contentIs⟩ := slotAt_content found
  let f : Slot → Slot := fun slot =>
    { slot with entry := { slot.entry with count := wrappingAdd slot.entry.count weight } }
  have heap : HeapInv (s.modifySlot i f) := wf.heap.modifySlot inside (fun _ => rfl)
  have contents : (s.modifySlot i f).contents = s.contents.set i (raised c weight) := by
    rw [modifySlot_contents s inside, ← contentIs]
    rfl
  have same : ∀ j d, s.contents[j]? = some d → d.key = (raised c weight).key → j = i :=
    fun j d atJ keyIs => wf.indexed.unique atJ found keyIs
  have written : Written hashing s (s.modifySlot i f) (s.contents.set i (raised c weight)) := by
    refine ⟨⟨⟨?_, ?_, ?_, ?_, wf.indexed.positive⟩, heap⟩, contents, rfl, rfl, rfl, rfl⟩
    · rw [contents]
      refine ⟨wf.indexed.index.nodup, fun digest j => ?_⟩
      show j ∈ members (s.keyIndex digest) ↔ _
      rw [wf.indexed.index.exact, List.getElem?_set]
      by_cases here : i = j
      · subst here
        rw [if_pos rfl, contents_length, if_pos inside, found]
        simp [raised]
      · rw [if_neg here]
    · rw [contents]
      intro d member
      rcases List.mem_or_eq_of_mem_set member with old | rfl
      · exact wf.indexed.digest d old
      · exact wf.indexed.digest c (List.mem_of_getElem? found)
    · rw [contents]
      exact distinct_set wf.indexed.distinct same
    · rw [contents, List.length_set]
      exact wf.indexed.size
  have position := wf.heap.position inside
  have index : ((s.modifySlot i f).slotAt i).heapIndex = (s.slotAt i).heapIndex := by
    rw [modifySlot_slotAt s inside, if_pos rfl]
  have sifted : s.raise i weight = (s.modifySlot i f).siftDown (s.slotAt i).heapIndex := by
    rw [← index]
    rfl
  have frame := siftDown_frame heap (s.slotAt i).heapIndex
  rw [sifted]
  refine ⟨written.reheaped frame.2 frame.1, fun ordered grows => ?_⟩
  refine siftDown_heapOrdered heap ?_
  refine Ordered.raise ordered rfl position.1 ?_ ?_
  · intro j bound off
    rw [modifySlot_heapRank wf.heap inside f bound, if_neg off]
  · intro _
    rw [modifySlot_heapRank wf.heap inside f position.1, if_pos rfl]
    have count : (s.slotAt i).entry.count = c.entry.count := by rw [← contentIs]; rfl
    show (s.slotAt (s.heapAt (s.slotAt i).heapIndex)).rank ≤ _
    rw [position.2]
    refine Prod.Lex.toLex_mono ⟨?_, le_refl _⟩
    show (s.slotAt i).entry.count ≤ wrappingAdd (s.slotAt i).entry.count weight
    rw [count]
    exact grows

/-- The new slot and its heap position, before sifting. -/
def pushSlot (s : SpaceSaving) (c : Content) : SpaceSaving :=
  { s with slots := s.slots ++ [{ c with heapIndex := s.minHeap.length }]
           keyIndex := (s.addToIndex c.digest s.slots.length).keyIndex
           minHeap := s.minHeap ++ [s.slots.length] }

theorem pushSlot_slotAt (s : SpaceSaving) (c : Content) {j : Nat} (inside : j < s.slots.length) :
    (s.pushSlot c).slotAt j = s.slotAt j := by
  simp [slotAt, pushSlot, List.getD_eq_getElem?_getD, List.getElem?_append_left inside]

theorem pushSlot_heapAt (s : SpaceSaving) (c : Content) {j : Nat} (bound : j < s.minHeap.length) :
    (s.pushSlot c).heapAt j = s.heapAt j := by
  simp [heapAt, pushSlot, List.getD_eq_getElem?_getD, List.getElem?_append_left bound]

theorem HeapInv.pushSlot {s : SpaceSaving} (inv : HeapInv s) (c : Content) :
    HeapInv (s.pushSlot c) := by
  have last : (s.pushSlot c).heapAt s.minHeap.length = s.slots.length := by
    simp [heapAt, SpaceSaving.pushSlot]
  have newest : (s.pushSlot c).slotAt s.slots.length =
      { c with heapIndex := s.minHeap.length } := by
    simp [slotAt, SpaceSaving.pushSlot]
  have sizes : (s.pushSlot c).minHeap.length = s.minHeap.length + 1 ∧
      (s.pushSlot c).slots.length = s.slots.length + 1 := by
    simp [SpaceSaving.pushSlot]
  refine ⟨by have := inv.length; omega, ?_, ?_⟩
  · intro j bound
    by_cases old : j < s.minHeap.length
    · rw [pushSlot_heapAt s c old]
      have := inv.inside j old
      omega
    · obtain rfl : j = s.minHeap.length := by omega
      omega
  · intro j bound
    by_cases old : j < s.minHeap.length
    · rw [pushSlot_heapAt s c old, pushSlot_slotAt s c (inv.inside j old)]
      exact inv.back j old
    · obtain rfl : j = s.minHeap.length := by omega
      rw [last, newest]

theorem insertEntry_spec {hashing : Hashing} {s : SpaceSaving} (wf : Wf hashing s) {c : Content}
    (digest : c.digest = s.keyDigest hashing c.key) (fresh : ∀ d ∈ s.contents, d.key ≠ c.key)
    (room : s.slots.length < s.capacity) :
    Written hashing s (s.insertEntryWithDigest c.key c.digest c.entry.count c.entry.error)
        (s.contents ++ [c]) ∧
      (HeapOrdered s →
        HeapOrdered (s.insertEntryWithDigest c.key c.digest c.entry.count c.entry.error)) := by
  have heap : HeapInv (s.pushSlot c) := wf.heap.pushSlot c
  have contents : (s.pushSlot c).contents = s.contents ++ [c] := by
    simp [SpaceSaving.contents, pushSlot, Slot.content]
  have written : Written hashing s (s.pushSlot c) (s.contents ++ [c]) := by
    refine ⟨⟨⟨?_, ?_, ?_, ?_, wf.indexed.positive⟩, heap⟩, contents, rfl, rfl, rfl, rfl⟩
    · rw [contents]
      have pushed := wf.indexed.index.push c
      rw [contents_length] at pushed
      exact pushed
    · rw [contents]
      intro d member
      rcases List.mem_append.mp member with old | new
      · exact wf.indexed.digest d old
      · obtain rfl := List.mem_singleton.mp new
        exact digest
    · rw [contents, List.map_append, List.nodup_append]
      refine ⟨wf.indexed.distinct, by simp, ?_⟩
      simp only [List.mem_map, List.map_cons, List.map_nil, List.mem_singleton]
      rintro _ ⟨d, member, rfl⟩ _ rfl
      exact fresh d member
    · rw [contents, List.length_append, contents_length]
      exact room
  have sifted : s.insertEntryWithDigest c.key c.digest c.entry.count c.entry.error =
      (s.pushSlot c).siftUp s.minHeap.length := rfl
  have size : (s.pushSlot c).minHeap.length = s.minHeap.length + 1 := by simp [pushSlot]
  have frame := siftUp_frame heap (by omega : s.minHeap.length < (s.pushSlot c).minHeap.length)
  rw [sifted]
  refine ⟨written.reheaped frame.2 frame.1, fun ordered => ?_⟩
  refine siftUp_heapOrdered heap (by omega) (Ordered.push ordered size ?_)
  intro j bound
  unfold heapRank
  rw [pushSlot_heapAt s c bound, pushSlot_slotAt s c (wf.heap.inside j bound)]

theorem replaceMin_spec {hashing : Hashing} {s : SpaceSaving} (wf : Wf hashing s) {c : Content}
    (digest : c.digest = s.keyDigest hashing c.key) (fresh : ∀ d ∈ s.contents, d.key ≠ c.key)
    (some_slot : 0 < s.slots.length) :
    ∃ t, s.replaceMin c.key c.digest c.entry.count c.entry.error =
        some (t, (s.slotAt (s.heapAt 0)).key) ∧
      Written hashing s t (s.contents.set (s.heapAt 0) c) ∧ (HeapOrdered s → HeapOrdered t) := by
  have root : 0 < s.minHeap.length := by rw [wf.heap.length]; exact some_slot
  have inside := wf.heap.inside 0 root
  have head : s.minHeap.head? = some (s.heapAt 0) := by
    rw [heapAt_eq_getElem root, List.head?_eq_getElem?, List.getElem?_eq_getElem root]
  obtain ⟨keyIndex, removed, index⟩ :=
    wf.indexed.index.overwrite (contents_getElem? inside) c
  let f : Slot → Slot := fun slot => { slot with key := c.key, digest := c.digest, entry := c.entry }
  let u : SpaceSaving := { s.modifySlot (s.heapAt 0) f with
    keyIndex := (({ s with keyIndex } : SpaceSaving).addToIndex c.digest (s.heapAt 0)).keyIndex }
  have heap : HeapInv (s.modifySlot (s.heapAt 0) f) := wf.heap.modifySlot inside (fun _ => rfl)
  have heapU : HeapInv u := ⟨heap.length, heap.inside, heap.back⟩
  have contents : u.contents = s.contents.set (s.heapAt 0) c := modifySlot_contents s inside f
  have written : Written hashing s u (s.contents.set (s.heapAt 0) c) := by
    refine ⟨⟨⟨?_, ?_, ?_, ?_, wf.indexed.positive⟩, heapU⟩, contents, rfl, rfl, rfl, rfl⟩
    · rw [contents]
      exact index
    · rw [contents]
      intro d member
      rcases List.mem_or_eq_of_mem_set member with old | rfl
      · exact wf.indexed.digest d old
      · exact digest
    · rw [contents]
      refine distinct_set wf.indexed.distinct (fun j d atJ keyIs => ?_)
      exact absurd keyIs (fresh d (List.mem_of_getElem? atJ))
    · rw [contents, List.length_set]
      exact wf.indexed.size
  have result : s.replaceMin c.key c.digest c.entry.count c.entry.error =
      some (u.siftDown 0, (s.slotAt (s.heapAt 0)).key) := by
    have old : s.removeFromIndex (s.slotAt (s.heapAt 0)).digest (s.heapAt 0) =
      some { s with keyIndex } := removed
    simp only [replaceMin, head, old, Option.bind_eq_bind, Option.bind_some]
    rfl
  have frame := siftDown_frame heapU 0
  refine ⟨u.siftDown 0, result, written.reheaped frame.2 frame.1, fun ordered => ?_⟩
  refine siftDown_heapOrdered heapU (Ordered.raise ordered rfl root ?_ (by omega))
  intro j bound off
  have rank := modifySlot_heapRank wf.heap inside f bound
  rw [wf.heap.back 0 root, if_neg off] at rank
  exact rank

end FlowSketch.Source.SpaceSaving
