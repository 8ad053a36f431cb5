import FlowSketch.Source.Snapshots.Summaries

/-!
# Merges that change nothing

A merge rebuilds the slots in the order of retention. A summary that a merge left behind is therefore the
same after another merge exactly when the other side weighs nothing against it.
-/

namespace FlowSketch.Source.SpaceSaving
open Lib.Octets Lib.Word64 Lib.BinaryHeap Lib.CounterSummary Lib.Ranking Lib.AssocMap Source.Core

/-! ## Totals are not read by the structures -/

/-- Other totals. -/
def withTotals (s : SpaceSaving) (totalWeight updates : Nat) : SpaceSaving :=
  { s with totalWeight, updates }

theorem insertEntry_withTotals (hashing : Hashing) (s : SpaceSaving) (totalWeight updates : Nat)
    (key : Bytes) (count error : Nat) :
    (s.withTotals totalWeight updates).insertEntry hashing key count error =
      (s.insertEntry hashing key count error).withTotals totalWeight updates := by
  unfold insertEntry insertEntryWithDigest siftUp
  have passes := HeapOps.siftUp_map heapOps (f := fun s => s.withTotals totalWeight updates)
    (fun _ _ _ => rfl) (fun _ _ _ => rfl)
  dsimp only
  rw [← passes]
  rfl

theorem insertAll_withTotals (hashing : Hashing) (items : List (Bytes × Entry)) (s : SpaceSaving)
    (totalWeight updates : Nat) :
    (s.withTotals totalWeight updates).insertAll hashing items =
      (s.insertAll hashing items).withTotals totalWeight updates := by
  induction items generalizing s with
  | nil => rfl
  | cons item rest ih =>
    show insertAll hashing ((s.withTotals totalWeight updates).insertEntry hashing _ _ _) rest = _
    rw [insertEntry_withTotals, ih]
    rfl

/-! ## Rebuilt summaries -/

theorem mergeFrom_eq {hashing : Hashing} {self other : SpaceSaving}
    (compatible : self.compatibility hashing = other.compatibility hashing) :
    self.mergeFrom hashing other =
      .ok ((self.clear.insertAll hashing (retained hashing self other)).withTotals
        (wrappingAdd self.totalWeight other.totalWeight) (wrappingAdd self.updates other.updates)) := by
  have passes := (SketchCompatibility.ensureMatches_ok_iff _ _).mpr compatible
  unfold mergeFrom
  rw [passes]
  rfl

/-- The order of retention: by count from the greatest, then by key. -/
def retainRank (item : Bytes × Entry) : Natᵒᵈ ×ₗ Bytes := toLex (OrderDual.toDual item.2.count, item.1)

/-- What a merge leaves: the slots in the order of retention, the structures as inserting them one
after the other builds them, and words throughout. -/
structure Rebuilt (hashing : Hashing) (s : SpaceSaving) : Prop where
  wf : Wf hashing s
  form : s.clear.insertAll hashing s.pairs = s
  sorted : s.pairs.Pairwise (fun a b => retainRank a ≤ retainRank b)
  entries : ∀ item ∈ s.pairs, item.2.count < modulus ∧ item.2.error < modulus
  totalWeight : s.totalWeight < modulus
  updates : s.updates < modulus

theorem pairs_insertAll {hashing : Hashing} {s : SpaceSaving} {items : List (Bytes × Entry)}
    (positive : 0 < s.capacity) (distinct : (items.map Prod.fst).Nodup)
    (room : items.length ≤ s.capacity) : (s.clear.insertAll hashing items).pairs = items := by
  obtain ⟨written, _⟩ := insertAll_spec items (@Wf.clear hashing s positive) distinct
    (by simp [clear, contents]) (by simpa [clear] using room)
  have listed : ∀ t : SpaceSaving, t.pairs = t.contents.map (fun c => (c.key, c.entry)) := by
    intro t
    rw [pairs, contents, List.map_map]
    rfl
  rw [listed, written.contents, show s.clear.contents = [] from rfl, List.nil_append, List.map_map]
  exact List.map_id _

theorem pairs_merged {hashing : Hashing} {self other : SpaceSaving} (left : Wf hashing self)
    (right : Wf hashing other) :
    (self.clear.insertAll hashing (retained hashing self other)).pairs =
      retained hashing self other :=
  pairs_insertAll left.indexed.positive (retained_nodup left.indexed right.indexed)
    (List.length_take_le _ _)

theorem Rebuilt.merge {hashing : Hashing} {self other t : SpaceSaving} (left : Wf hashing self)
    (right : Wf hashing other) (merged : self.mergeFrom hashing other = .ok t) :
    Rebuilt hashing t := by
  obtain ⟨compatible, step⟩ := mergeFrom_inv left right merged
  rw [mergeFrom_eq compatible] at merged
  have result := (Except.ok.inj merged).symm
  have listed : t.pairs = retained hashing self other := by
    rw [result]
    exact pairs_merged left right
  refine ⟨step.wf, ?_, ?_, ?_, ?_, ?_⟩
  · have cleared : t.clear = self.clear.withTotals (wrappingAdd self.totalWeight other.totalWeight)
        (wrappingAdd self.updates other.updates) := by
      rw [SpaceSaving.clear, step.capacity, step.hash, step.totalWeight, step.updates]
      rfl
    rw [cleared, listed, insertAll_withTotals, ← result]
  · rw [listed]
    exact (sort_pairwise retainBefore_iff _).sublist (List.take_sublist _ _)
  · intro item member
    rw [listed] at member
    rw [(sortedEntries_spec left.indexed right.indexed).2 item (List.mem_of_mem_take member)]
    exact ⟨wrappingAdd_lt _ _, wrappingAdd_lt _ _⟩
  · rw [step.totalWeight]
    exact wrappingAdd_lt _ _
  · rw [step.updates]
    exact wrappingAdd_lt _ _

/-! ## Idle merges -/

/-- `theirs` weighs nothing against `mine`: it has no totals, charges nothing to the keys of `mine`, and
its own keys come after all of them in a full summary. -/
structure Idle (hashing : Hashing) (mine theirs : SpaceSaving) : Prop where
  totalWeight : theirs.totalWeight = 0
  updates : theirs.updates = 0
  charges : ∀ slot ∈ mine.slots, charge hashing theirs slot.key = { count := 0, error := 0 }
  dropped : ∀ slot ∈ theirs.slots, mine.get hashing slot.key = none →
    mine.slots.length = mine.capacity ∧ ∀ kept ∈ mine.slots,
      retainBefore (kept.key, kept.entry) (slot.key, joint hashing mine theirs slot.key) = true

theorem charge_words {hashing : Hashing} {s : SpaceSaving} (rebuilt : Rebuilt hashing s)
    (key : Bytes) : (charge hashing s key).count < modulus ∧ (charge hashing s key).error < modulus := by
  have slotWords : ∀ index, (s.slotAt index).entry.count < modulus ∧
      (s.slotAt index).entry.error < modulus := by
    intro index
    by_cases inside : index < s.slots.length
    · rw [slotAt, List.getD_eq_getElem _ _ inside]
      exact rebuilt.entries _ (List.mem_map_of_mem (List.getElem_mem inside))
    · rw [slotAt, List.getD_eq_default _ _ (Nat.le_of_not_lt inside)]
      exact ⟨modulus_pos, modulus_pos⟩
  have least : s.missingCharge < modulus := by
    unfold missingCharge minimumCount
    split
    · split
      · exact (slotWords _).1
      · exact modulus_pos
    · exact modulus_pos
  unfold charge get
  cases s.findSlot hashing key with
  | none => exact ⟨least, least⟩
  | some index => exact slotWords index

theorem joint_eq_iff {hashing : Hashing} {self other : SpaceSaving} (left : Rebuilt hashing self)
    (right : Rebuilt hashing other) {slot : Slot} (member : slot ∈ self.slots) :
    joint hashing self other slot.key = slot.entry ↔
      charge hashing other slot.key = { count := 0, error := 0 } := by
  have own := left.entries (slot.key, slot.entry) (List.mem_map_of_mem member)
  have theirs := charge_words right slot.key
  rw [joint, charge_of_slot left.wf.indexed member]
  generalize charge hashing other slot.key = extra at theirs ⊢
  generalize slot.entry = entry at own ⊢
  cases entry
  cases extra
  rw [Entry.mk.injEq, Entry.mk.injEq, wrappingAdd_eq_left_iff own.1 theirs.1,
    wrappingAdd_eq_left_iff own.2 theirs.2]

theorem retained_eq_pairs_iff {hashing : Hashing} {self other : SpaceSaving}
    (left : Rebuilt hashing self) (right : Rebuilt hashing other) :
    retained hashing self other = self.pairs ↔
      (∀ slot ∈ self.slots, charge hashing other slot.key = { count := 0, error := 0 }) ∧
        ∀ slot ∈ other.slots, self.get hashing slot.key = none →
          self.slots.length = self.capacity ∧ ∀ kept ∈ self.slots,
            retainBefore (kept.key, kept.entry) (slot.key, joint hashing self other slot.key) = true := by
  -- The entries of both passes: those of `self` are its own as soon as nothing is charged to them.
  have listed := mergedEntries_eq left.wf.indexed right.wf.indexed
  rw [mergedKeys, List.map_append, List.map_map] at listed
  have own : (∀ slot ∈ self.slots, charge hashing other slot.key = { count := 0, error := 0 }) ↔
      self.slots.map ((fun key => (key, joint hashing self other key)) ∘ Slot.key) = self.pairs := by
    rw [pairs, List.map_inj_left]
    refine forall₂_congr fun slot member => ?_
    rw [← joint_eq_iff left right member]
    simp
  have distinct : ((mergedEntries hashing self other).map Prod.fst).Nodup := by
    have perm := (sortedEntries_spec left.wf.indexed right.wf.indexed).1
    rw [((List.mergeSort_perm _ _).map Prod.fst).symm.nodup_iff, perm.nodup_iff]
    exact mergedKeys_nodup left.wf.indexed right.wf.indexed
  have short : self.pairs.length ≤ self.capacity := by
    rw [pairs_length, ← contents_length]
    exact left.wf.indexed.size
  have trimmed : self.slots.map ((fun key => (key, joint hashing self other key)) ∘ Slot.key) =
      self.pairs → (retained hashing self other = self.pairs ↔
        ∀ slot ∈ other.slots, self.get hashing slot.key = none →
          self.slots.length = self.capacity ∧ ∀ kept ∈ self.slots,
            retainBefore (kept.key, kept.entry) (slot.key, joint hashing self other slot.key) = true) := by
    intro same
    rw [same] at listed
    rw [listed] at distinct
    rw [retained, listed, take_sort_append_iff retainBefore_iff left.sorted short
      fun a memberA b memberB equal => List.inj_on_of_nodup_map distinct memberA memberB
        (congrArg Prod.snd (toLex_inj.mp equal))]
    simp only [pairs_length]
    constructor
    · intro after slot member absent
      have added := after (slot.key, joint hashing self other slot.key) (List.mem_map_of_mem
        (List.mem_filter.mpr ⟨List.mem_map_of_mem member, Option.isNone_iff_eq_none.mpr absent⟩))
      refine ⟨added.1, fun kept inside => (retainBefore_iff _ _).mpr ?_⟩
      exact added.2 (kept.key, kept.entry) (List.mem_map_of_mem inside)
    · intro dropped item member
      obtain ⟨key, inside, rfl⟩ := List.mem_map.mp member
      obtain ⟨tracked, absent⟩ := List.mem_filter.mp inside
      obtain ⟨slot, belongs, rfl⟩ := List.mem_map.mp tracked
      obtain ⟨full, after⟩ := dropped slot belongs (Option.isNone_iff_eq_none.mp absent)
      refine ⟨full, fun pair kept => ?_⟩
      obtain ⟨mine, listed, rfl⟩ := List.mem_map.mp kept
      exact (retainBefore_iff _ _).mp (after mine listed)
  constructor
  · intro kept
    have charges := own.mpr (List.map_inj_left.mpr fun slot member => ?_)
    · exact ⟨charges, (trimmed (own.mp charges)).mp kept⟩
    · have inside : (slot.key, slot.entry) ∈ retained hashing self other := by
        rw [kept]
        exact List.mem_map_of_mem member
      have entry := (sortedEntries_spec left.wf.indexed right.wf.indexed).2 _
        (List.mem_of_mem_take inside)
      exact Prod.ext rfl entry.symm
  · rintro ⟨charges, dropped⟩
    exact (trimmed (own.mp charges)).mpr dropped

/-- Exactly then the merge leaves `self` as it is. -/
theorem mergeFrom_self_iff {hashing : Hashing} {self other : SpaceSaving}
    (left : Rebuilt hashing self) (right : Rebuilt hashing other)
    (compatible : self.compatibility hashing = other.compatibility hashing) :
    self.mergeFrom hashing other = .ok self ↔ Idle hashing self other := by
  have totals := wrappingAdd_eq_left_iff left.totalWeight right.totalWeight
  have counts := wrappingAdd_eq_left_iff left.updates right.updates
  rw [mergeFrom_eq compatible, Except.ok.injEq]
  constructor
  · intro same
    have listed := congrArg pairs same
    have weight := congrArg SpaceSaving.totalWeight same
    have updates := congrArg SpaceSaving.updates same
    obtain ⟨charges, dropped⟩ :=
      (retained_eq_pairs_iff left right).mp ((pairs_merged left.wf right.wf).symm.trans listed)
    exact ⟨totals.mp weight, counts.mp updates, charges, dropped⟩
  · intro idle
    have kept := (retained_eq_pairs_iff left right).mpr ⟨idle.charges, idle.dropped⟩
    rw [kept, left.form, totals.mpr idle.totalWeight, counts.mpr idle.updates]
    rfl

end FlowSketch.Source.SpaceSaving
