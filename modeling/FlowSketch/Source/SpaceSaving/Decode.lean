import FlowSketch.Source.SpaceSaving.Merge

/-!
# Decoding snapshots

A snapshot's payload lists keys with their counts and errors. `entriesOf` is that list, read without
any of the checks; `from_snapshot` accepts only lists with distinct keys that fit the capacity, and
builds exactly the summary they describe.
-/

namespace FlowSketch.Source.SpaceSaving
open Lib.Octets Lib.Word64 Lib.BinaryHeap Lib.CounterSummary Source.Core

def decodeItems : Nat → Read (List (Bytes × Entry))
  | 0 => return []
  | n + 1 => do
    let key ← Reader.lpBytes
    let count ← Reader.u64
    let error ← Reader.u64
    let rest ← decodeItems n
    return (key, { count, error }) :: rest

/-- The entries a snapshot lists. -/
def entriesOf (hashing : Hashing) (bytes : Bytes) : Except SketchError (List (Bytes × Entry)) := do
  let (_, _, payload) ← readSnapshot hashing bytes
  let (_, afterTotal) ← Reader.u64 payload
  let (_, afterUpdates) ← Reader.u64 afterTotal
  let (n, afterCount) ← Reader.u32 afterUpdates
  let (items, _) ← decodeItems n afterCount
  return items

theorem insertEntry_hash (hashing : Hashing) {s : SpaceSaving} (wf : Wf hashing s)
    {key : Bytes} (missing : s.findSlot hashing key = none) (room : s.slots.length < s.capacity)
    (entry : Entry) :
    Written hashing s (s.insertEntry hashing key entry.count entry.error)
      (s.contents ++ [s.contentOf hashing (key, entry)]) :=
  (insertEntry_spec wf (c := s.contentOf hashing (key, entry)) rfl
    ((wf.indexed.find_none_iff key).mp missing) room).1

theorem readEntries_spec {hashing : Hashing} (n : Nat) {s t : SpaceSaving} {rest later : Bytes}
    (wf : Wf hashing s) (room : s.slots.length + n ≤ s.capacity)
    (success : readEntries hashing n s rest = .ok (t, later)) :
    ∃ items, decodeItems n rest = .ok (items, later) ∧ items.length = n ∧
      (items.map Prod.fst).Nodup ∧ (∀ c ∈ s.contents, c.key ∉ items.map Prod.fst) ∧
      (∀ item ∈ items, item.2.error ≤ item.2.count) ∧ t = s.insertAll hashing items := by
  induction n generalizing s rest with
  | zero =>
    cases success
    exact ⟨[], rfl, rfl, by simp, by simp, by simp, rfl⟩
  | succ n ih =>
    unfold readEntries at success
    obtain ⟨key, afterKey, readKey, success⟩ := Read.bind_ok success
    obtain ⟨count, afterCount, readCount, success⟩ := Read.bind_ok success
    obtain ⟨error, afterError, readError, success⟩ := Read.bind_ok success
    obtain ⟨bounded, success⟩ := Reader.guard_ok success
    obtain ⟨unseen, success⟩ := Reader.guard_ok success
    have missing : s.findSlot hashing key = none := Option.not_isSome_iff_eq_none.mp unseen
    have written := insertEntry_hash hashing wf missing (by omega) ⟨count, error⟩
    have length : (s.insertEntry hashing key count error).slots.length = s.slots.length + 1 := by
      rw [← contents_length, written.contents]
      simp
    obtain ⟨items, decoded, size, distinct, fresh, sound, result⟩ :=
      ih written.wf (by rw [length, written.capacity]; omega) success
    rw [written.contents] at fresh
    refine ⟨(key, ⟨count, error⟩) :: items, ?_, by simp [size], ?_, ?_, ?_, result⟩
    · unfold decodeItems
      simp only [bind, StateT.bind, readKey, readCount, readError, Except.bind, decoded]
      rfl
    · rw [List.map_cons, List.nodup_cons]
      exact ⟨fresh (s.contentOf hashing (key, ⟨count, error⟩)) (by simp), distinct⟩
    · intro c member listed
      rcases List.mem_cons.mp listed with same | later
      · exact (wf.indexed.find_none_iff key).mp missing c member same
      · exact fresh c (by simp [member]) later
    · intro item member
      rcases List.mem_cons.mp member with rfl | later
      · exact Nat.le_of_not_gt bounded
      · exact sound item later

theorem summaryOf_insertAll {items : List (Bytes × Entry)} (hashing : Hashing) (s : SpaceSaving)
    (distinct : (items.map Prod.fst).Nodup) :
    summaryOf (items.map (s.contentOf hashing)) =
      items.foldl (fun summary item => summary.insert item.1 item.2) Summary.empty := by
  induction items using List.reverseRecOn with
  | nil => rfl
  | append_singleton items last ih =>
    rw [List.map_append, List.nodup_append] at distinct
    rw [List.map_append, List.foldl_append, ← ih distinct.1]
    refine summaryOf_push (c := s.contentOf hashing last) ?_
    intro d member same
    obtain ⟨item, inside, rfl⟩ := List.mem_map.mp member
    exact distinct.2.2 item.1 (List.mem_map_of_mem inside) last.1 (by simp) same

def fresh (capacity : Nat) (hash : HashSpec) (totalWeight updates : Nat) : SpaceSaving :=
  { capacity, hash, slots := [], keyIndex := fun _ => none, minHeap := [], totalWeight, updates }

theorem new_ok {capacity : Nat} {hash : HashSpec} {s : SpaceSaving}
    (success : SpaceSaving.new capacity hash = .ok s) :
    0 < capacity ∧ s = fresh capacity hash 0 0 := by
  unfold new at success
  split at success
  · cases success
  next nonzero =>
    cases success
    exact ⟨Nat.pos_of_ne_zero nonzero, rfl⟩

/-- An accepted snapshot yields exactly the summary its entries describe. -/
theorem fromSnapshot_spec {hashing : Hashing} {bytes : Bytes} {t : SpaceSaving}
    (success : fromSnapshot hashing bytes = .ok t) :
    Wf hashing t ∧ HeapOrdered t ∧ ∃ items, entriesOf hashing bytes = .ok items ∧
      (items.map Prod.fst).Nodup ∧ (∀ item ∈ items, item.2.error ≤ item.2.count) ∧
      t.abs = items.foldl (fun summary item => summary.insert item.1 item.2) Summary.empty := by
  unfold fromSnapshot at success
  obtain ⟨⟨header, params, payload⟩, envelope, success⟩ := bind_ok success
  obtain ⟨_, success⟩ := throw_ok success
  obtain ⟨⟨capacity, _⟩, _, success⟩ := bind_ok success
  obtain ⟨_, success⟩ := throw_ok success
  obtain ⟨⟨summary, later⟩, payloadRead, success⟩ := bind_ok success
  cases success
  unfold readPayload at payloadRead
  obtain ⟨totalWeight, afterTotal, readTotal, payloadRead⟩ := Read.bind_ok payloadRead
  obtain ⟨updates, afterUpdates, readUpdates, payloadRead⟩ := Read.bind_ok payloadRead
  obtain ⟨n, afterCount, readCount, payloadRead⟩ := Read.bind_ok payloadRead
  obtain ⟨fits, payloadRead⟩ := Reader.guard_ok payloadRead
  obtain ⟨_, unread, checked, payloadRead⟩ := Read.bind_ok payloadRead
  obtain ⟨start, afterNew, built, payloadRead⟩ := Read.bind_ok payloadRead
  obtain ⟨created, rfl⟩ := Read.lift_ok built
  obtain rfl := Reader.checkCount_ok checked
  obtain ⟨positive, rfl⟩ := new_ok created
  have wf : Wf hashing (fresh capacity header.hash totalWeight updates) :=
    Wf.clear (s := fresh capacity header.hash totalWeight updates) positive
  obtain ⟨items, decoded, size, distinct, absent, sound, rfl⟩ :=
    readEntries_spec n wf (by simpa [fresh] using fits) payloadRead
  obtain ⟨written, order⟩ := insertAll_spec items wf distinct absent (by simp [fresh, size]; omega)
  have empty : HeapOrdered (fresh capacity header.hash totalWeight updates) :=
    clear_heapOrdered (fresh capacity header.hash totalWeight updates)
  refine ⟨written.wf, order empty, items, ?_, distinct, sound, ?_⟩
  · unfold entriesOf
    simp only [envelope, readTotal, readUpdates, readCount, decoded, bind, Except.bind]
    rfl
  · rw [← summaryOf_insertAll hashing (fresh capacity header.hash totalWeight updates) distinct]
    exact congrArg summaryOf written.contents

end FlowSketch.Source.SpaceSaving
