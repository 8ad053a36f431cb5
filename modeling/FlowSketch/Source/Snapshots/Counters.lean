import FlowSketch.Source.MisraGries

/-!
# Snapshots of Misra-Gries summaries

Counters are written in the order of their keys, so the order in which the hash map iterates does not
show. A decoded summary holds the same counters in that order.
-/

namespace FlowSketch.Source.MisraGries
open Lib.Octets Lib.Word64 Lib.AssocMap Source.Core

/-- Summaries of additions and merges; between them the hash map may change its iteration order. -/
inductive Reachable (hashing : Hashing) : MisraGries → Prop
  | new {capacity : Nat} {hash : HashSpec} {s : MisraGries}
      (created : MisraGries.new capacity hash = .ok s) : Reachable hashing s
  | add {s t : MisraGries} (before : Reachable hashing s) (key : Bytes) {weight : Nat}
      (word : weight < modulus) (added : s.add key weight = some t) : Reachable hashing t
  | merge {s other t : MisraGries} (before : Reachable hashing s)
      (argument : Reachable hashing other) (merged : s.mergeFrom hashing other = .ok t) :
      Reachable hashing t
  | reorder {s : MisraGries} (before : Reachable hashing s) {counters : List (Bytes × Nat)}
      (same : s.counters.Perm counters) : Reachable hashing { s with counters }

structure Wf (s : MisraGries) : Prop where
  capacity : 0 < s.capacity
  distinct : (keys s.counters).Nodup
  size : s.counters.length ≤ s.capacity
  counts : ∀ entry ∈ s.counters, entry.2 < modulus
  totalWeight : s.totalWeight < modulus
  updates : s.updates < modulus

/-! ## Decrements -/

theorem keys_decrement (dec : Nat) (counters : List (Bytes × Nat)) :
    (keys (decrement dec counters)).Sublist (keys counters) := by
  have kept : keys (counters.map (fun entry => (entry.1, entry.2 - min entry.2 dec))) =
      keys counters := by
    simp [keys, Function.comp_def]
  rw [← kept]
  exact (List.filter_sublist).map Prod.fst

theorem decrement_counts {dec : Nat} {counters : List (Bytes × Nat)}
    (counts : ∀ entry ∈ counters, entry.2 < modulus) :
    ∀ entry ∈ decrement dec counters, entry.2 < modulus := by
  intro entry member
  obtain ⟨old, present, rfl⟩ := List.mem_map.mp (List.mem_of_mem_filter member)
  exact (Nat.sub_le _ _).trans_lt (counts old present)

theorem decrement_length (dec : Nat) (counters : List (Bytes × Nat)) :
    (decrement dec counters).length ≤ counters.length := by
  simpa using (keys_decrement dec counters).length_le

/-- Subtracting a count that occurs drops its counter. -/
theorem decrement_length_lt {dec : Nat} {counters : List (Bytes × Nat)}
    (occurs : dec ∈ counters.map Prod.snd) : (decrement dec counters).length < counters.length := by
  obtain ⟨entry, present, rfl⟩ := List.mem_map.mp occurs
  have dropped : (entry.1, 0) ∈
      counters.map (fun other => (other.1, other.2 - min other.2 entry.2)) :=
    List.mem_map.mpr ⟨entry, present, by simp⟩
  refine Nat.lt_of_lt_of_eq (List.length_filter_lt_length_iff_exists.mpr ⟨_, dropped, by simp⟩) ?_
  rw [List.length_map]

theorem trimToCapacity_spec (capacity rounds : Nat) {counters : List (Bytes × Nat)}
    (distinct : (keys counters).Nodup) (counts : ∀ entry ∈ counters, entry.2 < modulus) :
    (keys (trimToCapacity capacity rounds counters)).Nodup ∧
      ∀ entry ∈ trimToCapacity capacity rounds counters, entry.2 < modulus := by
  induction rounds generalizing counters with
  | zero => exact ⟨distinct, counts⟩
  | succ rounds ih =>
    rw [trimToCapacity]
    split
    · exact ih ((keys_decrement _ _).nodup distinct) (decrement_counts counts)
    · exact ⟨distinct, counts⟩

/-- The loop ends within the capacity. -/
theorem trimToCapacity_length {capacity rounds : Nat} {counters : List (Bytes × Nat)}
    (enough : counters.length ≤ rounds) :
    (trimToCapacity capacity rounds counters).length ≤ capacity := by
  induction rounds generalizing counters with
  | zero =>
    rw [trimToCapacity]
    omega
  | succ rounds ih =>
    rw [trimToCapacity]
    split
    next long =>
      refine ih ?_
      have occurs : ((counters.map Prod.snd).mergeSort (· ≤ ·)).getD
          (counters.length - capacity - 1) 0 ∈ counters.map Prod.snd := by
        have inside : counters.length - capacity - 1 <
            ((counters.map Prod.snd).mergeSort (· ≤ ·)).length := by
          rw [List.length_mergeSort, List.length_map]
          omega
        rw [List.getD_eq_getElem?_getD, List.getElem?_eq_getElem inside, Option.getD_some]
        exact List.mem_mergeSort.mp (List.getElem_mem inside)
      have fewer := decrement_length_lt occurs
      omega
    next short => exact Nat.le_of_not_lt short

theorem addAll_spec {mine : List (Bytes × Nat)} (theirs : List (Bytes × Nat))
    (distinct : (keys mine).Nodup) (counts : ∀ entry ∈ mine, entry.2 < modulus) :
    (keys (addAll mine theirs)).Nodup ∧ ∀ entry ∈ addAll mine theirs, entry.2 < modulus := by
  induction theirs generalizing mine with
  | nil => exact ⟨distinct, counts⟩
  | cons entry rest ih =>
    exact ih (insert_nodup distinct) (forall_insert counts (wrappingAdd_lt _ _))

/-! ## Runs -/

theorem Wf.add {s t : MisraGries} (wf : Wf s) {key : Bytes} {weight : Nat} (word : weight < modulus)
    (added : s.add key weight = some t) : Wf t := by
  unfold MisraGries.add at added
  cases known : s.counters.lookup key with
  | some count =>
    simp only [known] at added
    cases added
    have present : key ∈ keys s.counters := by
      by_contra absent
      rw [lookup_eq_none_iff.mpr absent] at known
      cases known
    exact ⟨wf.capacity, insert_nodup wf.distinct, (insert_length_of_mem present).trans_le wf.size,
      forall_insert wf.counts (wrappingAdd_lt _ _), wrappingAdd_lt _ _, wrappingAdd_lt _ _⟩
  | none =>
    simp only [known] at added
    split at added
    next room =>
      cases added
      exact ⟨wf.capacity, insert_nodup wf.distinct, (insert_length_le _ _ _).trans room,
        forall_insert wf.counts word, wrappingAdd_lt _ _, wrappingAdd_lt _ _⟩
    · obtain ⟨counters, displaced, result⟩ := Option.bind_eq_some_iff.mp added
      cases result
      obtain ⟨least, _, displaced⟩ := Option.bind_eq_some_iff.mp displaced
      simp only at displaced
      have distinct : (keys (decrement (min least weight) s.counters)).Nodup :=
        (keys_decrement _ _).nodup wf.distinct
      split at displaced
      next room =>
        cases displaced
        exact ⟨wf.capacity, insert_nodup distinct, (insert_length_le _ _ _).trans room.2,
          forall_insert (decrement_counts wf.counts) ((Nat.sub_le _ _).trans_lt word),
          wrappingAdd_lt _ _, wrappingAdd_lt _ _⟩
      · cases displaced
        exact ⟨wf.capacity, distinct, (decrement_length _ _).trans wf.size,
          decrement_counts wf.counts, wrappingAdd_lt _ _, wrappingAdd_lt _ _⟩

theorem Reachable.wf {hashing : Hashing} {s : MisraGries} (run : Reachable hashing s) : Wf s := by
  induction run with
  | new created =>
    unfold MisraGries.new at created
    split at created
    · cases created
    next positive =>
      cases created
      exact ⟨Nat.pos_of_ne_zero positive, List.nodup_nil, Nat.zero_le _, by simp, modulus_pos,
        modulus_pos⟩
  | add _ key word added wf => exact wf.add word added
  | merge _ _ merged wf _ =>
    obtain ⟨_, _, result⟩ := bind_ok merged
    cases result
    obtain ⟨distinct, counts⟩ := addAll_spec _ wf.distinct wf.counts
    obtain ⟨trimmed, bounded⟩ := trimToCapacity_spec _ _ distinct counts
    exact ⟨wf.capacity, trimmed, trimToCapacity_length le_rfl, bounded, wrappingAdd_lt _ _,
      wrappingAdd_lt _ _⟩
  | reorder _ same wf =>
    exact ⟨wf.capacity, (same.map Prod.fst).nodup_iff.mp wf.distinct, same.length_eq ▸ wf.size,
      fun entry member => wf.counts entry (same.mem_iff.mpr member), wf.totalWeight, wf.updates⟩

/-! ## Snapshots -/

/-- The capacity is a `usize`, and the payload fits the 32 bits its length is written with. -/
structure Sized (s : MisraGries) : Prop where
  capacity : s.capacity < modulus
  payload : s.payload.length < 2 ^ 32

/-- Equal parameters, counters and totals, whatever order the map iterates in. -/
structure Same (s t : MisraGries) : Prop where
  capacity : t.capacity = s.capacity
  hash : t.hash = s.hash
  counters : ∀ key, t.counters.lookup key = s.counters.lookup key
  totalWeight : t.totalWeight = s.totalWeight
  updates : t.updates = s.updates

theorem flatMap_writeCounter_length (entries : List (Bytes × Nat)) :
    entries.length * 12 ≤ (entries.flatMap writeCounter).length ∧
      ∀ entry ∈ entries, entry.1.length ≤ (entries.flatMap writeCounter).length := by
  induction entries with
  | nil => simp
  | cons entry rest ih =>
    rw [List.flatMap_cons, List.length_append, writeCounter, Reader.writeLpBytes,
      List.length_append, List.length_append, leBytes_length, leBytes_length, List.length_cons,
      List.forall_mem_cons]
    refine ⟨by omega, by omega, fun other member => ?_⟩
    have bound := ih.2 other member
    omega

theorem readCounters_counters {entries : List (Bytes × Nat)}
    (short : ∀ entry ∈ entries, entry.1.length < 2 ^ 32)
    (words : ∀ entry ∈ entries, entry.2 < modulus) (before : List (Bytes × Nat))
    (distinct : (keys (before ++ entries)).Nodup) (rest : Bytes) :
    readCounters entries.length before (entries.flatMap writeCounter ++ rest) =
      .ok (before ++ entries, rest) := by
  induction entries generalizing before with
  | nil => rw [List.append_nil]; rfl
  | cons entry entries ih =>
    obtain ⟨key, count⟩ := entry
    rw [List.forall_mem_cons] at short words
    have fields : ((key, count) :: entries).flatMap writeCounter ++ rest =
        Reader.writeLpBytes key ++ (leBytes 8 count ++ (entries.flatMap writeCounter ++ rest)) := by
      simp only [List.flatMap_cons, writeCounter, List.append_assoc]
    have grown : before ++ (key, count) :: entries = (before ++ [(key, count)]) ++ entries := by
      rw [List.append_assoc, List.singleton_append]
    have absent : key ∉ keys before := by
      rw [keys, List.map_append, List.nodup_append] at distinct
      intro member
      exact distinct.2.2 key member key (by simp) rfl
    rw [grown] at distinct ⊢
    rw [fields]
    refine (Read.bind_run (Reader.lpBytes_writeLpBytes short.1 _)).trans ?_
    refine (Read.bind_run (Reader.u64_leBytes words.1 _)).trans ?_
    rw [insert_of_not_mem absent]
    exact ih short.2 words.2 _ distinct

theorem sorted_perm (s : MisraGries) : s.sorted.Perm s.counters := List.mergeSort_perm _ _

theorem payload_eq_of_perm {s t : MisraGries} (wf : Wf s) (same : s.counters.Perm t.counters)
    (totalWeight : t.totalWeight = s.totalWeight) (updates : t.updates = s.updates) :
    t.payload = s.payload := by
  have sorted : t.sorted = s.sorted := (sort_by_key_perm same wf.distinct).symm
  rw [payload, payload, sorted, totalWeight, updates, same.length_eq]

theorem readPayload_payload {s : MisraGries} (wf : Wf s) (sized : Sized s) :
    readPayload s.hash s.capacity s.payload = .ok ({ s with counters := s.sorted }, []) := by
  have fields : s.payload = leBytes 8 s.totalWeight ++ (leBytes 8 s.updates ++
      (leBytes 4 s.counters.length ++ (s.sorted.flatMap writeCounter ++ []))) := by
    simp only [payload, List.append_assoc, List.append_nil]
  obtain ⟨count, each⟩ := flatMap_writeCounter_length s.sorted
  have same := s.sorted_perm
  have inside : (s.sorted.flatMap writeCounter).length < 2 ^ 32 := by
    have whole := sized.payload
    rw [fields] at whole
    simp only [List.length_append, leBytes_length, List.length_nil] at whole
    omega
  have distinct : (keys ([] ++ s.sorted)).Nodup := (same.map Prod.fst).nodup_iff.mpr wf.distinct
  have counters := readCounters_counters
    (fun entry member => by have bound := each entry member; omega)
    (fun entry member => wf.counts entry (same.mem_iff.mp member)) [] distinct []
  rw [same.length_eq] at count counters
  rw [fields]
  refine (Read.bind_run (Reader.u64_leBytes wf.totalWeight _)).trans ?_
  refine (Read.bind_run (Reader.u64_leBytes wf.updates _)).trans ?_
  refine (Read.bind_run (Reader.u32_leBytes (by omega) _)).trans ?_
  refine (Read.guard_run (Nat.not_lt.mpr wf.size) _).trans ?_
  refine (Read.bind_run (Reader.checkCount_run (by decide) ?_)).trans ?_
  · rw [List.append_nil]
    exact count
  exact Read.bind_run counters

def codec (hashing : Hashing) : Codec MisraGries where
  algorithmId := algorithmId.misraGries
  hash := MisraGries.hash
  toSnapshot := toSnapshot hashing
  fromSnapshot := fromSnapshot hashing
  same := Same

theorem roundTrips {hashing : Hashing} {s : MisraGries} (wf : Wf s) (sized : Sized s)
    {windowStart windowEnd : Nat} (start : windowStart < modulus) (stop : windowEnd < modulus) :
    (codec hashing).RoundTrips hashing Wf s windowStart windowEnd := by
  have envelope := read_sketch hashing (by decide : algorithmId.misraGries < 2 ^ 16) s.hash start
    stop (by simp : (leBytes 8 s.capacity).length < 2 ^ 32) sized.payload
  have params := Reader.u64_leBytes sized.capacity []
  rw [List.append_nil] at params
  refine ⟨⟨{ s with counters := s.sorted }, ?_, ?_, ?_⟩, ?_, ⟨_, _, envelope⟩⟩
  · show fromSnapshot hashing (toSnapshot hashing s windowStart windowEnd) = _
    unfold fromSnapshot toSnapshot
    simp only [envelope, params, readPayload_payload wf sized, bind, Except.bind, ne_eq,
      not_true_eq_false, if_false, wf.capacity.ne']
    rfl
  · exact ⟨rfl, rfl, fun key => (lookup_perm s.sorted_perm.symm wf.distinct key).symm, rfl, rfl⟩
  · show toSnapshot hashing _ _ _ = toSnapshot hashing s _ _
    rw [toSnapshot, toSnapshot, payload_eq_of_perm wf (t := { s with counters := s.sorted })
      s.sorted_perm.symm rfl rfl]
  · intro t valid same
    show toSnapshot hashing t _ _ = toSnapshot hashing s _ _
    have perm := perm_of_lookup wf.distinct valid.distinct (fun key => (same.counters key).symm)
    rw [toSnapshot, toSnapshot, payload_eq_of_perm wf perm same.totalWeight same.updates,
      same.capacity, same.hash]

end FlowSketch.Source.MisraGries
