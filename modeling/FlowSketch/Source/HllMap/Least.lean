import FlowSketch.Source.HllMap.Eviction

/-!
# Evictions take the least key

The heap is lazy: a candidate carries the cardinality its slot had when it was last refreshed. That is
never above the current one, so a candidate that comes up and is not out of date is below the current
cardinality of every key.
-/

namespace FlowSketch.Source.HllMap
open Lib.Octets Lib.Word64 Lib.AssocMap Source.Core

variable {F : Type}

/-- The candidate of a slot. -/
def candidate (entry : Bytes × HllSlot F) : F ×ₗ Bytes :=
  toLex (entry.2.cachedCardinality, entry.1)

/-- What an eviction goes by: current cardinality, then key. -/
def standing (cardinality : Cardinality F) (entry : Bytes × HyperLogLog) : F ×ₗ Bytes :=
  toLex (cardinality.of entry.2, entry.1)

variable [LinearOrder F] (cardinality : Cardinality F)

/-- One candidate for each slot, with a cardinality that is out of date only for a dirty slot and then
too low. -/
structure Tracked (s : HllMap F) : Prop where
  heap : s.eviction.Perm (s.map.map candidate)
  lower : ∀ entry ∈ s.map, entry.2.cachedCardinality ≤ cardinality.of entry.2.hll
  clean : ∀ entry ∈ s.map, entry.2.dirty = false →
    entry.2.cachedCardinality = cardinality.of entry.2.hll

/-- The key with the least standing. -/
def Least (entries : List (Bytes × HyperLogLog)) (key : Bytes) : Prop :=
  ∃ hll, (key, hll) ∈ entries ∧
    ∀ entry ∈ entries, standing cardinality (key, hll) ≤ standing cardinality entry

/-- One eviction: the least key goes and is counted. -/
structure EvictedLeast (s t : HllMap F) : Prop extends Evicted s t where
  least : ∃ key, Least cardinality (hlls s.map) key ∧
    hlls t.map = (hlls s.map).filter (fun entry => entry.1 ≠ key)

variable {cardinality}

omit [LinearOrder F] in
theorem candidateKeys_candidates (m : List (Bytes × HllSlot F)) :
    candidateKeys (m.map candidate) = keys m := by
  rw [candidateKeys, List.map_map]
  rfl

theorem Tracked.heaped {s : HllMap F} (tracked : Tracked cardinality s) : Heaped s := by
  have candidates := tracked.heap.map (fun c => (ofLex c).2)
  rw [← candidateKeys, ← candidateKeys, candidateKeys_candidates] at candidates
  exact candidates

omit [LinearOrder F] in
/-- A slot that is written again exchanges its candidate. -/
theorem candidates_insert {m : List (Bytes × HllSlot F)} (distinct : (keys m).Nodup) {key : Bytes}
    {slot : HllSlot F} (found : m.lookup key = some slot) {rest : List (F ×ₗ Bytes)}
    (split : (m.map candidate).Perm (candidate (key, slot) :: rest)) (slot' : HllSlot F) :
    (candidate (key, slot') :: rest).Perm ((insert key slot' m).map candidate) := by
  have before := ((perm_cons_filter distinct found).map candidate).symm.trans split
  have others : ((m.filter (fun entry => entry.1 ≠ key)).map candidate).Perm rest :=
    List.Perm.cons_inv before
  have after := (insert_perm_cons distinct key slot').map candidate
  exact (after.trans (others.cons _)).symm

theorem Tracked.refresh {s : HllMap F} (tracked : Tracked cardinality s)
    (distinct : (keys s.map).Nodup) {key : Bytes} {slot : HllSlot F}
    (found : s.map.lookup key = some slot) {rest : List (F ×ₗ Bytes)}
    (split : s.eviction.Perm (candidate (key, slot) :: rest)) :
    Tracked cardinality
      { s with map := insert key
                 { slot with cachedCardinality := cardinality.of slot.hll, dirty := false } s.map
               eviction := toLex (cardinality.of slot.hll, key) :: rest } where
  heap := candidates_insert distinct found (tracked.heap.symm.trans split)
    { slot with cachedCardinality := cardinality.of slot.hll, dirty := false }
  lower := forall_insert tracked.lower (le_refl _)
  clean := forall_insert tracked.clean (fun _ => rfl)

theorem Tracked.evict {s : HllMap F} (tracked : Tracked cardinality s)
    (distinct : (keys s.map).Nodup) {key : Bytes} {slot : HllSlot F}
    (found : s.map.lookup key = some slot) {rest : List (F ×ₗ Bytes)}
    (split : s.eviction.Perm (candidate (key, slot) :: rest)) (evictedKeys : Nat) :
    Tracked cardinality
      { s with map := s.map.filter (fun entry => entry.1 ≠ key), eviction := rest, evictedKeys } where
  heap := by
    have before := ((perm_cons_filter distinct found).map candidate).symm.trans
      (tracked.heap.symm.trans split)
    exact (List.Perm.cons_inv before).symm
  lower entry member := tracked.lower entry (List.mem_of_mem_filter member)
  clean entry member := tracked.clean entry (List.mem_of_mem_filter member)

/-- A candidate that is up to date and least among the candidates belongs to the least key. -/
theorem Tracked.least {s : HllMap F} (tracked : Tracked cardinality s) {key : Bytes} {slot : HllSlot F}
    (member : (key, slot) ∈ s.map) (clean : slot.dirty = false)
    (first : ∀ other ∈ s.eviction, candidate (key, slot) ≤ other) :
    Least cardinality (hlls s.map) key := by
  refine ⟨slot.hll, List.mem_map.mpr ⟨_, member, rfl⟩, fun entry inside => ?_⟩
  obtain ⟨other, listed, rfl⟩ := List.mem_map.mp inside
  have current : standing cardinality (key, slot.hll) = candidate (key, slot) := by
    rw [standing, candidate, tracked.clean _ member clean]
  have behind : candidate (key, slot) ≤ candidate other :=
    first _ (tracked.heap.mem_iff.mpr (List.mem_map_of_mem listed))
  have risen : candidate other ≤ standing cardinality (other.1, other.2.hll) :=
    Prod.Lex.toLex_le_toLex'.mpr ⟨tracked.lower other listed, fun _ => le_refl _⟩
  rw [current]
  exact behind.trans risen

theorem popLeast_spec {heap rest : List (F ×ₗ Bytes)} {least : F ×ₗ Bytes}
    (popped : popLeast heap = some (least, rest)) :
    heap.Perm (least :: rest) ∧ ∀ other ∈ heap, least ≤ other := by
  obtain ⟨smallest, found, pair⟩ := Option.map_eq_some_iff.mp popped
  cases pair
  exact ⟨List.perm_cons_erase (List.min?_mem found), (List.min?_eq_some_iff.mp found).2⟩

/-- The loop refreshes what is out of date and then takes the least key. -/
theorem evictLoop_least {rounds : Nat} {s t : HllMap F} (distinct : (keys s.map).Nodup)
    (tracked : Tracked cardinality s) (evicted : evictLoop cardinality rounds s = some t) :
    EvictedLeast cardinality s t ∧ Tracked cardinality t := by
  have dropped := evictLoop_evicted cardinality evicted
  suffices step : (∃ key, Least cardinality (hlls s.map) key ∧
      hlls t.map = (hlls s.map).filter (fun entry => entry.1 ≠ key)) ∧ Tracked cardinality t from
    ⟨⟨dropped, step.1⟩, step.2⟩
  clear dropped
  induction rounds generalizing s with
  | zero => cases evicted
  | succ rounds ih =>
    cases popped : popLeast s.eviction with
    | none =>
      rw [evictLoop, popped] at evicted
      cases evicted
    | some result =>
      obtain ⟨least, rest⟩ := result
      obtain ⟨split, first⟩ := popLeast_spec popped
      -- the candidate that is popped is that of a slot
      obtain ⟨⟨key, slot⟩, member, rfl⟩ := List.mem_map.mp
        (tracked.heap.mem_iff.mp (split.mem_iff.mpr List.mem_cons_self))
      have found : s.map.lookup key = some slot := (lookup_eq_some_iff distinct).mpr member
      by_cases outdated : slot.dirty = true ∨ slot.cachedCardinality ≠
          (ofLex (candidate (key, slot))).1
      · rw [evictLoop_stale cardinality popped found outdated] at evicted
        have kept := @hlls_refresh F s.map key slot
          { slot with cachedCardinality := cardinality.of slot.hll, dirty := false } found rfl
        obtain ⟨⟨least, isLeast, left⟩, after⟩ :=
          ih (insert_nodup distinct) (tracked.refresh distinct found split) evicted
        rw [kept] at isLeast left
        exact ⟨⟨least, isLeast, left⟩, after⟩
      · rw [evictLoop_fresh cardinality popped found outdated] at evicted
        cases evicted
        have clean : slot.dirty = false := by
          rw [Bool.eq_false_iff]
          exact fun dirty => outdated (.inl dirty)
        refine ⟨⟨key, tracked.least member clean first, ?_⟩, tracked.evict distinct found split _⟩
        simp only [hlls, List.filter_map, Function.comp_def]
        rfl

theorem evictSmallest_least {s : HllMap F} (distinct : (keys s.map).Nodup)
    (tracked : Tracked cardinality s) (nonempty : s.map ≠ []) :
    ∃ t, s.evictSmallest cardinality = some t ∧ EvictedLeast cardinality s t ∧
      Tracked cardinality t := by
  obtain ⟨t, evicted, -⟩ := evictSmallest_total cardinality distinct tracked.heaped nonempty
  exact ⟨t, evicted, evictLoop_least distinct tracked evicted⟩

/-! ## What trimming leaves -/

variable (cardinality) in
/-- How many entries an entry is ahead of. -/
def ahead (entries : List (Bytes × HyperLogLog)) (entry : Bytes × HyperLogLog) : Nat :=
  entries.countP (fun other => standing cardinality other < standing cardinality entry)

variable (cardinality) in
/-- The last `limit` entries by standing, in the order of the map. -/
def survivors (limit : Nat) (entries : List (Bytes × HyperLogLog)) : List (Bytes × HyperLogLog) :=
  entries.filter (fun entry => entries.length ≤ ahead cardinality entries entry + limit)

theorem survivors_of_few {limit : Nat} {entries : List (Bytes × HyperLogLog)}
    (few : entries.length ≤ limit) : survivors cardinality limit entries = entries :=
  List.filter_eq_self.mpr fun _ _ => decide_eq_true (Nat.le_add_left_of_le few)

theorem ahead_perm {entries entries' : List (Bytes × HyperLogLog)} (same : entries.Perm entries') :
    ahead cardinality entries = ahead cardinality entries' :=
  funext fun _ => same.countP_eq _

theorem ahead_cons {lower entry : Bytes × HyperLogLog} {entries : List (Bytes × HyperLogLog)}
    (above : standing cardinality lower < standing cardinality entry) :
    ahead cardinality (lower :: entries) entry = ahead cardinality entries entry + 1 :=
  List.countP_cons_of_pos (decide_eq_true above)

theorem survivors_perm {limit : Nat} {entries entries' : List (Bytes × HyperLogLog)}
    (same : entries.Perm entries') :
    (survivors cardinality limit entries).Perm (survivors cardinality limit entries') := by
  rw [survivors, survivors, ahead_perm same, same.length_eq]
  exact same.filter _

/-- Without the least entry the others survive as before, and it does not. -/
theorem survivors_drop {limit : Nat} {entries : List (Bytes × HyperLogLog)}
    (distinct : (keys entries).Nodup) {key : Bytes} (least : Least cardinality entries key)
    (many : limit < entries.length) :
    survivors cardinality limit (entries.filter (fun entry => entry.1 ≠ key)) =
      survivors cardinality limit entries := by
  obtain ⟨hll, member, first⟩ := least
  have split := perm_cons_filter distinct ((lookup_eq_some_iff distinct).mpr member)
  have length := split.length_eq
  rw [List.length_cons] at length
  rw [survivors, survivors, List.filter_filter]
  refine List.filter_congr fun entry inside => ?_
  have counted := congrFun (@ahead_perm _ _ cardinality _ _ split) entry
  by_cases same : entry.1 = key
  · have own : entry = (key, hll) := by
      obtain ⟨k, other⟩ := entry
      dsimp only at same
      subst same
      have both := (lookup_eq_some_iff distinct).mpr inside
      rw [(lookup_eq_some_iff distinct).mpr member] at both
      rw [Option.some.inj both]
    have lowest : ahead cardinality entries entry = 0 := by
      rw [ahead, List.countP_eq_zero]
      intro other listed
      rw [own]
      simpa using first other listed
    simp only [same, ne_eq, not_true_eq_false, decide_false, Bool.and_false, lowest]
    exact (decide_eq_false (by omega)).symm
  · have above : standing cardinality (key, hll) < standing cardinality entry := by
      refine lt_of_le_of_ne (first entry inside) fun equal => same ?_
      exact (congrArg (fun c => (ofLex c).2) equal).symm
    rw [ahead_cons above] at counted
    have other : decide (entry.1 ≠ key) = true := decide_eq_true same
    rw [other, Bool.and_true, counted, length]
    exact decide_eq_decide.mpr (by omega)

variable (cardinality) in
/-- What trimming leaves: the survivors, with the others counted. -/
structure Trimmed (s t : HllMap F) : Prop where
  survivors : hlls t.map = survivors cardinality s.maxKeys (hlls s.map)
  tracked : Tracked cardinality t
  size : t.map.length ≤ t.maxKeys
  counted : ∃ dropped, t.map.length + dropped = s.map.length ∧
    t.evictedKeys = wrappingAdd s.evictedKeys dropped
  maxKeys : t.maxKeys = s.maxKeys
  precision : t.precision = s.precision
  hash : t.hash = s.hash
  updates : t.updates = s.updates

theorem Trimmed.of_few {s : HllMap F} (tracked : Tracked cardinality s) (word : s.evictedKeys < modulus)
    (few : s.map.length ≤ s.maxKeys) : Trimmed cardinality s s :=
  ⟨(survivors_of_few (by rw [hlls_length]; exact few)).symm, tracked, few,
    ⟨0, rfl, (Nat.mod_eq_of_lt word).symm⟩, rfl, rfl, rfl, rfl⟩

theorem Trimmed.evict {s u t : HllMap F} (evicted : EvictedLeast cardinality s u)
    (distinct : (keys s.map).Nodup) (long : s.maxKeys < s.map.length)
    (trimmed : Trimmed cardinality u t) : Trimmed cardinality s t := by
  have fewer := evicted.toEvicted.length distinct
  obtain ⟨key, least, remaining⟩ := evicted.least
  obtain ⟨dropped, lengths, counted⟩ := trimmed.counted
  refine ⟨?_, trimmed.tracked, trimmed.size, ⟨dropped + 1, by omega, ?_⟩,
    trimmed.maxKeys.trans evicted.maxKeys, trimmed.precision.trans evicted.precision,
    trimmed.hash.trans evicted.hash, trimmed.updates.trans evicted.updates⟩
  · rw [trimmed.survivors, evicted.maxKeys, remaining]
    exact survivors_drop (by simpa using distinct) least (by rw [hlls_length]; exact long)
  · rw [counted, evicted.evictedKeys, wrappingAdd, wrappingAdd, wrappingAdd, Nat.mod_add_mod,
      Nat.add_assoc, Nat.add_comm 1]

theorem trim_survivors {rounds : Nat} {s : HllMap F} (distinct : (keys s.map).Nodup)
    (tracked : Tracked cardinality s) (word : s.evictedKeys < modulus)
    (enough : s.map.length ≤ rounds + s.maxKeys) :
    ∃ t, trim cardinality rounds s = some t ∧ Trimmed cardinality s t := by
  induction rounds generalizing s with
  | zero => exact ⟨s, rfl, .of_few tracked word (by omega)⟩
  | succ rounds ih =>
    rw [trim]
    split
    next long =>
      have nonempty : s.map ≠ [] := by
        rintro emptied
        rw [emptied, List.length_nil] at long
        omega
      obtain ⟨u, evicting, evicted, trackedU⟩ := evictSmallest_least distinct tracked nonempty
      have fewer := evicted.toEvicted.length distinct
      obtain ⟨t, trimming, trimmed⟩ := ih (evicted.distinct distinct) trackedU
        (by rw [evicted.evictedKeys]; exact wrappingAdd_lt _ _) (by rw [evicted.maxKeys]; omega)
      exact ⟨t, Option.bind_eq_some_iff.mpr ⟨u, evicting, trimming⟩, trimmed.evict evicted distinct long⟩
    next few => exact ⟨s, rfl, .of_few tracked word (Nat.le_of_not_lt few)⟩

end FlowSketch.Source.HllMap
