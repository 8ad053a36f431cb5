import FlowSketch.Source.HllMap.Contents

/-!
# Evictions find a candidate

The heap holds one candidate for each key. A candidate whose cardinality is out of date is refreshed
when it is popped and not out of date after that, so the loop ends within as many rounds as there are
stale candidates, and one more.
-/

namespace FlowSketch.Source.HllMap
open Lib.Octets Lib.Word64 Lib.AssocMap Source.Core

variable {F : Type}

def candidateKeys (heap : List (F ×ₗ Bytes)) : List Bytes := heap.map (fun c => (ofLex c).2)

/-- One candidate for each key. -/
def Heaped (s : HllMap F) : Prop := (candidateKeys s.eviction).Perm (keys s.map)

variable [LinearOrder F]

/-- The loop would not evict on this candidate. -/
def stale (m : List (Bytes × HllSlot F)) (candidate : F ×ₗ Bytes) : Bool :=
  (m.lookup (ofLex candidate).2).all (fun slot =>
    slot.dirty = true ∨ slot.cachedCardinality ≠ (ofLex candidate).1)

theorem popLeast_cons {heap : List (F ×ₗ Bytes)} (nonempty : heap ≠ []) :
    ∃ least rest, popLeast heap = some (least, rest) ∧ heap.Perm (least :: rest) := by
  cases smallest : heap.min? with
  | none => exact absurd (List.min?_eq_none_iff.mp smallest) nonempty
  | some least =>
    refine ⟨least, heap.erase least, by rw [popLeast, smallest]; rfl, ?_⟩
    exact List.perm_cons_erase (List.min?_mem smallest)

section

variable (cardinality : Cardinality F)

/-- What the loop leaves when it pops a stale candidate. -/
theorem evictLoop_stale {rounds : Nat} {s : HllMap F} {least : F ×ₗ Bytes}
    {rest : List (F ×ₗ Bytes)} (popped : popLeast s.eviction = some (least, rest))
    {slot : HllSlot F} (found : s.map.lookup (ofLex least).2 = some slot)
    (stale : slot.dirty = true ∨ slot.cachedCardinality ≠ (ofLex least).1) :
    evictLoop cardinality (rounds + 1) s = evictLoop cardinality rounds
      { s with map := Lib.AssocMap.insert (ofLex least).2
                 { slot with cachedCardinality := cardinality.of slot.hll, dirty := false } s.map
               eviction := toLex (cardinality.of slot.hll, (ofLex least).2) :: rest } := by
  rw [evictLoop]
  simp only [popped, found]
  rw [if_pos stale]

theorem evictLoop_fresh {rounds : Nat} {s : HllMap F} {least : F ×ₗ Bytes}
    {rest : List (F ×ₗ Bytes)} (popped : popLeast s.eviction = some (least, rest))
    {slot : HllSlot F} (found : s.map.lookup (ofLex least).2 = some slot)
    (fresh : ¬(slot.dirty = true ∨ slot.cachedCardinality ≠ (ofLex least).1)) :
    evictLoop cardinality (rounds + 1) s = some
      { s with map := s.map.filter (fun entry => entry.1 ≠ (ofLex least).2), eviction := rest
               evictedKeys := wrappingAdd s.evictedKeys 1 } := by
  rw [evictLoop]
  simp only [popped, found]
  rw [if_neg fresh]

end

/-- A refreshed candidate is up to date, and the others are as they were. -/
theorem stale_refresh {m : List (Bytes × HllSlot F)} {least : F ×ₗ Bytes}
    {rest : List (F ×ₗ Bytes)} (others : (ofLex least).2 ∉ candidateKeys rest) {slot : HllSlot F}
    (clean : slot.dirty = false) :
    (toLex (slot.cachedCardinality, (ofLex least).2) :: rest).countP
        (stale (Lib.AssocMap.insert (ofLex least).2 slot m)) =
      rest.countP (stale m) := by
  rw [List.countP_cons_of_neg]
  · refine List.countP_congr fun c inside => ?_
    have apart : (ofLex c).2 ≠ (ofLex least).2 := fun same =>
      others (same ▸ List.mem_map_of_mem inside)
    simp only [stale, lookup_insert, if_neg apart]
  · simp [stale, lookup_insert, clean]

theorem evictLoop_total (cardinality : Cardinality F) {rounds : Nat} {s : HllMap F}
    (distinct : (keys s.map).Nodup) (heaped : Heaped s) (nonempty : s.map ≠ [])
    (enough : s.eviction.countP (stale s.map) < rounds) :
    ∃ t, evictLoop cardinality rounds s = some t ∧ Heaped t := by
  induction rounds generalizing s with
  | zero => exact absurd enough (Nat.not_lt_zero _)
  | succ rounds ih =>
    have candidates : s.eviction ≠ [] := by
      intro none_left
      have lengths := heaped.length_eq
      rw [none_left] at lengths
      exact nonempty (List.length_eq_zero_iff.mp (by simpa [candidateKeys, keys] using lengths.symm))
    obtain ⟨least, rest, popped, split⟩ := popLeast_cons candidates
    have spread : (keys s.map).Perm ((ofLex least).2 :: candidateKeys rest) :=
      heaped.symm.trans (split.map _)
    have member : (ofLex least).2 ∈ keys s.map := spread.mem_iff.mpr List.mem_cons_self
    have others : (ofLex least).2 ∉ candidateKeys rest :=
      (List.nodup_cons.mp (spread.nodup_iff.mp distinct)).1
    cases found : s.map.lookup (ofLex least).2 with
    | none => exact absurd member (lookup_eq_none_iff.mp found)
    | some slot =>
      by_cases outdated : slot.dirty = true ∨ slot.cachedCardinality ≠ (ofLex least).1
      · rw [evictLoop_stale cardinality popped found outdated]
        have sameKeys : keys (Lib.AssocMap.insert (ofLex least).2
            { slot with cachedCardinality := cardinality.of slot.hll, dirty := false } s.map) =
            keys s.map := by
          rw [keys_insert, if_pos member]
        have counted : stale s.map least = true := by
          rw [stale, found]
          simpa using outdated
        rw [split.countP_eq, List.countP_cons_of_pos counted] at enough
        refine ih (sameKeys ▸ distinct) ?_ ?_ ?_
        · exact (sameKeys ▸ spread).symm
        · intro emptied
          rw [← sameKeys, show Lib.AssocMap.insert _ _ s.map = [] from emptied] at member
          cases member
        · have refreshed := @stale_refresh F _ s.map least rest others
            { slot with cachedCardinality := cardinality.of slot.hll, dirty := false } rfl
          exact refreshed.trans_lt (by omega)
      · refine ⟨_, evictLoop_fresh cardinality popped found outdated, ?_⟩
        have kept := spread.filter (fun key => decide (key ≠ (ofLex least).2))
        have remaining : (candidateKeys rest).filter (fun key => decide (key ≠ (ofLex least).2)) =
            candidateKeys rest :=
          List.filter_eq_self.mpr fun key inside =>
            decide_eq_true (fun same => others (same ▸ inside))
        rw [List.filter_cons_of_neg (by simp), remaining, keys, List.filter_map] at kept
        exact kept.symm

theorem evictSmallest_total (cardinality : Cardinality F) {s : HllMap F}
    (distinct : (keys s.map).Nodup) (heaped : Heaped s) (nonempty : s.map ≠ []) :
    ∃ t, s.evictSmallest cardinality = some t ∧ Heaped t := by
  exact evictLoop_total cardinality distinct heaped nonempty
    (Nat.lt_succ_of_le List.countP_le_length)

/-! ## The operations never panic -/

theorem makeRoom_total (cardinality : Cardinality F) {s : HllMap F} (loose : Loose s)
    (heaped : Heaped s) : ∃ t, s.makeRoom cardinality = some t ∧ Heaped t := by
  unfold makeRoom
  split
  next full =>
    refine evictSmallest_total cardinality loose.distinct heaped fun emptied => ?_
    have positive := loose.maxKeys
    rw [emptied, List.length_nil] at full
    omega
  · exact ⟨s, rfl, heaped⟩

theorem makeRoom_absent {cardinality : Cardinality F} {s t : HllMap F}
    (room : s.makeRoom cardinality = some t) {key : Bytes} (absent : key ∉ keys s.map) :
    key ∉ keys t.map := by
  unfold makeRoom at room
  split at room
  · have kept := (evictLoop_evicted cardinality room).kept
    rw [← keys_hlls] at absent ⊢
    exact fun member => absent ((kept.map Prod.fst).subset member)
  · cases room
    exact absent

theorem insert_known {cardinality : Cardinality F} {hashing : Hashing} {s : HllMap F}
    {key : Bytes} {slot : HllSlot F} (known : s.map.lookup key = some slot) (item : Bytes) :
    s.insert cardinality hashing key item = some
      { s with updates := wrappingAdd s.updates 1
               map := Lib.AssocMap.insert key
                 { slot with hll := slot.hll.insert hashing item, dirty := true } s.map } := by
  unfold HllMap.insert
  simp only [known]
  rfl

theorem insert_unknown {cardinality : Cardinality F} {hashing : Hashing} {s u : HllMap F}
    {key : Bytes} (unknown : s.map.lookup key = none)
    (room : { s with updates := wrappingAdd s.updates 1 }.makeRoom cardinality = some u)
    (inRange : HyperLogLog.minPrecision ≤ u.precision ∧ u.precision ≤ HyperLogLog.maxPrecision)
    (item : Bytes) :
    s.insert cardinality hashing key item = some
      { u with map := Lib.AssocMap.insert key
                 { hll := HyperLogLog.insert hashing
                     { precision := u.precision, hash := u.hash, storage := .empty, updates := 0 } item
                   cachedCardinality := cardinality.one, dirty := false } u.map
               eviction := toLex (cardinality.one, key) :: u.eviction } := by
  have created : HyperLogLog.new u.precision u.hash = .ok
      { precision := u.precision, hash := u.hash, storage := .empty, updates := 0 } :=
    if_neg (not_not.mpr inRange)
  unfold HllMap.insert
  simp only [unknown, room]
  refine Option.bind_eq_some_iff.mpr ⟨u, rfl, ?_⟩
  rw [created]
  rfl

theorem insert_total (cardinality : Cardinality F) (hashing : Hashing) {s : HllMap F} (wf : Wf s)
    (heaped : Heaped s) (key item : Bytes) :
    ∃ t, s.insert cardinality hashing key item = some t ∧ Heaped t := by
  cases known : s.map.lookup key with
  | some slot =>
    have present : key ∈ keys s.map := by
      by_contra absent
      rw [lookup_eq_none_iff.mpr absent] at known
      cases known
    refine ⟨_, insert_known known item, ?_⟩
    show (candidateKeys s.eviction).Perm (keys (Lib.AssocMap.insert key _ s.map))
    rw [keys_insert, if_pos present]
    exact heaped
  | none =>
    have ticked : Loose { s with updates := wrappingAdd s.updates 1 } :=
      ⟨wf.maxKeys, wf.inRange, wf.distinct, wf.sketches, wf.evictedKeys, wrappingAdd_lt _ _⟩
    obtain ⟨u, room, heapedRoom⟩ := makeRoom_total cardinality ticked heaped
    have absent : key ∉ keys u.map := makeRoom_absent room (lookup_eq_none_iff.mp known)
    refine ⟨_, insert_unknown known room ((makeRoom_setup room).2.1 ▸ wf.inRange) item, ?_⟩
    show (candidateKeys (_ :: u.eviction)).Perm (keys (Lib.AssocMap.insert key _ u.map))
    rw [keys_insert, if_neg absent]
    exact (heapedRoom.cons key).trans (List.perm_append_singleton key _).symm

theorem insert_setup {cardinality : Cardinality F} {hashing : Hashing} {s t : HllMap F} (wf : Wf s)
    {key item : Bytes} (inserted : s.insert cardinality hashing key item = some t) :
    SameSetup s t 1 := by
  cases known : s.map.lookup key with
  | some slot =>
    rw [insert_known known item] at inserted
    cases inserted
    exact ⟨rfl, rfl, rfl, rfl⟩
  | none =>
    cases room : { s with updates := wrappingAdd s.updates 1 }.makeRoom cardinality with
    | none =>
      unfold HllMap.insert at inserted
      simp only [known] at inserted
      obtain ⟨u, made, _⟩ := Option.bind_eq_some_iff.mp inserted
      cases room.symm.trans made
    | some u =>
      obtain ⟨maxKeys, precision, hash, updates⟩ := makeRoom_setup room
      rw [insert_unknown known room (precision ▸ wf.inRange) item] at inserted
      cases inserted
      exact ⟨maxKeys, precision, hash, updates⟩

omit [LinearOrder F] in
theorem heaped_rebuild (cardinality : Cardinality F) (s : HllMap F) :
    Heaped (s.rebuildEvictionHeap cardinality) := by
  show (candidateKeys (s.map.map _)).Perm (keys (s.map.map _))
  simp [candidateKeys, keys, Function.comp_def]

theorem trim_total (cardinality : Cardinality F) {rounds : Nat} {s : HllMap F} (loose : Loose s)
    (heaped : Heaped s) : ∃ t, trim cardinality rounds s = some t ∧ Heaped t := by
  induction rounds generalizing s with
  | zero => exact ⟨s, rfl, heaped⟩
  | succ rounds ih =>
    rw [trim]
    split
    next long =>
      obtain ⟨u, evicting, heapedU⟩ := evictSmallest_total cardinality loose.distinct heaped
        (fun emptied => by rw [emptied] at long; exact absurd long (Nat.not_lt_zero _))
      rw [evicting]
      exact ih ((evictLoop_evicted cardinality evicting).loose loose) heapedU
    · exact ⟨s, rfl, heaped⟩

omit [LinearOrder F] in
/-- Maps of one precision and one hash join key by key. -/
theorem mergeEntries_total (hashing : Hashing) {entries : List (Bytes × HllSlot F)} {s : HllMap F}
    (loose : Loose s)
    (theirs : ∀ entry ∈ hlls entries,
      entry.2.Wf ∧ entry.2.precision = s.precision ∧ entry.2.hash = s.hash) :
    ∃ t, mergeEntries hashing entries s = (.ok (), t) := by
  induction entries generalizing s with
  | nil => exact ⟨s, rfl⟩
  | cons entry rest ih =>
    obtain ⟨key, slot⟩ := entry
    rw [hlls, List.map_cons, ← hlls, List.forall_mem_cons] at theirs
    rw [mergeEntries]
    cases known : s.map.lookup key with
    | some mine =>
      have member : (key, mine.hll) ∈ hlls s.map := by
        rw [← lookup_eq_some_iff (by simpa using loose.distinct), lookup_hlls, known]
        rfl
      have sketch := loose.sketches _ member
      obtain ⟨hll, joined⟩ := HyperLogLog.mergeFrom_total hashing
        (theirs.1.2.1.trans sketch.2.1.symm) (theirs.1.2.2.trans sketch.2.2.symm)
      obtain ⟨hllWf, precision, hash⟩ :=
        sketch.1.merge theirs.1.1 (theirs.1.2.1.trans sketch.2.1.symm) joined
      have next := @Loose.insertSlot F s loose key { mine with hll, dirty := true }
        ⟨hllWf, precision.trans sketch.2.1, hash.trans sketch.2.2⟩ s.eviction _ loose.updates
      simp only [joined]
      exact ih next theirs.2
    | none => exact ih (loose.insertSlot key theirs.1 s.eviction loose.updates) theirs.2

theorem mergeInto_total (cardinality : Cardinality F) (hashing : Hashing) {s other : HllMap F}
    (left : Wf s) (right : Wf other) (maxKeys : other.maxKeys = s.maxKeys)
    (precision : other.precision = s.precision) (hash : other.hash = s.hash) :
    ∃ t, s.mergeInto cardinality hashing other = some (.ok (), t) ∧ Heaped t := by
  have compatible : (s.compatibility hashing).ensureMatches (other.compatibility hashing) =
      .ok () := by
    rw [SketchCompatibility.ensureMatches_ok_iff]
    simp only [compatibility, paramsHash, maxKeys, precision, hash]
  have theirs : ∀ entry ∈ hlls other.map,
      entry.2.Wf ∧ entry.2.precision = s.precision ∧ entry.2.hash = s.hash := by
    intro entry member
    have sketch := right.sketches entry member
    exact ⟨sketch.1, sketch.2.1.trans precision, sketch.2.2.trans hash⟩
  obtain ⟨u, looped⟩ := mergeEntries_total hashing left.loose theirs
  have loose := (mergeEntries_spec left.loose theirs looped).1.rebuild cardinality
  obtain ⟨v, trimmed, heaped⟩ := @trim_total F _ cardinality
    (u.rebuildEvictionHeap cardinality).map.length _ loose (heaped_rebuild cardinality u)
  refine ⟨{ v with evictedKeys := wrappingAdd v.evictedKeys other.evictedKeys
                   updates := wrappingAdd v.updates other.updates }, ?_, heaped⟩
  unfold mergeInto
  simp only [compatible, looped, trimmed]
  rfl

end FlowSketch.Source.HllMap
