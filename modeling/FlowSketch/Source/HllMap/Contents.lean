import FlowSketch.Source.HllMap
import FlowSketch.Source.Snapshots.Registers

/-!
# What an HLLMap holds

The cached cardinalities, the dirty flags and the eviction heap only decide which key goes next. What
is left, the keys with their HyperLogLogs, is all that a merge or a snapshot reads.
-/

namespace FlowSketch.Source.HllMap
open Lib.Octets Lib.Word64 Lib.AssocMap Source.Core

variable {F : Type}

/-- Keys with their sketches, in iteration order. -/
def hlls (m : List (Bytes × HllSlot F)) : List (Bytes × HyperLogLog) :=
  m.map (fun entry => (entry.1, entry.2.hll))

@[simp] theorem keys_hlls (m : List (Bytes × HllSlot F)) : keys (hlls m) = keys m := by
  simp [keys, hlls, Function.comp_def]

@[simp] theorem hlls_length (m : List (Bytes × HllSlot F)) : (hlls m).length = m.length :=
  List.length_map _

theorem lookup_hlls (m : List (Bytes × HllSlot F)) (key : Bytes) :
    (hlls m).lookup key = (m.lookup key).map HllSlot.hll := by
  induction m with
  | nil => rfl
  | cons entry rest ih =>
    obtain ⟨k, slot⟩ := entry
    rw [hlls, List.map_cons, ← hlls, List.lookup_cons, List.lookup_cons, ih]
    cases key == k <;> rfl

theorem hlls_insert (key : Bytes) (slot : HllSlot F) (m : List (Bytes × HllSlot F)) :
    hlls (insert key slot m) = insert key slot.hll (hlls m) := by
  induction m with
  | nil => rfl
  | cons entry rest ih =>
    have unfolded : hlls (entry :: rest) = (entry.1, entry.2.hll) :: hlls rest := rfl
    rw [unfolded, Lib.AssocMap.insert, Lib.AssocMap.insert]
    split
    · rfl
    · rw [← ih]
      rfl

/-- Writing a value that is already there changes nothing. -/
theorem insert_same {ν : Type} {m : List (Bytes × ν)} {key : Bytes} {value : ν}
    (present : m.lookup key = some value) : insert key value m = m := by
  induction m with
  | nil => cases present
  | cons entry rest ih =>
    obtain ⟨k, v⟩ := entry
    rw [List.lookup_cons] at present
    rw [Lib.AssocMap.insert]
    by_cases same : k = key
    · subst same
      rw [beq_self_eq_true] at present
      rw [if_pos rfl, ← Option.some.inj present]
    · rw [beq_eq_false_iff_ne.mpr (Ne.symm same)] at present
      rw [if_neg same, ih present]

theorem hlls_refresh {m : List (Bytes × HllSlot F)} {key : Bytes} {slot slot' : HllSlot F}
    (present : m.lookup key = some slot) (same : slot'.hll = slot.hll) :
    hlls (insert key slot' m) = hlls m := by
  rw [hlls_insert, same]
  refine insert_same ?_
  rw [lookup_hlls, present]
  rfl

section

variable [LinearOrder F] (cardinality : Cardinality F)

omit [LinearOrder F] in
@[simp] theorem hlls_rebuild (s : HllMap F) :
    hlls (s.rebuildEvictionHeap cardinality).map = hlls s.map := by
  simp [hlls, rebuildEvictionHeap, Function.comp_def]

/-- An eviction drops one key and counts it. -/
structure Evicted (s t : HllMap F) : Prop where
  maxKeys : t.maxKeys = s.maxKeys
  precision : t.precision = s.precision
  hash : t.hash = s.hash
  updates : t.updates = s.updates
  evictedKeys : t.evictedKeys = wrappingAdd s.evictedKeys 1
  dropped : ∃ key ∈ keys s.map, hlls t.map = (hlls s.map).filter (fun entry => entry.1 ≠ key)

theorem evictLoop_evicted {rounds : Nat} {s t : HllMap F}
    (evicted : evictLoop cardinality rounds s = some t) : Evicted s t := by
  induction rounds generalizing s with
  | zero => cases evicted
  | succ rounds ih =>
    rw [evictLoop] at evicted
    cases popped : popLeast s.eviction with
    | none => rw [popped] at evicted; cases evicted
    | some result =>
      obtain ⟨candidate, eviction⟩ := result
      simp only [popped] at evicted
      cases found : s.map.lookup (ofLex candidate).2 with
      | none =>
        simp only [found] at evicted
        have later := ih evicted
        exact ⟨later.maxKeys, later.precision, later.hash, later.updates, later.evictedKeys,
          later.dropped⟩
      | some slot =>
        simp only [found] at evicted
        split at evicted
        · have later := ih evicted
          obtain ⟨key, member, dropped⟩ := later.dropped
          have kept := @hlls_refresh F s.map _ slot
            { slot with cachedCardinality := cardinality.of slot.hll, dirty := false } found rfl
          refine ⟨later.maxKeys, later.precision, later.hash, later.updates, later.evictedKeys,
            key, ?_, ?_⟩
          · rw [← keys_hlls, ← kept, keys_hlls]
            exact member
          · rw [dropped, kept]
        · cases evicted
          refine ⟨rfl, rfl, rfl, rfl, rfl, (ofLex candidate).2, ?_, ?_⟩
          · by_contra absent
            rw [lookup_eq_none_iff.mpr absent] at found
            cases found
          · simp only [HllMap.hlls, List.filter_map, Function.comp_def]

theorem length_filter_key {ν : Type} {m : List (Bytes × ν)} (distinct : (keys m).Nodup) {key : Bytes}
    (present : key ∈ keys m) : (m.filter (fun entry => entry.1 ≠ key)).length + 1 = m.length := by
  cases found : m.lookup key with
  | none => exact absurd present (lookup_eq_none_iff.mp found)
  | some value => exact (perm_cons_filter distinct found).length_eq.symm

omit [LinearOrder F] in
theorem Evicted.length {s t : HllMap F} (evicted : Evicted s t) (distinct : (keys s.map).Nodup) :
    t.map.length + 1 = s.map.length := by
  obtain ⟨key, member, dropped⟩ := evicted.dropped
  have lengths := congrArg List.length dropped
  rw [hlls_length] at lengths
  have apart : (keys (hlls s.map)).Nodup := by simpa using distinct
  have present : key ∈ keys (hlls s.map) := by simpa using member
  rw [lengths, length_filter_key apart present, hlls_length]

end

/-! ## Well-formed maps -/

/-- Every key has one HyperLogLog of the map's own precision and hash. -/
structure Wf (s : HllMap F) : Prop where
  maxKeys : 0 < s.maxKeys
  inRange : HyperLogLog.minPrecision ≤ s.precision ∧ s.precision ≤ HyperLogLog.maxPrecision
  distinct : (keys s.map).Nodup
  size : s.map.length ≤ s.maxKeys
  sketches : ∀ entry ∈ hlls s.map,
    entry.2.Wf ∧ entry.2.precision = s.precision ∧ entry.2.hash = s.hash
  evictedKeys : s.evictedKeys < modulus
  updates : s.updates < modulus

section

variable [LinearOrder F] {cardinality : Cardinality F}

omit [LinearOrder F] in
theorem Evicted.kept {s t : HllMap F} (evicted : Evicted s t) :
    (hlls t.map).Sublist (hlls s.map) := by
  obtain ⟨key, _, dropped⟩ := evicted.dropped
  rw [dropped]
  exact List.filter_sublist

omit [LinearOrder F] in
theorem Evicted.distinct {s t : HllMap F} (evicted : Evicted s t) (distinct : (keys s.map).Nodup) :
    (keys t.map).Nodup := by
  rw [← keys_hlls] at distinct ⊢
  exact (evicted.kept.map Prod.fst).nodup distinct

/-- `Wf` apart from the size. -/
structure Loose (s : HllMap F) : Prop where
  maxKeys : 0 < s.maxKeys
  inRange : HyperLogLog.minPrecision ≤ s.precision ∧ s.precision ≤ HyperLogLog.maxPrecision
  distinct : (keys s.map).Nodup
  sketches : ∀ entry ∈ hlls s.map,
    entry.2.Wf ∧ entry.2.precision = s.precision ∧ entry.2.hash = s.hash
  evictedKeys : s.evictedKeys < modulus
  updates : s.updates < modulus

omit [LinearOrder F] in
theorem Wf.loose {s : HllMap F} (wf : Wf s) : Loose s :=
  ⟨wf.maxKeys, wf.inRange, wf.distinct, wf.sketches, wf.evictedKeys, wf.updates⟩

omit [LinearOrder F] in
theorem Loose.wf {s : HllMap F} (loose : Loose s) (size : s.map.length ≤ s.maxKeys) : Wf s :=
  ⟨loose.maxKeys, loose.inRange, loose.distinct, size, loose.sketches, loose.evictedKeys,
    loose.updates⟩

omit [LinearOrder F] in
theorem Evicted.loose {s t : HllMap F} (evicted : Evicted s t) (loose : Loose s) : Loose t := by
  refine ⟨by rw [evicted.maxKeys]; exact loose.maxKeys, by rw [evicted.precision]; exact loose.inRange,
    evicted.distinct loose.distinct, fun entry member => ?_, ?_,
    by rw [evicted.updates]; exact loose.updates⟩
  · rw [evicted.precision, evicted.hash]
    exact loose.sketches entry (evicted.kept.subset member)
  · rw [evicted.evictedKeys]
    exact wrappingAdd_lt _ _

theorem trim_spec {rounds : Nat} {s t : HllMap F} (loose : Loose s)
    (enough : s.map.length ≤ rounds + s.maxKeys) (trimmed : trim cardinality rounds s = some t) :
    Wf t ∧ t.maxKeys = s.maxKeys ∧ t.precision = s.precision ∧ t.hash = s.hash ∧
      t.updates = s.updates := by
  induction rounds generalizing s with
  | zero =>
    cases trimmed
    exact ⟨loose.wf (by omega), rfl, rfl, rfl, rfl⟩
  | succ rounds ih =>
    rw [trim] at trimmed
    split at trimmed
    · obtain ⟨u, evicting, trimmed⟩ := Option.bind_eq_some_iff.mp trimmed
      have evicted := evictLoop_evicted cardinality evicting
      have fewer := evicted.length loose.distinct
      obtain ⟨wf, maxKeys, precision, hash, updates⟩ :=
        ih (evicted.loose loose) (by rw [evicted.maxKeys]; omega) trimmed
      exact ⟨wf, maxKeys.trans evicted.maxKeys, precision.trans evicted.precision,
        hash.trans evicted.hash, updates.trans evicted.updates⟩
    next short =>
      cases trimmed
      exact ⟨loose.wf (Nat.le_of_not_lt short), rfl, rfl, rfl, rfl⟩

omit [LinearOrder F] in
theorem Loose.insertSlot {s : HllMap F} (loose : Loose s) (key : Bytes) {slot : HllSlot F}
    (sketch : slot.hll.Wf ∧ slot.hll.precision = s.precision ∧ slot.hll.hash = s.hash)
    (eviction : List (F ×ₗ Bytes)) {updates : Nat} (word : updates < modulus) :
    Loose { s with map := insert key slot s.map, eviction, updates } := by
  refine ⟨loose.maxKeys, loose.inRange, insert_nodup loose.distinct, ?_, loose.evictedKeys, word⟩
  rw [hlls_insert]
  exact forall_insert loose.sketches sketch

theorem insertHll_setup {hashing : Hashing} (hll : HyperLogLog) (item : Bytes) :
    (hll.insert hashing item).precision = hll.precision ∧
      (hll.insert hashing item).hash = hll.hash := by
  have setup := HyperLogLog.insertHash_setup { hll with updates := wrappingAdd hll.updates 1 }
    (hashing.hash64 item hll.hash.seed)
  exact ⟨setup.precision, setup.hash⟩

/-- The parameters stay, and the update counter moves on by `more`. -/
structure SameSetup (s t : HllMap F) (more : Nat) : Prop where
  maxKeys : t.maxKeys = s.maxKeys
  precision : t.precision = s.precision
  hash : t.hash = s.hash
  updates : t.updates = wrappingAdd s.updates more

theorem makeRoom_setup {s t : HllMap F} (room : s.makeRoom cardinality = some t) :
    t.maxKeys = s.maxKeys ∧ t.precision = s.precision ∧ t.hash = s.hash ∧ t.updates = s.updates := by
  unfold makeRoom at room
  split at room
  · have evicted := evictLoop_evicted cardinality room
    exact ⟨evicted.maxKeys, evicted.precision, evicted.hash, evicted.updates⟩
  · cases room
    exact ⟨rfl, rfl, rfl, rfl⟩

theorem Wf.insert {hashing : Hashing} {s t : HllMap F} (wf : Wf s) {key item : Bytes}
    (inserted : s.insert cardinality hashing key item = some t) : Wf t := by
  unfold HllMap.insert at inserted
  cases known : s.map.lookup key with
  | some slot =>
    simp only [known] at inserted
    cases inserted
    have member : (key, slot.hll) ∈ hlls s.map := by
      rw [← lookup_eq_some_iff (by simpa using wf.distinct), lookup_hlls, known]
      rfl
    have sketch := wf.sketches _ member
    have setup := @insertHll_setup hashing slot.hll item
    have present : key ∈ keys s.map := by
      by_contra absent
      rw [lookup_eq_none_iff.mpr absent] at known
      cases known
    refine (wf.loose.insertSlot key
      ⟨sketch.1.insert hashing item, setup.1.trans sketch.2.1, setup.2.trans sketch.2.2⟩ s.eviction
      (wrappingAdd_lt _ _)).wf ?_
    exact (insert_length_of_mem present).trans_le wf.size
  | none =>
    simp only [known] at inserted
    obtain ⟨u, room, inserted⟩ := Option.bind_eq_some_iff.mp inserted
    obtain ⟨hll, created, result⟩ := Option.bind_eq_some_iff.mp inserted
    cases result
    have ticked : Loose { s with updates := wrappingAdd s.updates 1 } :=
      ⟨wf.maxKeys, wf.inRange, wf.distinct, wf.sketches, wf.evictedKeys, wrappingAdd_lt _ _⟩
    have spare : Loose u ∧ u.map.length < u.maxKeys := by
      unfold makeRoom at room
      split at room
      next full =>
        have evicted := evictLoop_evicted cardinality room
        have fewer := evicted.length wf.distinct
        have size := wf.size
        refine ⟨evicted.loose ticked, ?_⟩
        rw [evicted.maxKeys]
        simp only at fewer ⊢
        omega
      next spare =>
        cases room
        exact ⟨ticked, Nat.lt_of_not_le spare⟩
    have built : HyperLogLog.new u.precision u.hash = .ok hll := by
      cases result : HyperLogLog.new u.precision u.hash with
      | error e => rw [result] at created; cases created
      | ok value =>
        rw [result] at created
        rw [Option.some.inj created]
    obtain ⟨hllWf, rfl⟩ := HyperLogLog.new_wf built
    have setup := @insertHll_setup hashing
      { precision := u.precision, hash := u.hash, storage := .empty, updates := 0 } item
    refine (spare.1.insertSlot key
      ⟨hllWf.insert hashing item, setup.1, setup.2⟩ _ spare.1.updates).wf ?_
    exact (insert_length_le _ _ _).trans spare.2

omit [LinearOrder F] in
theorem mergeEntries_spec {hashing : Hashing} {entries : List (Bytes × HllSlot F)} {s t : HllMap F}
    (loose : Loose s)
    (theirs : ∀ entry ∈ hlls entries,
      entry.2.Wf ∧ entry.2.precision = s.precision ∧ entry.2.hash = s.hash)
    (merged : mergeEntries hashing entries s = (.ok (), t)) :
    Loose t ∧ t.maxKeys = s.maxKeys ∧ t.precision = s.precision ∧ t.hash = s.hash ∧
      t.updates = s.updates := by
  induction entries generalizing s with
  | nil =>
    cases merged
    exact ⟨loose, rfl, rfl, rfl, rfl⟩
  | cons entry rest ih =>
    obtain ⟨key, slot⟩ := entry
    rw [hlls, List.map_cons, ← hlls, List.forall_mem_cons] at theirs
    rw [mergeEntries] at merged
    cases known : s.map.lookup key with
    | some mine =>
      simp only [known] at merged
      cases joined : mine.hll.mergeFrom hashing slot.hll with
      | error e =>
        rw [joined] at merged
        cases merged
      | ok hll =>
        rw [joined] at merged
        have member : (key, mine.hll) ∈ hlls s.map := by
          rw [← lookup_eq_some_iff (by simpa using loose.distinct), lookup_hlls, known]
          rfl
        have sketch := loose.sketches _ member
        obtain ⟨hllWf, precision, hash⟩ :=
          sketch.1.merge theirs.1.1 (theirs.1.2.1.trans sketch.2.1.symm) joined
        have next := @Loose.insertSlot F s loose key { mine with hll, dirty := true }
          ⟨hllWf, precision.trans sketch.2.1, hash.trans sketch.2.2⟩ s.eviction _ loose.updates
        have later := ih next theirs.2 merged
        exact later
    | none =>
      simp only [known] at merged
      have next := loose.insertSlot key theirs.1 s.eviction loose.updates
      have later := ih next theirs.2 merged
      exact later

omit [LinearOrder F] in
theorem Loose.rebuild {s : HllMap F} (loose : Loose s) (cardinality : Cardinality F) :
    Loose (s.rebuildEvictionHeap cardinality) :=
  ⟨loose.maxKeys, loose.inRange, by rw [← keys_hlls, hlls_rebuild, keys_hlls]; exact loose.distinct,
    by rw [hlls_rebuild]; exact loose.sketches, loose.evictedKeys, loose.updates⟩

theorem Wf.merge_setup {hashing : Hashing} {s other t : HllMap F} (left : Wf s) (right : Wf other)
    (precision : other.precision = s.precision)
    (merged : s.mergeInto cardinality hashing other = some (.ok (), t)) :
    Wf t ∧ SameSetup s t other.updates := by
  unfold mergeInto at merged
  cases compatible : (s.compatibility hashing).ensureMatches (other.compatibility hashing) with
  | error e =>
    rw [compatible] at merged
    cases merged
  | ok =>
    rw [compatible] at merged
    have hash : s.hash = other.hash := congrArg SketchCompatibility.hash
      ((SketchCompatibility.ensureMatches_ok_iff _ _).mp compatible)
    cases looped : mergeEntries hashing other.map s with
    | mk result u =>
      cases result with
      | error e =>
        rw [looped] at merged
        cases merged
      | ok =>
        rw [looped] at merged
        obtain ⟨v, trimmed, result⟩ := Option.bind_eq_some_iff.mp merged
        cases result
        obtain ⟨loose, maxKeys, inner, hashes, updates⟩ := mergeEntries_spec left.loose
          (fun entry member => by
            have sketch := right.sketches entry member
            exact ⟨sketch.1, sketch.2.1.trans precision, sketch.2.2.trans hash.symm⟩) looped
        obtain ⟨wf, maxKeys', inner', hashes', updates'⟩ :=
          trim_spec (loose.rebuild cardinality) (Nat.le_add_right _ _) trimmed
        refine ⟨⟨wf.maxKeys, wf.inRange, wf.distinct, wf.size, wf.sketches, wrappingAdd_lt _ _,
          wrappingAdd_lt _ _⟩, maxKeys'.trans maxKeys, inner'.trans inner, hashes'.trans hashes, ?_⟩
        exact congrArg (wrappingAdd · other.updates) (updates'.trans updates)

theorem Wf.merge {hashing : Hashing} {s other t : HllMap F} (left : Wf s) (right : Wf other)
    (precision : other.precision = s.precision)
    (merged : s.mergeInto cardinality hashing other = some (.ok (), t)) : Wf t :=
  (left.merge_setup right precision merged).1

end

end FlowSketch.Source.HllMap
