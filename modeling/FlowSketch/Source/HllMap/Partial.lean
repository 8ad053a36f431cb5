import FlowSketch.Source.HllMap.Runs

/-!
# Merges that stop half way

A merge of maps checks the parameters once and then every pair of sketches on its own. When a pair does
not match, the keys before it are merged already. A map that came out of a merge shows each of them: the
merge left no slot dirty, and merging a key adds it or marks its slot.
-/

namespace FlowSketch.Source.HyperLogLog
open Source.Core

variable {hashing : Hashing} {s other : HyperLogLog}

theorem mergeFrom_ok_iff : (∃ t, s.mergeFrom hashing other = .ok t) ↔
    s.compatibility hashing = other.compatibility hashing :=
  SketchCompatibility.checked_ok_iff _ _ _

theorem mergeFrom_error_iff : (∃ e, s.mergeFrom hashing other = .error e) ↔
    s.compatibility hashing ≠ other.compatibility hashing :=
  SketchCompatibility.checked_error_iff _ _ _

end FlowSketch.Source.HyperLogLog

namespace FlowSketch.Source.HllMap
open Lib.Octets Lib.Word64 Lib.AssocMap Source.Core

variable {F : Type} [LinearOrder F] {cardinality : Cardinality F} {hashing : Hashing}

/-! ## Clean maps -/

/-- Every key once, and no slot dirty. -/
structure Clean (s : HllMap F) : Prop where
  distinct : (keys s.map).Nodup
  refreshed : ∀ entry ∈ s.map, entry.2.dirty = false

theorem Clean.evictLoop {rounds : Nat} {s t : HllMap F} (clean : Clean s)
    (evicted : evictLoop cardinality rounds s = some t) : Clean t := by
  induction rounds generalizing s with
  | zero => cases evicted
  | succ rounds ih =>
    rw [HllMap.evictLoop] at evicted
    cases popped : popLeast s.eviction with
    | none => rw [popped] at evicted; cases evicted
    | some result =>
      obtain ⟨candidate, eviction⟩ := result
      simp only [popped] at evicted
      cases found : s.map.lookup (ofLex candidate).2 with
      | none =>
        simp only [found] at evicted
        refine ih ?_ evicted
        exact ⟨clean.distinct, clean.refreshed⟩
      | some slot =>
        simp only [found] at evicted
        split at evicted
        · refine ih ?_ evicted
          exact ⟨insert_nodup clean.distinct, forall_insert clean.refreshed rfl⟩
        · cases evicted
          refine ⟨clean.distinct.sublist (List.filter_sublist.map _), fun entry member => ?_⟩
          exact clean.refreshed entry (List.mem_of_mem_filter member)

theorem Clean.trim {rounds : Nat} {s t : HllMap F} (clean : Clean s)
    (trimmed : trim cardinality rounds s = some t) : Clean t := by
  induction rounds generalizing s with
  | zero =>
    cases trimmed
    exact clean
  | succ rounds ih =>
    rw [HllMap.trim] at trimmed
    split at trimmed
    · obtain ⟨u, evicting, trimmed⟩ := Option.bind_eq_some_iff.mp trimmed
      exact ih (clean.evictLoop evicting) trimmed
    · cases trimmed
      exact clean

omit [LinearOrder F] in
theorem mergeEntries_distinct {entries : List (Bytes × HllSlot F)} {s : HllMap F}
    (distinct : (keys s.map).Nodup) : (keys (mergeEntries hashing entries s).2.map).Nodup := by
  induction entries generalizing s with
  | nil => exact distinct
  | cons entry rest ih =>
    obtain ⟨key, theirs⟩ := entry
    cases present : s.map.lookup key with
    | none =>
      rw [mergeEntries_absent rest present]
      exact ih (insert_nodup distinct)
    | some mine =>
      cases merged : mine.hll.mergeFrom hashing theirs.hll with
      | error e =>
        rw [mergeEntries_refused rest present merged]
        exact distinct
      | ok hll =>
        rw [mergeEntries_present rest present merged]
        exact ih (insert_nodup distinct)

theorem mergeInto_clean {s other t : HllMap F} (distinct : (keys s.map).Nodup)
    (merged : s.mergeInto cardinality hashing other = some (.ok (), t)) : Clean t := by
  unfold mergeInto at merged
  have kept := @mergeEntries_distinct F hashing other.map s distinct
  cases passes : (s.compatibility hashing).ensureMatches (other.compatibility hashing) with
  | error e =>
    rw [passes] at merged
    cases merged
  | ok _ =>
    simp only [passes] at merged
    cases joined : mergeEntries hashing other.map s with
    | mk result u =>
      rw [joined] at kept
      simp only [joined] at merged
      cases result with
      | error e => cases merged
      | ok _ =>
        obtain ⟨v, trimmed, merged⟩ := Option.bind_eq_some_iff.mp merged
        cases merged
        have clean : Clean (u.rebuildEvictionHeap cardinality) := by
          refine ⟨?_, fun entry member => ?_⟩
          · rw [← keys_hlls, hlls_rebuild, keys_hlls]
            exact kept
          · obtain ⟨_, _, rfl⟩ := List.mem_map.mp member
            rfl
        have after := clean.trim trimmed
        exact ⟨after.distinct, after.refreshed⟩

/-! ## Refused sketches -/

/-- The sketch of a common key does not match. -/
def Refuses (hashing : Hashing) (s : HllMap F) (entry : Bytes × HllSlot F) : Prop :=
  ∃ mine, s.map.lookup entry.1 = some mine ∧
    mine.hll.compatibility hashing ≠ entry.2.hll.compatibility hashing

omit [LinearOrder F] in
theorem refuses_insert_iff {s : HllMap F} {key : Bytes} {slot : HllSlot F}
    {entry : Bytes × HllSlot F} (apart : entry.1 ≠ key) :
    Refuses hashing { s with map := insert key slot s.map } entry ↔ Refuses hashing s entry := by
  unfold Refuses
  simp only [lookup_insert, if_neg apart]

omit [LinearOrder F] in
/-- A merge of the first entry that is not refused goes on, with another slot under its key. -/
theorem mergeEntries_step {s : HllMap F} {entry : Bytes × HllSlot F}
    (rest : List (Bytes × HllSlot F)) (accepted : ¬Refuses hashing s entry) :
    ∃ slot : HllSlot F, mergeEntries hashing (entry :: rest) s =
        mergeEntries hashing rest { s with map := insert entry.1 slot s.map } ∧
      ∀ mine, s.map.lookup entry.1 = some mine → slot.dirty = true := by
  obtain ⟨key, theirs⟩ := entry
  cases present : s.map.lookup key with
  | none => exact ⟨theirs, mergeEntries_absent rest present, fun mine => nofun⟩
  | some mine =>
    have same : mine.hll.compatibility hashing = theirs.hll.compatibility hashing := by
      by_contra apart
      exact accepted ⟨mine, present, apart⟩
    obtain ⟨hll, merged⟩ := HyperLogLog.mergeFrom_ok_iff.mpr same
    exact ⟨_, mergeEntries_present rest present merged, fun _ _ => rfl⟩

omit [LinearOrder F] in
theorem mergeEntries_of_refuses {s : HllMap F} {entry : Bytes × HllSlot F}
    (rest : List (Bytes × HllSlot F)) (refused : Refuses hashing s entry) :
    ∃ e, mergeEntries hashing (entry :: rest) s = (.error e, s) := by
  obtain ⟨mine, present, apart⟩ := refused
  obtain ⟨e, failed⟩ := HyperLogLog.mergeFrom_error_iff.mpr apart
  exact ⟨e, mergeEntries_refused rest present failed⟩

omit [LinearOrder F] in
theorem mergeEntries_lookup {entries : List (Bytes × HllSlot F)} {s : HllMap F} {key : Bytes}
    (absent : key ∉ keys entries) :
    (mergeEntries hashing entries s).2.map.lookup key = s.map.lookup key := by
  induction entries generalizing s with
  | nil => rfl
  | cons entry rest ih =>
    have apart : key ≠ entry.1 := fun same => absent (same ▸ List.mem_cons_self)
    have later : key ∉ keys rest := fun member => absent (List.mem_cons_of_mem _ member)
    by_cases refused : Refuses hashing s entry
    · obtain ⟨e, failed⟩ := mergeEntries_of_refuses rest refused
      rw [failed]
    · obtain ⟨slot, step, _⟩ := mergeEntries_step rest refused
      rw [step, ih later, lookup_insert, if_neg apart]

omit [LinearOrder F] in
theorem mergeEntries_fails_iff {entries : List (Bytes × HllSlot F)} {s : HllMap F}
    (distinct : (keys entries).Nodup) :
    (∃ e, (mergeEntries hashing entries s).1 = .error e) ↔
      ∃ entry ∈ entries, Refuses hashing s entry := by
  induction entries generalizing s with
  | nil => simp [mergeEntries]
  | cons entry rest ih =>
    obtain ⟨fresh, distinct⟩ := List.nodup_cons.mp distinct
    by_cases refused : Refuses hashing s entry
    · obtain ⟨e, failed⟩ := mergeEntries_of_refuses rest refused
      rw [failed]
      exact iff_of_true ⟨e, rfl⟩ ⟨entry, List.mem_cons_self, refused⟩
    · obtain ⟨slot, step, _⟩ := mergeEntries_step rest refused
      rw [step, ih distinct]
      simp only [List.mem_cons, exists_eq_or_imp, refused, false_or]
      refine exists_congr fun other => and_congr_right fun member => refuses_insert_iff ?_
      exact fun same => fresh (same ▸ List.mem_map_of_mem member)

omit [LinearOrder F] in
/-- Past an accepted entry the map is another one. -/
theorem mergeEntries_moves {s : HllMap F} (clean : ∀ entry ∈ s.map, entry.2.dirty = false)
    (keysDistinct : (keys s.map).Nodup) {entry : Bytes × HllSlot F}
    {rest : List (Bytes × HllSlot F)} (distinct : (keys (entry :: rest)).Nodup)
    (accepted : ¬Refuses hashing s entry) : (mergeEntries hashing (entry :: rest) s).2 ≠ s := by
  obtain ⟨slot, step, marked⟩ := mergeEntries_step rest accepted
  have fresh : entry.1 ∉ keys rest := (List.nodup_cons.mp distinct).1
  intro same
  have found := congrArg (fun t => t.map.lookup entry.1) same
  simp only [step, mergeEntries_lookup fresh, lookup_insert, if_true] at found
  have held := (lookup_eq_some_iff keysDistinct).mp found.symm
  have dirty := marked slot found.symm
  rw [clean _ held] at dirty
  cases dirty

/-! ## All iteration orders -/

/-- Some sketches of common keys are refused, but not every key of `theirs` is one of them. -/
structure Halved (hashing : Hashing) (mine theirs : HllMap F) : Prop where
  parameters : mine.compatibility hashing = theirs.compatibility hashing
  refused : ∃ entry ∈ theirs.map, Refuses hashing mine entry
  accepted : ∃ entry ∈ theirs.map, ¬Refuses hashing mine entry

theorem mergeInto_of_incompatible (cardinality : Cardinality F) (s other : HllMap F)
    (apart : s.compatibility hashing ≠ other.compatibility hashing) :
    ∃ e, s.mergeInto cardinality hashing other = some (.error e, s) := by
  unfold mergeInto SketchCompatibility.ensureMatches
  rw [if_pos apart]
  exact ⟨_, rfl⟩

theorem mergeInto_error_iff (s other : HllMap F)
    (parameters : s.compatibility hashing = other.compatibility hashing) {e : SketchError}
    {t : HllMap F} : s.mergeInto cardinality hashing other = some (.error e, t) ↔
      mergeEntries hashing other.map s = (.error e, t) := by
  have passes := (SketchCompatibility.ensureMatches_ok_iff _ _).mpr parameters
  unfold mergeInto
  simp only [passes]
  cases joined : mergeEntries hashing other.map s with
  | mk result u =>
    cases result with
    | error e => simp
    | ok _ =>
      constructor
      · intro merged
        obtain ⟨_, _, merged⟩ := Option.bind_eq_some_iff.mp merged
        cases merged
      · intro equal
        cases equal

/-- Whatever the order of iteration, a failed merge leaves a clean map as it was, exactly when the merge
cannot stop half way. -/
theorem untouched_iff {s other : HllMap F} (clean : Clean s) (distinct : (keys other.map).Nodup) :
    (∀ order, other.map.Perm order → ∀ e t,
      s.mergeInto cardinality hashing { other with map := order } = some (.error e, t) → t = s) ↔
      ¬Halved hashing s other := by
  constructor
  · rintro untouched ⟨parameters, ⟨refused, refusedMember, refuses⟩, ⟨first, member, accepted⟩⟩
    obtain ⟨before, after, split⟩ := List.append_of_mem member
    have order : other.map.Perm (first :: (before ++ after)) := split ▸ List.perm_middle
    have distinctOrder : (keys (first :: (before ++ after))).Nodup :=
      (order.map Prod.fst).nodup_iff.mp distinct
    obtain ⟨e, fails⟩ := (mergeEntries_fails_iff (s := s) distinctOrder).mpr
      ⟨refused, order.mem_iff.mp refusedMember, refuses⟩
    refine mergeEntries_moves clean.refreshed clean.distinct distinctOrder accepted ?_
    exact untouched _ order e _ ((mergeInto_error_iff s
      { other with map := first :: (before ++ after) } parameters).mpr (Prod.ext fails rfl))
  · intro whole order same e t failed
    by_cases parameters : s.compatibility hashing = other.compatibility hashing
    · have stopped := (mergeInto_error_iff s { other with map := order } parameters).mp failed
      have distinctOrder : (keys order).Nodup := (same.map Prod.fst).nodup_iff.mp distinct
      obtain ⟨refused, member, refuses⟩ :=
        (mergeEntries_fails_iff (s := s) distinctOrder).mp ⟨e, congrArg Prod.fst stopped⟩
      cases order with
      | nil => cases member
      | cons first rest =>
        have also : Refuses hashing s first := by
          by_contra accepted
          exact whole ⟨parameters, ⟨refused, same.mem_iff.mpr member, refuses⟩,
            ⟨first, same.mem_iff.mpr List.mem_cons_self, accepted⟩⟩
        obtain ⟨_, left⟩ := mergeEntries_of_refuses rest also
        exact (congrArg Prod.snd (stopped.symm.trans left))
    · obtain ⟨_, left⟩ := mergeInto_of_incompatible cardinality s { other with map := order } parameters
      rw [left] at failed
      cases failed
      rfl

end FlowSketch.Source.HllMap
