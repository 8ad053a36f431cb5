import FlowSketch.Source.HllMap.Least
import FlowSketch.Source.Snapshots.Keyed

/-!
# Runs of an HLLMap

Maps that insertions, merges and accepted snapshots lead to, whatever the snapshot holds. Merging compares
a digest of the parameters; the results are about runs in which it tells precisions apart. `digest_collides`
has two pairs of parameters for which it does not.
-/

namespace FlowSketch.Source

namespace HyperLogLog
open Lib.Word64 Source.Core

theorem foldl_insertHash_setup (list : List UInt64) (s : HyperLogLog) :
    SameSetup s (list.foldl insertHash s) := by
  induction list generalizing s with
  | nil => exact ⟨rfl, rfl, rfl⟩
  | cons hash rest ih =>
    have first := insertHash_setup s hash
    have later := ih (s.insertHash hash)
    exact ⟨later.precision.trans first.precision, later.hash.trans first.hash,
      later.updates.trans first.updates⟩

theorem mergeStorage_setup (s other : HyperLogLog) : SameSetup s (s.mergeStorage other) := by
  unfold mergeStorage
  split
  · exact ⟨rfl, rfl, rfl⟩
  · exact insertHash_setup s _
  · exact foldl_insertHash_setup _ s
  · exact ⟨rfl, rfl, rfl⟩

/-- A merge of any two sketches keeps the precision and the hash of the first. -/
theorem mergeFrom_setup {hashing : Hashing} {s other t : HyperLogLog}
    (merged : s.mergeFrom hashing other = .ok t) : t.precision = s.precision ∧ t.hash = s.hash := by
  obtain ⟨_, _, result⟩ := bind_ok merged
  cases result
  have setup := mergeStorage_setup s other
  exact ⟨setup.precision, setup.hash⟩

end HyperLogLog

/-- A cardinality is `1` for a single hash and does not fall when an item is inserted. -/
structure Cardinality.Lawful {F : Type} [LinearOrder F] (cardinality : Cardinality F)
    (hashing : Core.Hashing) : Prop where
  single : ∀ precision hash item, cardinality.of (HyperLogLog.insert hashing
    { precision, hash, storage := .empty, updates := 0 } item) = cardinality.one
  rises : ∀ hll item, cardinality.of hll ≤ cardinality.of (HyperLogLog.insert hashing hll item)

namespace HllMap
open Lib.Octets Lib.Word64 Lib.AssocMap Source.Core

variable {F : Type} [LinearOrder F]

/-- The digest of the parameters tells the precisions of two maps apart. -/
def Separate (hashing : Hashing) (s other : HllMap F) : Prop :=
  s.paramsHash hashing = other.paramsHash hashing → other.precision = s.precision

/-- Maps a run leads to; `merged` has what a failed merge leaves behind too. -/
inductive Built (hashing : Hashing) (cardinality : Cardinality F) : HllMap F → Prop
  | new {maxKeys precision : Nat} {hash : HashSpec} {s : HllMap F}
      (created : HllMap.new maxKeys precision hash = .ok s) : Built hashing cardinality s
  | inserted {s t : HllMap F} (before : Built hashing cardinality s) (key item : Bytes)
      (done : s.insert cardinality hashing key item = some t) : Built hashing cardinality t
  | merged {s other t : HllMap F} {result : Except SketchError Unit}
      (before : Built hashing cardinality s) (argument : Built hashing cardinality other)
      (separate : Separate hashing s other)
      (done : s.mergeInto cardinality hashing other = some (result, t)) : Built hashing cardinality t
  | decoded {bytes : Bytes} {s : HllMap F}
      (accepted : fromSnapshot cardinality hashing bytes = .ok s) : Built hashing cardinality s
  | reordered {s : HllMap F} (before : Built hashing cardinality s) {map : List (Bytes × HllSlot F)}
      (same : s.map.Perm map) : Built hashing cardinality { s with map }

/-- What every map of a run has, whatever the cardinality. -/
structure Regular (s : HllMap F) : Prop where
  maxKeys : 0 < s.maxKeys
  inRange : HyperLogLog.minPrecision ≤ s.precision ∧ s.precision ≤ HyperLogLog.maxPrecision
  distinct : (keys s.map).Nodup
  size : s.map.length ≤ s.maxKeys
  uniform : ∀ entry ∈ hlls s.map, entry.2.precision = s.precision ∧ entry.2.hash = s.hash
  heaped : Heaped s
  word : s.evictedKeys < modulus

/-- With a lawful cardinality the heap is up to date as well. -/
structure Sound (cardinality : Cardinality F) (s : HllMap F) : Prop extends Regular s where
  tracked : Tracked cardinality s

variable {hashing : Hashing} {cardinality : Cardinality F}

theorem new_sound {maxKeys precision : Nat} {hash : HashSpec} {s : HllMap F}
    (created : HllMap.new maxKeys precision hash = .ok s) : Sound cardinality s := by
  have wf := new_wf created
  unfold HllMap.new at created
  split at created
  · cases created
  next =>
    obtain ⟨hll, _, result⟩ := bind_ok created
    cases result
    exact ⟨⟨wf.maxKeys, wf.inRange, wf.distinct, wf.size, by simp [hlls], List.Perm.refl _,
      wf.evictedKeys⟩, List.Perm.refl _, by simp, by simp⟩

omit [LinearOrder F] in
theorem Regular.reorder {s : HllMap F} (regular : Regular s) {map : List (Bytes × HllSlot F)}
    (same : s.map.Perm map) : Regular { s with map } := by
  have sketches := same.map (fun entry => (entry.1, entry.2.hll))
  exact ⟨regular.maxKeys, regular.inRange, (same.map Prod.fst).nodup_iff.mp regular.distinct,
    same.length_eq ▸ regular.size,
    fun entry member => regular.uniform entry (sketches.mem_iff.mpr member),
    regular.heaped.trans (same.map Prod.fst), regular.word⟩

theorem Tracked.reorder {s : HllMap F} (tracked : Tracked cardinality s)
    {map : List (Bytes × HllSlot F)} (same : s.map.Perm map) : Tracked cardinality { s with map } :=
  ⟨tracked.heap.trans (same.map candidate),
    fun entry member => tracked.lower entry (same.mem_iff.mpr member),
    fun entry member => tracked.clean entry (same.mem_iff.mpr member)⟩

theorem rebuild_tracked (s : HllMap F) : Tracked cardinality (s.rebuildEvictionHeap cardinality) where
  heap := by
    show (s.map.map _).Perm ((s.map.map _).map candidate)
    rw [List.map_map]
    exact List.Perm.refl _
  lower entry member := by
    obtain ⟨slot, _, rfl⟩ := List.mem_map.mp member
    exact le_refl _
  clean entry member _ := by
    obtain ⟨slot, _, rfl⟩ := List.mem_map.mp member
    rfl

/-! ## Insertions -/

/-- Room is made, by dropping a key if there is none. -/
theorem Regular.makeRoom {s : HllMap F} (regular : Regular s) (updates : Nat) :
    ∃ u, { s with updates }.makeRoom cardinality = some u ∧ Heaped u ∧ (keys u.map).Nodup ∧
      u.map.length < u.maxKeys ∧ u.maxKeys = s.maxKeys ∧ u.precision = s.precision ∧ u.hash = s.hash ∧
      (hlls u.map).Sublist (hlls s.map) ∧ u.evictedKeys < modulus := by
  have positive := regular.maxKeys
  have size := regular.size
  unfold HllMap.makeRoom
  dsimp only
  split
  next full =>
    have nonempty : s.map ≠ [] := by
      rintro emptied
      rw [emptied, List.length_nil] at full
      omega
    obtain ⟨u, evicting, heaped⟩ :=
      @evictSmallest_total F _ cardinality { s with updates } regular.distinct regular.heaped nonempty
    have evicted := evictLoop_evicted cardinality evicting
    have fewer := evicted.length regular.distinct
    dsimp only at fewer
    refine ⟨u, evicting, heaped, evicted.distinct regular.distinct, ?_, evicted.maxKeys,
      evicted.precision, evicted.hash, evicted.kept, evicted.evictedKeys ▸ wrappingAdd_lt _ _⟩
    rw [evicted.maxKeys]
    dsimp only
    omega
  next spare =>
    exact ⟨_, rfl, regular.heaped, regular.distinct, Nat.lt_of_not_le spare, rfl, rfl, rfl,
      List.Sublist.refl _, regular.word⟩

/-- An insertion never panics and leaves a regular map. -/
theorem Regular.insert {s : HllMap F} (regular : Regular s) (key item : Bytes) :
    ∃ t, s.insert cardinality hashing key item = some t ∧ Regular t := by
  cases known : s.map.lookup key with
  | some slot =>
    have listed : (key, slot) ∈ s.map := (lookup_eq_some_iff regular.distinct).mp known
    have present : key ∈ keys s.map := List.mem_map_of_mem listed
    have own := regular.uniform (key, slot.hll) (List.mem_map.mpr ⟨_, listed, rfl⟩)
    have setup := @insertHll_setup hashing slot.hll item
    refine ⟨_, insert_known known item, regular.maxKeys, regular.inRange,
      insert_nodup regular.distinct, (insert_length_of_mem present).trans_le regular.size, ?_, ?_,
      regular.word⟩
    · rw [hlls_insert]
      exact forall_insert regular.uniform ⟨setup.1.trans own.1, setup.2.trans own.2⟩
    · show (candidateKeys s.eviction).Perm (keys (Lib.AssocMap.insert key _ s.map))
      rw [keys_insert, if_pos present]
      exact regular.heaped
  | none =>
    obtain ⟨u, room, heaped, distinct, spare, maxKeys, precision, hash, kept, word⟩ :=
      @Regular.makeRoom F _ cardinality s regular (wrappingAdd s.updates 1)
    have absent : key ∉ keys u.map := makeRoom_absent room (lookup_eq_none_iff.mp known)
    have setup := @insertHll_setup hashing
      { precision := u.precision, hash := u.hash, storage := .empty, updates := 0 } item
    refine ⟨_, insert_unknown known room (precision ▸ regular.inRange) item, maxKeys ▸ regular.maxKeys,
      precision ▸ regular.inRange, insert_nodup distinct, (insert_length_le _ _ _).trans spare, ?_, ?_,
      word⟩
    · rw [hlls_insert]
      refine forall_insert (fun entry member => ?_) setup
      rw [precision, hash]
      exact regular.uniform entry (kept.subset member)
    · show (candidateKeys (_ :: u.eviction)).Perm (keys (Lib.AssocMap.insert key _ u.map))
      rw [keys_insert, if_neg absent]
      exact (heaped.cons key).trans (List.perm_append_singleton key _).symm

/-- What an insertion does to the keys and sketches. -/
inductive Insertion (hashing : Hashing) (cardinality : Cardinality F) (s : HllMap F)
    (key item : Bytes) (t : HllMap F) : Prop
  | known (hll : HyperLogLog) (found : (hlls s.map).lookup key = some hll)
      (sketches : hlls t.map = insert key (hll.insert hashing item) (hlls s.map))
      (evictedKeys : t.evictedKeys = s.evictedKeys)
  | room (unknown : key ∉ keys s.map) (spare : s.map.length < s.maxKeys)
      (sketches : hlls t.map = insert key (HyperLogLog.insert hashing
        { precision := s.precision, hash := s.hash, storage := .empty, updates := 0 } item) (hlls s.map))
      (evictedKeys : t.evictedKeys = s.evictedKeys)
  | full (unknown : key ∉ keys s.map) (crowded : s.map.length = s.maxKeys) (least : Bytes)
      (isLeast : Least cardinality (hlls s.map) least)
      (sketches : hlls t.map = insert key (HyperLogLog.insert hashing
        { precision := s.precision, hash := s.hash, storage := .empty, updates := 0 } item)
        ((hlls s.map).filter (fun entry => entry.1 ≠ least)))
      (evictedKeys : t.evictedKeys = wrappingAdd s.evictedKeys 1)

/-- A known key is touched: its cached cardinality stays and is now too low. -/
theorem Tracked.touch (lawful : cardinality.Lawful hashing) {s : HllMap F}
    (tracked : Tracked cardinality s) (distinct : (keys s.map).Nodup) {key : Bytes} {slot : HllSlot F}
    (found : s.map.lookup key = some slot) (item : Bytes) (updates : Nat) :
    Tracked cardinality
      { s with updates
               map := insert key { slot with hll := slot.hll.insert hashing item, dirty := true } s.map } where
  heap := by
    have split := (perm_cons_filter distinct found).map candidate
    exact (tracked.heap.trans split).trans (candidates_insert distinct found split
      { slot with hll := slot.hll.insert hashing item, dirty := true })
  lower := forall_insert tracked.lower
    ((tracked.lower _ ((lookup_eq_some_iff distinct).mp found)).trans (lawful.rises _ _))
  clean := forall_insert tracked.clean (fun clean => nomatch clean)

/-- A new key comes with the cardinality of one hash. -/
theorem Tracked.add (lawful : cardinality.Lawful hashing) {s : HllMap F}
    (tracked : Tracked cardinality s) {key : Bytes} (unknown : key ∉ keys s.map) (precision : Nat)
    (hash : HashSpec) (item : Bytes) :
    Tracked cardinality
      { s with map := insert key
                 { hll := HyperLogLog.insert hashing
                     { precision, hash, storage := .empty, updates := 0 } item
                   cachedCardinality := cardinality.one, dirty := false } s.map
               eviction := toLex (cardinality.one, key) :: s.eviction } where
  heap := by
    dsimp only
    rw [insert_of_not_mem unknown, List.map_append]
    exact (tracked.heap.cons _).trans (List.perm_append_singleton _ _).symm
  lower := forall_insert tracked.lower (le_of_eq (lawful.single _ _ _).symm)
  clean := forall_insert tracked.clean (fun _ => (lawful.single _ _ _).symm)

/-- Room is made by an eviction of the least key exactly when there is none. -/
theorem Sound.makeRoom {s u : HllMap F} (sound : Sound cardinality s) {updates : Nat}
    (room : { s with updates }.makeRoom cardinality = some u) :
    Tracked cardinality u ∧
      (s.map.length < s.maxKeys ∧ hlls u.map = hlls s.map ∧ u.evictedKeys = s.evictedKeys ∨
        s.map.length = s.maxKeys ∧ (∃ least, Least cardinality (hlls s.map) least ∧
          hlls u.map = (hlls s.map).filter (fun entry => entry.1 ≠ least)) ∧
          u.evictedKeys = wrappingAdd s.evictedKeys 1) := by
  have ticked : Tracked cardinality { s with updates } :=
    ⟨sound.tracked.heap, sound.tracked.lower, sound.tracked.clean⟩
  unfold HllMap.makeRoom at room
  dsimp only at room
  split at room
  next full =>
    obtain ⟨evicted, tracked⟩ :=
      @evictLoop_least F _ cardinality _ { s with updates } _ sound.distinct ticked room
    exact ⟨tracked, .inr ⟨Nat.le_antisymm sound.size full, evicted.least, evicted.evictedKeys⟩⟩
  next spare =>
    cases room
    exact ⟨ticked, .inl ⟨Nat.lt_of_not_le spare, rfl, rfl⟩⟩

/-- An insertion leaves a sound map, and says which key it dropped. -/
theorem Sound.insert (lawful : cardinality.Lawful hashing) {s : HllMap F}
    (sound : Sound cardinality s) (key item : Bytes) :
    ∃ t, s.insert cardinality hashing key item = some t ∧ Sound cardinality t ∧
      Insertion hashing cardinality s key item t := by
  obtain ⟨t, inserted, regular⟩ := @Regular.insert F _ hashing cardinality s sound.toRegular key item
  refine ⟨t, inserted, ?_⟩
  cases known : s.map.lookup key with
  | some slot =>
    cases (insert_known known item).symm.trans inserted
    exact ⟨⟨regular, sound.tracked.touch lawful sound.distinct known item _⟩,
      .known slot.hll (by rw [lookup_hlls, known]; rfl) (hlls_insert _ _ _) rfl⟩
  | none =>
    have unknown := lookup_eq_none_iff.mp known
    obtain ⟨u, room, _, _, _, _, precision, hash, _⟩ :=
      @Regular.makeRoom F _ cardinality s sound.toRegular (wrappingAdd s.updates 1)
    obtain ⟨tracked, made⟩ := sound.makeRoom room
    have absent : key ∉ keys u.map := makeRoom_absent room unknown
    cases (insert_unknown known room (precision ▸ sound.inRange) item).symm.trans inserted
    refine ⟨⟨regular, tracked.add lawful absent _ _ _⟩, ?_⟩
    rcases made with ⟨loose, same, counted⟩ | ⟨crowded, ⟨least, isLeast, left⟩, counted⟩
    · refine .room unknown loose ?_ counted
      rw [hlls_insert, same, precision, hash]
    · refine .full unknown crowded least isLeast ?_ counted
      rw [hlls_insert, left, precision, hash]

/-! ## Merges -/

/-- The sketch of a key after a merge. -/
def joined (hashing : Hashing) : Option HyperLogLog → Option HyperLogLog → Option HyperLogLog
  | some mine, some theirs => (mine.mergeFrom hashing theirs).toOption
  | some mine, none => some mine
  | none, theirs => theirs

section

variable {s : HllMap F} {key : Bytes} {mine theirs : HllSlot F} (rest : List (Bytes × HllSlot F))

omit [LinearOrder F] in
theorem mergeEntries_absent (absent : s.map.lookup key = none) :
    mergeEntries hashing ((key, theirs) :: rest) s =
      mergeEntries hashing rest { s with map := Lib.AssocMap.insert key theirs s.map } := by
  rw [mergeEntries, absent]

omit [LinearOrder F] in
theorem mergeEntries_present (present : s.map.lookup key = some mine) {hll : HyperLogLog}
    (merged : mine.hll.mergeFrom hashing theirs.hll = .ok hll) :
    mergeEntries hashing ((key, theirs) :: rest) s =
      mergeEntries hashing rest
        { s with map := Lib.AssocMap.insert key { mine with hll, dirty := true } s.map } := by
  rw [mergeEntries, present]
  dsimp only
  rw [merged]

omit [LinearOrder F] in
theorem mergeEntries_refused (present : s.map.lookup key = some mine) {e : SketchError}
    (refused : mine.hll.mergeFrom hashing theirs.hll = .error e) :
    mergeEntries hashing ((key, theirs) :: rest) s = (.error e, s) := by
  rw [mergeEntries, present]
  dsimp only
  rw [refused]

end

omit [LinearOrder F] in
/-- Maps of one precision and one hash join key by key, whatever the sketches hold. -/
theorem mergeEntries_joined {entries : List (Bytes × HllSlot F)} {s : HllMap F}
    (distinct : (keys s.map).Nodup) (theirsDistinct : (keys entries).Nodup)
    (mine : ∀ entry ∈ hlls s.map, entry.2.precision = s.precision ∧ entry.2.hash = s.hash)
    (theirs : ∀ entry ∈ hlls entries, entry.2.precision = s.precision ∧ entry.2.hash = s.hash) :
    ∃ map, mergeEntries hashing entries s = (.ok (), { s with map }) ∧ (keys map).Nodup ∧
      (∀ entry ∈ hlls map, entry.2.precision = s.precision ∧ entry.2.hash = s.hash) ∧
      ∀ key, (hlls map).lookup key =
        joined hashing ((hlls s.map).lookup key) ((hlls entries).lookup key) := by
  induction entries generalizing s with
  | nil =>
    refine ⟨s.map, rfl, distinct, mine, fun key => ?_⟩
    show _ = joined hashing _ none
    cases (hlls s.map).lookup key <;> rfl
  | cons entry rest ih =>
    obtain ⟨key, slot⟩ := entry
    rw [keys, List.map_cons, List.nodup_cons] at theirsDistinct
    rw [hlls, List.map_cons, ← hlls, List.forall_mem_cons] at theirs
    have later : (hlls rest).lookup key = none := by
      rw [lookup_eq_none_iff, keys_hlls]
      exact theirsDistinct.1
    -- the first key is written once, and the rest does not come back to it
    obtain ⟨slot', step, own, uniform⟩ : ∃ slot' : HllSlot F,
        mergeEntries hashing ((key, slot) :: rest) s =
          mergeEntries hashing rest { s with map := insert key slot' s.map } ∧
        joined hashing ((hlls s.map).lookup key) (some slot.hll) = some slot'.hll ∧
        slot'.hll.precision = s.precision ∧ slot'.hll.hash = s.hash := by
      cases known : s.map.lookup key with
      | none =>
        exact ⟨slot, mergeEntries_absent rest known, by rw [lookup_hlls, known]; rfl, theirs.1⟩
      | some present =>
        have listed : (key, present.hll) ∈ hlls s.map :=
          List.mem_map.mpr ⟨_, (lookup_eq_some_iff distinct).mp known, rfl⟩
        have same := mine _ listed
        obtain ⟨hll, merged⟩ := HyperLogLog.mergeFrom_total hashing
          (theirs.1.1.trans same.1.symm) (theirs.1.2.trans same.2.symm)
        have setup := HyperLogLog.mergeFrom_setup merged
        refine ⟨{ present with hll, dirty := true }, mergeEntries_present rest known merged, ?_,
          setup.1.trans same.1, setup.2.trans same.2⟩
        rw [lookup_hlls, known]
        exact congrArg Except.toOption merged
    obtain ⟨map, run, nodup, uniforms, lookups⟩ :=
      @ih { s with map := insert key slot' s.map } (insert_nodup distinct) theirsDistinct.2
        (by rw [hlls_insert]; exact forall_insert mine uniform) theirs.2
    refine ⟨map, by rw [step, run], nodup, uniforms, fun other => ?_⟩
    have cons : hlls ((key, slot) :: rest) = (key, slot.hll) :: hlls rest := rfl
    rw [lookups, hlls_insert, lookup_insert, cons, List.lookup_cons]
    by_cases same : other = key
    · subst same
      rw [if_pos rfl, later, beq_self_eq_true]
      exact own.symm
    · rw [if_neg same, beq_eq_false_iff_ne.mpr same]

/-- What a merge that succeeds does to the keys and sketches. -/
structure Merged (hashing : Hashing) (cardinality : Cardinality F) (s other t : HllMap F) : Prop where
  maxKeys : t.maxKeys = s.maxKeys
  precision : t.precision = s.precision
  hash : t.hash = s.hash
  updates : t.updates = wrappingAdd s.updates other.updates
  contents : ∃ union : List (Bytes × HyperLogLog), (keys union).Nodup ∧
    (∀ key, union.lookup key = joined hashing ((hlls s.map).lookup key) ((hlls other.map).lookup key)) ∧
    hlls t.map = survivors cardinality s.maxKeys union ∧
    ∃ dropped, t.map.length + dropped = union.length ∧
      t.evictedKeys = wrappingAdd (wrappingAdd s.evictedKeys dropped) other.evictedKeys

/-- A merge never panics; it fails and changes nothing, or joins the maps. -/
theorem Regular.merge {s other : HllMap F} (left : Regular s) (right : Regular other)
    (separate : Separate hashing s other) :
    ∃ result t, s.mergeInto cardinality hashing other = some (result, t) ∧
      ((∃ e, (s.compatibility hashing).ensureMatches (other.compatibility hashing) = .error e ∧
          result = .error e) ∧ t = s ∨
        ((s.compatibility hashing).ensureMatches (other.compatibility hashing) = .ok () ∧
          result = .ok ()) ∧ Sound cardinality t ∧ Merged hashing cardinality s other t) := by
  unfold mergeInto
  cases compatible : (s.compatibility hashing).ensureMatches (other.compatibility hashing) with
  | error e => exact ⟨_, _, rfl, .inl ⟨⟨e, rfl, rfl⟩, rfl⟩⟩
  | ok =>
    have same := (SketchCompatibility.ensureMatches_ok_iff _ _).mp compatible
    have hash : other.hash = s.hash := (congrArg SketchCompatibility.hash same).symm
    have precision := separate (congrArg SketchCompatibility.paramsHash same)
    obtain ⟨map, run, distinct, uniform, lookups⟩ := @mergeEntries_joined F hashing other.map s
      left.distinct right.distinct left.uniform fun entry member => by
        have own := right.uniform entry member
        exact ⟨own.1.trans precision, own.2.trans hash⟩
    have rebuilt : (keys (HllMap.rebuildEvictionHeap cardinality { s with map }).map).Nodup := by
      rw [← keys_hlls, hlls_rebuild, keys_hlls]
      exact distinct
    obtain ⟨v, trimming, trimmed⟩ := trim_survivors rebuilt (rebuild_tracked { s with map }) left.word
      (Nat.le_add_right _ _)
    have contents := trimmed.survivors
    rw [hlls_rebuild] at contents
    have kept : (hlls v.map).Sublist (hlls map) := by
      rw [contents]
      exact List.filter_sublist
    refine ⟨.ok (), { v with evictedKeys := wrappingAdd v.evictedKeys other.evictedKeys
                             updates := wrappingAdd v.updates other.updates }, ?_,
      .inr ⟨⟨rfl, rfl⟩, ?_, ?_⟩⟩
    · simp only [run]
      exact Option.bind_eq_some_iff.mpr ⟨v, trimming, rfl⟩
    · refine ⟨⟨trimmed.maxKeys ▸ left.maxKeys, trimmed.precision ▸ left.inRange, ?_, trimmed.size,
        fun entry member => ?_, trimmed.tracked.heaped, wrappingAdd_lt _ _⟩,
        ⟨trimmed.tracked.heap, trimmed.tracked.lower, trimmed.tracked.clean⟩⟩
      · rw [← keys_hlls]
        rw [← keys_hlls] at distinct
        exact (kept.map Prod.fst).nodup distinct
      · rw [trimmed.precision, trimmed.hash]
        exact uniform entry (kept.subset member)
    · obtain ⟨dropped, lengths, counted⟩ := trimmed.counted
      refine ⟨trimmed.maxKeys, trimmed.precision, trimmed.hash,
        congrArg (wrappingAdd · other.updates) trimmed.updates, hlls map, by simpa using distinct,
        lookups, contents, dropped, ?_, congrArg (wrappingAdd · other.evictedKeys) counted⟩
      rw [hlls_length, lengths]
      exact List.length_map _

/-! ## Snapshots -/

omit [LinearOrder F] in
/-- The decoder takes inner sketches of the outer precision and hash only. -/
theorem readSlots_uniform {hash : HashSpec} {precision n : Nat} {before slots : List (Bytes × HllSlot F)}
    {rest later : Bytes} (distinct : (keys before).Nodup)
    (uniform : ∀ entry ∈ hlls before, entry.2.precision = precision ∧ entry.2.hash = hash)
    (read : readSlots cardinality hashing hash precision n before rest = .ok (slots, later)) :
    (keys slots).Nodup ∧ slots.length ≤ before.length + n ∧
      ∀ entry ∈ hlls slots, entry.2.precision = precision ∧ entry.2.hash = hash := by
  induction n generalizing before rest with
  | zero =>
    cases read
    exact ⟨distinct, Nat.le_refl _, uniform⟩
  | succ n ih =>
    obtain ⟨key, _, _, read⟩ := Read.bind_ok read
    obtain ⟨inner, _, _, read⟩ := Read.bind_ok read
    obtain ⟨hll, _, _, read⟩ := Read.bind_ok read
    obtain ⟨precise, read⟩ := Reader.guard_ok read
    obtain ⟨hashed, read⟩ := Reader.guard_ok read
    obtain ⟨nodup, length, uniforms⟩ := ih (insert_nodup distinct)
      (by
        rw [hlls_insert]
        exact forall_insert uniform ⟨not_not.mp precise, not_not.mp hashed⟩) read
    have grown := insert_length_le key
      ({ hll, cachedCardinality := cardinality.of hll, dirty := false } : HllSlot F) before
    exact ⟨nodup, by omega, uniforms⟩

/-- Whatever a snapshot holds, what is accepted is sound. -/
theorem fromSnapshot_sound {bytes : Bytes} {s : HllMap F}
    (accepted : fromSnapshot cardinality hashing bytes = .ok s) : Sound cardinality s := by
  obtain ⟨⟨header, params, payload⟩, _, accepted⟩ := bind_ok accepted
  obtain ⟨_, accepted⟩ := throw_ok accepted
  obtain ⟨⟨⟨maxKeys, precision⟩, _⟩, _, accepted⟩ := bind_ok accepted
  obtain ⟨positive, accepted⟩ := throw_ok accepted
  obtain ⟨inRange, accepted⟩ := throw_ok accepted
  obtain ⟨⟨map, _⟩, read, result⟩ := bind_ok accepted
  cases result
  obtain ⟨updates, _, _, read⟩ := Read.bind_ok read
  obtain ⟨evictedKeys, _, counted, read⟩ := Read.bind_ok read
  obtain ⟨n, _, _, read⟩ := Read.bind_ok read
  obtain ⟨few, read⟩ := Reader.guard_ok read
  obtain ⟨_, _, _, read⟩ := Read.bind_ok read
  obtain ⟨slots, _, listed, read⟩ := Read.bind_ok read
  cases read
  have empty : (keys ([] : List (Bytes × HllSlot F))).Nodup := List.nodup_nil
  obtain ⟨distinct, length, uniform⟩ := readSlots_uniform empty (by simp [hlls]) listed
  rw [List.length_nil, Nat.zero_add] at length
  refine ⟨⟨Nat.pos_of_ne_zero positive, not_not.mp inRange, ?_, ?_, ?_, (rebuild_tracked _).heaped,
    Reader.int_lt counted⟩, rebuild_tracked _⟩
  · rw [← keys_hlls, hlls_rebuild, keys_hlls]
    exact distinct
  · exact (List.length_map _).trans_le (length.trans (Nat.le_of_not_lt few))
  · rw [hlls_rebuild]
    exact uniform

theorem Built.regular {s : HllMap F} (run : Built hashing cardinality s) : Regular s := by
  induction run with
  | new created => exact (@new_sound F _ cardinality _ _ _ _ created).toRegular
  | inserted _ key item done regular =>
    obtain ⟨t, inserted, after⟩ := regular.insert key item
    cases inserted.symm.trans done
    exact after
  | merged _ _ separate done left right =>
    obtain ⟨result, t, merged, outcome⟩ := left.merge right separate
    cases merged.symm.trans done
    rcases outcome with ⟨_, rfl⟩ | ⟨_, after, _⟩
    · exact left
    · exact after.toRegular
  | decoded accepted => exact (fromSnapshot_sound accepted).toRegular
  | reordered _ same regular => exact regular.reorder same

theorem Built.sound (lawful : cardinality.Lawful hashing) {s : HllMap F}
    (run : Built hashing cardinality s) : Sound cardinality s := by
  induction run with
  | new created => exact new_sound created
  | inserted _ key item done sound =>
    obtain ⟨t, inserted, after, _⟩ := sound.insert lawful key item
    cases inserted.symm.trans done
    exact after
  | merged _ _ separate done left right =>
    obtain ⟨result, t, merged, outcome⟩ := left.toRegular.merge right.toRegular separate
    cases merged.symm.trans done
    rcases outcome with ⟨_, rfl⟩ | ⟨_, after, _⟩
    · exact left
    · exact after
  | decoded accepted => exact fromSnapshot_sound accepted
  | reordered _ same sound => exact ⟨sound.toRegular.reorder same, sound.tracked.reorder same⟩

/-- The number of hashes as long as they are kept, and no number after that. -/
def hashCount : Cardinality (WithTop Nat) where
  of hll :=
    match hll.storage with
    | .empty => 0
    | .singleton _ => 1
    | .sparse hashes => hashes.length
    | .dense _ => ⊤
  one := 1

/-- The slot of a key that saw one item. -/
def oneItem (precision : Nat) : HllSlot (WithTop Nat) :=
  { hll := HyperLogLog.insert fsk1
      { precision, hash := HashSpec.new 1, storage := .empty, updates := 0 } [7]
    cachedCardinality := 1
    dirty := false }

/-- Two keys, the one of `oneKey` behind another. -/
def twoKeys (maxKeys precision : Nat) : HllMap (WithTop Nat) :=
  { maxKeys, precision, hash := HashSpec.new 1
    map := [([1], oneItem precision), ([2], oneItem precision)]
    eviction := [toLex (1, [2]), toLex (1, [1])], evictedKeys := 0, updates := 2 }

end HllMap

end FlowSketch.Source
