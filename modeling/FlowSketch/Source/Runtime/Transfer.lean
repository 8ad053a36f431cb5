import FlowSketch.Lib.Ranking
import FlowSketch.Source.Kll.Capacities
import FlowSketch.Source.Runtime.Guarantees
import FlowSketch.Source.Runtime.Shipping

/-!
# Windows at the gateway

Estimates are listed in an order that depends on the content of the sketches only, so equal contents
give equal estimates. With this and the components there and back, every window an engine emits arrives
at the gateway as it was.
-/

namespace FlowSketch.Source
open Lib.Octets Lib.AssocMap Lib.CounterSummary Source.Core

namespace SpaceSaving

theorem pairs_of_same {hashing : Hashing} {s t : SpaceSaving} (wf : Wf hashing s)
    (wfT : Wf hashing t) (same : SameView s t) : s.pairs.Perm t.pairs := by
  refine perm_of_lookup (s.keys_pairs ▸ wf.indexed.distinct) (t.keys_pairs ▸ wfT.indexed.distinct)
    fun key => ?_
  rw [← abs_entry wf, ← abs_entry wfT, same.abs]

theorem topK_of_same {hashing : Hashing} {s t : SpaceSaving} (wf : Wf hashing s)
    (wfT : Wf hashing t) (same : SameView s t) (limit : Nat) : t.topK limit = s.topK limit := by
  have distinct : (keys s.pairs).Nodup := s.keys_pairs ▸ wf.indexed.distinct
  refine congrArg (List.take limit) (Lib.Ranking.sort_eq_of_perm retainBefore_iff
    (pairs_of_same wf wfT same) fun a memberA b memberB equal => ?_).symm
  exact List.inj_on_of_nodup_map distinct memberA memberB
    (congrArg Prod.snd (toLex_inj.mp equal))

end SpaceSaving

namespace HllMap

variable {F : Type} [LinearOrder F]

theorem entries_of_same (cardinality : Cardinality F) {s t : HllMap F}
    (distinct : (keys s.map).Nodup) (distinctT : (keys t.map).Nodup) (same : Same s t) :
    t.entries cardinality = s.entries cardinality := by
  have listed : ∀ u : HllMap F, u.map.map (fun entry => (entry.1, cardinality.of entry.2.hll)) =
      (hlls u.map).map (fun entry => (entry.1, cardinality.of entry.2)) := by
    intro u
    rw [hlls, List.map_map]
    rfl
  have perm : (hlls s.map).Perm (hlls t.map) := by
    refine perm_of_lookup (by rwa [keys_hlls]) (by rwa [keys_hlls]) fun key => ?_
    exact (same.sketches key).symm
  have sized : (keys (s.map.map fun entry => (entry.1, cardinality.of entry.2.hll))).Nodup := by
    rw [keys, List.map_map]
    exact distinct
  have ranked : ∀ a b : Bytes × F,
      decide (b.2 < a.2 ∨ b.2 = a.2 ∧ a.1 ≤ b.1) = true ↔
        toLex (OrderDual.toDual a.2, a.1) ≤ toLex (OrderDual.toDual b.2, b.1) := by
    intro a b
    rw [Prod.Lex.toLex_le_toLex, decide_eq_true_eq]
    exact or_congr_right (and_congr_left' eq_comm)
  refine (Lib.Ranking.sort_eq_of_perm ranked ?_ fun a memberA b memberB equal => ?_).symm
  · have images := perm.map (fun entry => (entry.1, cardinality.of entry.2))
    rw [← listed, ← listed] at images
    exact images
  · exact List.inj_on_of_nodup_map sized memberA memberB (congrArg Prod.snd (toLex_inj.mp equal))

end HllMap

namespace KllSketch

theorem quantile_of_same {s t : KllSketch} (same : Same s t) (q : Float) :
    t.quantile q = s.quantile q := by
  unfold quantile
  simp only [same.n, weighted, same.levels]

end KllSketch

end FlowSketch.Source

namespace FlowSketch.Source.Runtime
open Lib.Octets Lib.Word64 Lib.AssocMap Source.Core

variable {F : Type} [LinearOrder F] {cardinality : Cardinality F} {hashing : Hashing} {hash : HashSpec}
variable {sketch : PhysicalSketch}

omit [LinearOrder F] in
theorem updateCount_of_same {state copy : QueryState F} (same : state.Same copy) :
    copy.updateCount = state.updateCount := by
  cases same with
  | heavyHitters same => exact same.updates
  | counter => rfl
  | distinctPerKey same => exact same.updates
  | distinctGlobal => rfl
  | quantile same => exact same.updates
  | entropy same => exact same.updates

theorem emitEstimates_of_same {asFloat : F → Float} {lossy : Bytes → String} {state copy : QueryState F}
    (suits : Suits hashing hash sketch state) (suitsCopy : Suits hashing hash sketch copy)
    (same : state.Same copy) (plan : Plan) (windowStart windowEnd : Nat) :
    emitEstimates cardinality asFloat hashing lossy plan copy windowStart windowEnd =
      emitEstimates cardinality asFloat hashing lossy plan state windowStart windowEnd := by
  unfold emitEstimates
  rw [updateCount_of_same same]
  cases same with
  | heavyHitters same =>
    cases suits with
    | heavyHitters summary =>
      cases suitsCopy with
      | heavyHitters copied =>
        simp only [SpaceSaving.topK_of_same summary.wf copied.wf same.view]
  | counter same =>
    cases suits with
    | counter table summary =>
      cases suitsCopy with
      | counter _ copied => simp only [SpaceSaving.topK_of_same summary.wf copied.wf same.view]
  | distinctPerKey same =>
    cases suits with
    | distinctPerKey keyed =>
      cases suitsCopy with
      | distinctPerKey copied =>
        simp only [HllMap.entries_of_same cardinality keyed.wf.distinct copied.wf.distinct same,
          same.precision]
  | distinctGlobal => rfl
  | quantile same =>
    simp only [KllSketch.quantile_of_same same, KllSketch.rankError, same.k]
  | entropy same =>
    cases suits with
    | entropy summary distinct =>
      cases suitsCopy with
      | entropy copied _ =>
        simp only [estimateEntropyBits, same.totalWeight, ← same.view.capacity,
          SpaceSaving.topK_of_same summary.wf copied.wf same.view]

/-- The copy has the window and the content of the original, and gives the same estimates. -/
structure WindowState.Copies (cardinality : Cardinality F) (asFloat : F → Float) (hashing : Hashing)
    (lossy : Bytes → String) (plan : Plan) (w copy : WindowState (QueryState F)) : Prop where
  windowStart : copy.windowStartNanos = w.windowStartNanos
  windowEnd : copy.windowEndNanos = w.windowEndNanos
  state : w.state.Same copy.state
  estimates : copy.estimates cardinality asFloat hashing lossy plan =
    w.estimates cardinality asFloat hashing lossy plan

/-- An emitted window that the format can hold arrives unchanged exactly when no level of its quantile
sketch is over its capacity. -/
theorem stored_ships_iff {asFloat : F → Float} {lossy : Bytes → String} {plan : Plan}
    {w : WindowState (QueryState F)} (stored : Stored hashing hash plan.sketch w.state)
    (exportable : w.state.Exportable hashing) (start : w.windowStartNanos < modulus)
    (stop : w.windowEndNanos < modulus) {components : List (String × Bytes)}
    (perm : components.Perm (w.snapshotExports hashing)) :
    (∃ copy, WindowState.fromComponents cardinality hashing plan.sketch hash components = .ok copy ∧
      w.Copies cardinality asFloat hashing lossy plan copy) ↔ w.state.Settled := by
  obtain ⟨_, parsed, empty, merged, rebuilds, suitsParsed, same⟩ :=
    @rebuilds_of_stored F _ cardinality hashing hash plan.sketch _ _ _ stored exportable start stop _ perm
  have distinct : (keys components).Nodup :=
    (perm.map Prod.fst).nodup_iff.mpr (exports_nodup _ _ _)
  have nonempty : components ≠ [] := by
    rintro rfl
    have none : w.snapshotExports hashing = [] := List.nil_perm.mp perm
    unfold WindowState.snapshotExports QueryState.toSnapshots at none
    split at none <;> cases none
  have window := rebuilds.window nonempty distinct
  obtain ⟨_, done, suitsMerged, _⟩ := (Suits.build rebuilds.builds).1.merge suitsParsed cardinality
  obtain rfl := Except.ok.inj (done.symm.trans rebuilds.merges)
  rw [← same]
  constructor
  · rintro ⟨copy, received, copies⟩
    obtain rfl := Except.ok.inj (window.symm.trans received)
    exact copies.state
  · intro copied
    exact ⟨_, window, rfl, rfl, copied, emitEstimates_of_same stored.1 suitsMerged copied _ _ _⟩

/-- Every window that an engine emits and the format can hold arrives unchanged, with the estimates it
had, exactly when no level of its quantile sketch is over its capacity. -/
theorem window_ships_iff {display : Ipv6Text} {plans : List Plan} {asFloat : F → Float}
    {lossy : Bytes → String} {e : QueryEngine (QueryState F)}
    (reachable : QueryEngine.Reachable (queryBackend cardinality hashing hash) display plans e)
    {q : RunningQuery (QueryState F)} (member : q ∈ e.queries) {w : WindowState (QueryState F)}
    (emitted : w ∈ q.emitted) (exportable : w.state.Exportable hashing)
    {components : List (String × Bytes)} (perm : components.Perm (w.snapshotExports hashing)) :
    (∃ copy, WindowState.fromComponents cardinality hashing q.plan.sketch hash components = .ok copy ∧
      w.Copies cardinality asFloat hashing lossy q.plan copy) ↔ w.state.Settled := by
  obtain ⟨plan, _, holds⟩ := reachable.holds (fun _ _ => stored_kept) q member
  obtain ⟨stored, start, stop⟩ := holds.emitted w emitted
  rw [holds.plan]
  exact stored_ships_iff stored exportable start stop perm

/-! ## Two windows -/

/-- The window that closes when the watermark moves on by one bucket. -/
def firstWindow : WindowState (QueryState Nat) where
  state := .distinctGlobal { precision := 4, hash := HashSpec.new 0, storage := .empty, updates := 0 }
  windowStartNanos := 0
  windowEndNanos := 10

theorem firstWindow_ships :
    ∃ copy, WindowState.fromComponents updatesCardinality fsk1 distinctSources.sketch (HashSpec.new 0)
        (firstWindow.snapshotExports fsk1) = .ok copy ∧
      firstWindow.Copies updatesCardinality Float.ofNat fsk1 (fun _ => "") distinctSources copy :=
  (window_ships_iff (.call (.call sampleEngine_reachable (.advanceTo 0)) (.advanceTo 10))
    (List.mem_singleton.mpr rfl) (List.mem_singleton.mpr rfl) trivial (List.Perm.refl _)).mpr trivial

/-- The median size over two buckets of one nanosecond. -/
def medianBytes : Plan where
  query := { name := "median", filter := Predicate.all, groupBy := [], measure := .quantile .bytes 0.5
             window := { sizeNanos := 2, slideNanos := 1 }, alert := { gt := none, lt := none }
             maxSeries := 1 }
  sketch := .kll 14
  windowBuckets := 2
  pendingWindowCapacity := 2
  exportSeriesUpperBound := 1
  slide_pos := by decide
  slide_word := by decide
  size_word := by decide
  buckets_eq := rfl
  pending_eq := rfl
  serves := .quantile .bytes 0.5 14

def medianBackend : Backend (QueryState Nat) := queryBackend updatesCardinality fsk1 (HashSpec.new 1)

def emptyEvent (ts : UInt64) : FlowEvent := { (default : FlowEvent) with tsNanos := ts }

/-- A query of this plan, with nothing pending. -/
def medianQuery (buckets : List (Bucket (QueryState Nat))) : RunningQuery (QueryState Nat) where
  plan := medianBytes
  buckets := buckets
  emitted := []
  lateEvents := 0

section

variable (buckets : List (Bucket (QueryState Nat)))

@[simp] theorem medianQuery_slideNanos : (medianQuery buckets).slideNanos = 1 := rfl
@[simp] theorem medianQuery_bucketCount : (medianQuery buckets).bucketCount = 2 := rfl
@[simp] theorem medianQuery_buckets : (medianQuery buckets).buckets = buckets := rfl
@[simp] theorem medianQuery_emitted : (medianQuery buckets).emitted = [] := rfl

theorem medianQuery_start : (medianQuery buckets).bucketStartFor (emptyEvent 1).ts = 1 := by
  rw [RunningQuery.bucketStartFor, medianQuery_slideNanos]
  rfl

theorem medianQuery_room : (medianQuery buckets).ensureEmitCapacity 1 = .ok () := by
  unfold RunningQuery.ensureEmitCapacity
  show (if saturatingAdd 0 1 > 2 then _ else _) = _
  rw [if_neg (by decide)]

end

/-- Closing the first bucket opens the second. -/
theorem medianQuery_advance (first : KllSketch) {fresh : KllSketch}
    (created : KllSketch.new 14 (HashSpec.new 1) = .ok fresh) :
    (medianQuery [⟨0, .quantile first⟩]).advanceToBucket medianBackend 1 =
      .done { medianQuery [⟨0, .quantile first⟩, ⟨1, .quantile fresh⟩] with
              emitted := [⟨.quantile first, 0, 1⟩] } := by
  have last : (medianQuery [⟨0, .quantile first⟩]).backStart = some 0 := rfl
  have closes : (medianQuery [⟨0, .quantile first⟩]).windowsClosedByAdvance 1 = 1 := by
    simp [RunningQuery.windowsClosedByAdvance, last]
  have flushed : (medianQuery [⟨0, .quantile first⟩]).flushWindow medianBackend 1 =
      .done { medianQuery [⟨0, .quantile first⟩] with emitted := [⟨.quantile first, 0, 1⟩] } := by
    simp [RunningQuery.flushWindow, medianQuery_room]
    rfl
  have slid : (medianQuery [⟨0, .quantile first⟩]).slideOnce medianBackend =
      .done { medianQuery [⟨0, .quantile first⟩, ⟨1, .quantile fresh⟩] with
              emitted := [⟨.quantile first, 0, 1⟩] } := by
    rw [RunningQuery.slideOnce, last]
    show Run.bind (RunningQuery.flushWindow medianBackend _ 1) _ = _
    rw [flushed]
    cases created
    rfl
  simp [RunningQuery.advanceToBucket, RunningQuery.ensureCanAdvance, closes, medianQuery_room, last,
    RunningQuery.slideUntil, slid]

/-- The engine of this query alone. -/
def medianEngine (buckets : List (Bucket (QueryState Nat))) (events : Nat) :
    QueryEngine (QueryState Nat) :=
  { queries := [medianQuery buckets], eventsProcessed := events }

theorem medianEngine_call (buckets : List (Bucket (QueryState Nat))) (events : Nat)
    {q : RunningQuery (QueryState Nat)}
    (admits : (medianQuery buckets).ensureCanProcess (emptyEvent 1) = .ok ())
    (processed : (medianQuery buckets).process medianBackend Ipv6Text.expanded (emptyEvent 1) =
      .done q) :
    (medianEngine buckets events).call medianBackend Ipv6Text.expanded (.process (emptyEvent 1)) =
      .done { queries := [q], eventsProcessed := wrappingAdd events 1 } := by
  have pass : (medianEngine buckets events).preflight
      (fun q => q.ensureCanProcess (emptyEvent 1)) = .ok () := by
    rw [QueryEngine.preflight_ok]
    intro q member
    rw [List.mem_singleton.mp member]
    exact admits
  show Run.attempt _ _ _ = _
  rw [pass, Run.attempt_ok]
  show Run.map _ (Run.forEach _ [medianQuery buckets]) = _
  rw [Run.forEach, processed]
  rfl

/-- The first bucket is fed with zeros. -/
theorem firstBucket_zeros {first : KllSketch} (more : Nat) {past : List Nat}
    (built : KllSketch.ofTree fsk1 14 (HashSpec.new 1) (KllSketch.zeros (more + 1)) =
      .ok (first, past)) :
    ∃ events, QueryEngine.Reachable medianBackend Ipv6Text.expanded [medianBytes]
      (medianEngine [⟨0, .quantile first⟩] events) := by
  induction more generalizing first past with
  | zero =>
    obtain ⟨before, past, start, rfl⟩ := KllSketch.ofTree_update built
    cases start
    have opened : QueryEngine.Reachable medianBackend Ipv6Text.expanded [medianBytes]
        { queries := [RunningQuery.new medianBytes], eventsProcessed := 0 } := .new rfl
    exact ⟨1, .call opened (.process (emptyEvent 0))⟩
  | succ more ih =>
    obtain ⟨before, past, start, rfl⟩ := KllSketch.ofTree_update built
    obtain ⟨events, reachable⟩ := ih start
    exact ⟨wrappingAdd events 1, .call reachable (.process (emptyEvent 0))⟩

/-- And then the second. -/
theorem secondBucket_zeros {first second : KllSketch} {events : Nat}
    (reachable : QueryEngine.Reachable medianBackend Ipv6Text.expanded [medianBytes]
      (medianEngine [⟨0, .quantile first⟩] events)) (more : Nat) {past : List Nat}
    (built : KllSketch.ofTree fsk1 14 (HashSpec.new 1) (KllSketch.zeros (more + 1)) =
      .ok (second, past)) :
    ∃ events, QueryEngine.Reachable medianBackend Ipv6Text.expanded [medianBytes]
      (medianEngine [⟨0, .quantile first⟩, ⟨1, .quantile second⟩] events) := by
  induction more generalizing second past with
  | zero =>
    obtain ⟨before, past, start, rfl⟩ := KllSketch.ofTree_update built
    obtain ⟨fresh, created, same⟩ := map_ok start
    obtain rfl := (Prod.mk.inj same).1
    have last : (medianQuery [⟨0, .quantile first⟩]).backStart = some 0 := rfl
    have admits : (medianQuery [⟨0, .quantile first⟩]).ensureCanProcess (emptyEvent 1) = .ok () := by
      have closes : (medianQuery [⟨0, .quantile first⟩]).windowsClosedByAdvance 1 = 1 := by
        simp [RunningQuery.windowsClosedByAdvance, last]
      rw [RunningQuery.ensureCanProcess, medianQuery_start, RunningQuery.ensureCanAdvance, closes,
        medianQuery_room, ite_self]
    have processed : (medianQuery [⟨0, .quantile first⟩]).process medianBackend Ipv6Text.expanded
        (emptyEvent 1) = .done { medianQuery [⟨0, .quantile first⟩, ⟨1, .quantile (fresh.insert 0)⟩] with
              emitted := [⟨.quantile first, 0, 1⟩] } := by
      unfold RunningQuery.process
      simp only [medianQuery_start, last]
      rw [medianQuery_advance first created]
      rfl
    have stepped := QueryEngine.Reachable.call reachable (.process (emptyEvent 1))
    rw [medianEngine_call _ _ admits processed] at stepped
    exact ⟨wrappingAdd events 1, .call stepped .drain⟩
  | succ more ih =>
    obtain ⟨before, past, start, rfl⟩ := KllSketch.ofTree_update built
    obtain ⟨later, reached⟩ := ih start
    have stepped := QueryEngine.Reachable.call reached (.process (emptyEvent 1))
    rw [medianEngine_call _ _ (by
        rw [RunningQuery.ensureCanProcess, medianQuery_start]
        rfl) (q := medianQuery [⟨0, .quantile first⟩, ⟨1, .quantile (before.insert 0)⟩]) (by
        unfold RunningQuery.process
        rw [medianQuery_start]
        rfl)] at stepped
    exact ⟨wrappingAdd later 1, stepped⟩

/-- The end of the stream merges both buckets. -/
theorem medianQuery_finish {first second merged : KllSketch}
    (done : first.mergeFrom fsk1 second = .ok merged) :
    (medianQuery [⟨0, .quantile first⟩, ⟨1, .quantile second⟩]).finish medianBackend =
      .done { medianQuery [⟨0, .quantile first⟩, ⟨1, .quantile second⟩] with
              emitted := [⟨.quantile merged, 0, 2⟩] } := by
  have last : (medianQuery [⟨0, .quantile first⟩, ⟨1, .quantile second⟩]).backStart = some 1 := rfl
  have joins : medianBackend.mergeFrom (.quantile first) (.quantile second) =
      .ok (.quantile merged) := by
    show (first.mergeFrom fsk1 second).map QueryState.quantile = _
    rw [done]
    rfl
  simp [RunningQuery.finish, last, medianQuery_room, RunningQuery.flushWindow,
    RunningQuery.mergeBuckets, joins]
  rfl

theorem medianEngine_finish {first second merged : KllSketch}
    (done : first.mergeFrom fsk1 second = .ok merged) (events : Nat) :
    (medianEngine [⟨0, .quantile first⟩, ⟨1, .quantile second⟩] events).call medianBackend
        Ipv6Text.expanded .finish =
      .done { queries := [{ medianQuery [⟨0, .quantile first⟩, ⟨1, .quantile second⟩] with
                            emitted := [⟨.quantile merged, 0, 2⟩] }]
              eventsProcessed := events } := by
  have pass : (medianEngine [⟨0, .quantile first⟩, ⟨1, .quantile second⟩] events).preflight
      (fun q => if q.buckets.isEmpty then .ok () else q.ensureEmitCapacity 1) = .ok () := by
    rw [QueryEngine.preflight_ok]
    intro q member
    rw [List.mem_singleton.mp member, medianQuery_room, ite_self]
  rw [QueryEngine.call, QueryEngine.finish, pass, Run.attempt_ok]
  show Run.map _ (Run.forEach _ [medianQuery _]) = _
  rw [Run.forEach, medianQuery_finish done]
  rfl

/-- Twenty-four zeros in the first bucket and fifteen in the second: the merge strands nine of them on
a level of capacity eight, and the gateway compacts that level. -/
theorem stranded_window_differs :
    ∃ e : QueryEngine (QueryState Nat),
      QueryEngine.Reachable medianBackend Ipv6Text.expanded [medianBytes] e ∧
        ∃ q ∈ e.queries, ∃ w ∈ q.emitted,
          ¬∃ copy, WindowState.fromComponents updatesCardinality fsk1 q.plan.sketch (HashSpec.new 1)
              (w.snapshotExports fsk1) = .ok copy ∧
            w.Copies updatesCardinality Float.ofNat fsk1 (fun _ => "") q.plan copy := by
  obtain ⟨s, _, t, _, promoted, builtLeft, builtRight, ownK, levels, few⟩ := KllSketch.zeros_stranded
  obtain ⟨events, first⟩ := firstBucket_zeros 23 builtLeft
  obtain ⟨later, second⟩ := secondBucket_zeros first 14 builtRight
  obtain ⟨merged, compactions, built, _⟩ := @KllSketch.ofTree_runs fsk1 14 (HashSpec.new 1) (by decide)
    ((KllSketch.zeros 24).merge (KllSketch.zeros 15))
  obtain ⟨s', _, t', _, againLeft, againRight, done⟩ := KllSketch.ofTree_merge built
  cases builtLeft.symm.trans againLeft
  cases builtRight.symm.trans againRight
  have reached := QueryEngine.Reachable.call second .finish
  rw [medianEngine_finish done] at reached
  refine ⟨_, reached, _, List.mem_singleton_self _, _, List.mem_singleton_self _, ?_⟩
  have same : merged = (KllSketch.joined s t).compress := by
    obtain ⟨_, _, result⟩ := bind_ok done
    exact (Except.ok.inj result).symm
  have ownK' : merged.k = 14 := by
    rw [same]
    exact (KllSketch.compress_setup (KllSketch.joined s t)).k.trans ownK
  rw [← same] at levels
  obtain ⟨plan, _, holds⟩ := reached.holds (fun _ _ => stored_kept) _ (List.mem_singleton_self _)
  obtain ⟨stored, start, stop⟩ := holds.emitted _ (List.mem_singleton_self _)
  have planned : plan = medianBytes := holds.plan.symm
  rw [planned] at stored
  have exportable : (.quantile merged : QueryState Nat).Exportable fsk1 := by
    refine ⟨by rw [ownK']; decide, ?_, ?_⟩
    · rw [KllSketch.payload, levels]
      simp [KllSketch.writeLevel, Reader.writeU64s_length, few]
    · rw [levels]
      exact (by decide : 3 ≤ KllSketch.maxLevels)
  intro copied
  exact KllSketch.stranded_unsettled ownK' levels
    ((stored_ships_iff stored exportable start stop (List.Perm.refl _)).mp copied)

end FlowSketch.Source.Runtime
