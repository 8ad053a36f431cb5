import FlowSketch.Source.Runtime.Estimates
import FlowSketch.Source.Runtime.Stored

/-!
# Shipping a window

An agent exports the sketches of a window as components, the gateway rebuilds the window from them.
What arrives is what was sent, for every window the engine emits whose components fit the format, with
one exception: a quantile sketch that a merge left over its capacity is compressed once more.
-/

namespace FlowSketch.Source.Runtime
open Lib.Octets Lib.Word64 Lib.AssocMap Source.Core

variable {F : Type}

/-- Equal parameters and content of every part. -/
inductive QueryState.Same : QueryState F → QueryState F → Prop
  | heavyHitters {ss ss' : SpaceSaving} (same : ss.Same ss') :
      Same (.heavyHitters ss) (.heavyHitters ss')
  | counter {cm : CountMinSketch} {keys keys' : SpaceSaving} (same : keys.Same keys') :
      Same (.counter cm keys) (.counter cm keys')
  | distinctPerKey {map map' : HllMap F} (same : map.Same map') :
      Same (.distinctPerKey map) (.distinctPerKey map')
  | distinctGlobal {hll : HyperLogLog} : Same (.distinctGlobal hll) (.distinctGlobal hll)
  | quantile {kll kll' : KllSketch} (same : kll.Same kll') : Same (.quantile kll) (.quantile kll')
  | entropy {ss ss' : SpaceSaving} {hll : HyperLogLog} (same : ss.Same ss') :
      Same (.entropy ss hll) (.entropy ss' hll)

/-- What the decoder can take back: lengths and dimensions of 32 bits, errors within counts, at most
sixty-four levels. -/
def QueryState.Exportable (hashing : Hashing) : QueryState F → Prop
  | .heavyHitters ss => ss.Sized ∧ ss.Sane
  | .counter cm keys => cm.Sized ∧ keys.Sized ∧ keys.Sane
  | .distinctPerKey map => map.Sized hashing
  | .distinctGlobal _ => True
  | .quantile kll =>
    kll.k < modulus ∧ kll.payload.length < 2 ^ 32 ∧ kll.levels.length ≤ KllSketch.maxLevels
  | .entropy ss _ => ss.Sized ∧ ss.Sane

/-- No level of a quantile sketch is over its capacity. -/
def QueryState.Settled : QueryState F → Prop
  | .quantile kll => kll.Settled
  | _ => True

/-! ## Gathering components -/

section

variable {hashing : Hashing} {expected : List String} {windowStart windowEnd : Nat}

/-- A component whose header names this window. -/
def Covers (hashing : Hashing) (windowStart windowEnd : Nat) (octets : Bytes) : Prop :=
  ∃ header params payload, readSnapshot hashing octets = .ok (header, params, payload) ∧
    header.windowStartNanos = windowStart ∧ header.windowEndNanos = windowEnd

theorem gather_step {so : WindowState.Gathered} {name : String} {octets : Bytes}
    (wanted : name ∈ expected) (fresh : name ∉ so.byName.map Prod.fst)
    (covers : Covers hashing windowStart windowEnd octets)
    (window : so.window = none ∨ so.window = some (windowStart, windowEnd)) :
    WindowState.gather hashing expected so (name, octets) =
      .ok { window := some (windowStart, windowEnd), byName := so.byName ++ [(name, octets)] } := by
  obtain ⟨header, params, payload, read, rfl, rfl⟩ := covers
  unfold WindowState.gather
  simp only [wanted, fresh, read, bind, Except.bind, not_true_eq_false, if_false]
  rcases window with none_yet | same
  · rw [none_yet]
    rfl
  · rw [same]
    simp only [ne_eq, not_true_eq_false, if_false]
    rfl

theorem gather_all {components : List (String × Bytes)} {so : WindowState.Gathered}
    (wanted : ∀ component ∈ components, component.1 ∈ expected)
    (distinct : (keys (so.byName ++ components)).Nodup)
    (covers : ∀ component ∈ components, Covers hashing windowStart windowEnd component.2)
    (window : so.window = some (windowStart, windowEnd)) :
    components.foldlM (WindowState.gather hashing expected) so =
      .ok { window := some (windowStart, windowEnd), byName := so.byName ++ components } := by
  induction components generalizing so with
  | nil =>
    obtain ⟨seen, byName⟩ := so
    subst window
    simp
    rfl
  | cons component components ih =>
    obtain ⟨name, octets⟩ := component
    rw [List.forall_mem_cons] at wanted covers
    have fresh : name ∉ so.byName.map Prod.fst := by
      rw [keys, List.map_append, List.nodup_append] at distinct
      exact fun member => distinct.2.2 name member name (by simp) rfl
    have grown : so.byName ++ (name, octets) :: components =
        (so.byName ++ [(name, octets)]) ++ components := by
      rw [List.append_assoc, List.singleton_append]
    rw [grown] at distinct ⊢
    rw [List.foldlM_cons, gather_step wanted.1 fresh covers.1 (Or.inr window)]
    exact @ih { window := some (windowStart, windowEnd), byName := so.byName ++ [(name, octets)] }
      wanted.2 distinct covers.2 rfl

/-- Components of one window, in any order, are all gathered. -/
theorem gather_components {components : List (String × Bytes)} (nonempty : components ≠ [])
    (wanted : ∀ component ∈ components, component.1 ∈ expected)
    (distinct : (keys components).Nodup)
    (covers : ∀ component ∈ components, Covers hashing windowStart windowEnd component.2) :
    components.foldlM (WindowState.gather hashing expected) { window := none, byName := [] } =
      .ok { window := some (windowStart, windowEnd), byName := components } := by
  cases components with
  | nil => exact absurd rfl nonempty
  | cons component components =>
    obtain ⟨name, octets⟩ := component
    rw [List.forall_mem_cons] at wanted covers
    rw [List.foldlM_cons, gather_step wanted.1 (by simp) covers.1 (Or.inl rfl)]
    exact @gather_all hashing expected windowStart windowEnd components
      { window := some (windowStart, windowEnd), byName := [(name, octets)] } wanted.2 distinct
      covers.2 rfl

end

/-! ## Components there and back -/

/-- A component that a state exports under `name` arrives as `octets`, reads as `parsed` and is merged
into the fresh `empty` as `merged`. -/
structure Ships {S : Type} (hashing : Hashing) (windowStart windowEnd : Nat) (octets : Bytes)
    (fromSnapshot : Bytes → Except SketchError S) (mergeFrom : S → S → Except SketchError S)
    (empty parsed merged : S) : Prop where
  covers : Covers hashing windowStart windowEnd octets
  decodes : fromSnapshot octets = .ok parsed
  merges : mergeFrom empty parsed = .ok merged

section

variable {hashing : Hashing} {hash : HashSpec} {windowStart windowEnd : Nat}

theorem summary_ships {capacity : Nat} {ss : SpaceSaving} (summary : Summarizes hashing capacity hash ss)
    (words : ss.Words) (sized : ss.Sized) (sane : ss.Sane) (start : windowStart < modulus)
    (stop : windowEnd < modulus) :
    ∃ empty parsed merged, SpaceSaving.new capacity hash = .ok empty ∧
      Ships hashing windowStart windowEnd (ss.toSnapshot hashing windowStart windowEnd)
        (SpaceSaving.fromSnapshot hashing) (SpaceSaving.mergeFrom hashing) empty parsed merged ∧
      Summarizes hashing capacity hash parsed ∧ ss.Same merged := by
  have bounded := words.bounded summary.wf sane
  have positive : 0 < capacity := summary.capacity ▸ summary.wf.indexed.positive
  obtain ⟨parsed, decodes, same, wf, ordered⟩ :=
    SpaceSaving.fromSnapshot_toSnapshot summary.wf bounded sized start stop
  have boundedParsed : parsed.Bounded := by
    refine ⟨same.view.abs ▸ bounded.entries, ?_, ?_⟩
    · rw [same.totalWeight]
      exact bounded.totalWeight
    · rw [same.updates]
      exact bounded.updates
  obtain ⟨merged, merges, again⟩ := SpaceSaving.fresh_merge positive wf ordered boundedParsed
    (same.view.capacity.symm.trans summary.capacity) (same.view.hash.symm.trans summary.hash)
  refine ⟨_, parsed, merged, if_neg positive.ne', ⟨⟨_, _, _, read_sketch hashing (by decide) ss.hash
    start stop (by simp) sized.payload, rfl, rfl⟩, decodes, merges⟩,
    ⟨wf, same.view.capacity.symm.trans summary.capacity, same.view.hash.symm.trans summary.hash⟩,
    ⟨?_, ?_, ?_⟩⟩
  · exact ⟨same.view.capacity.trans again.view.capacity, same.view.hash.trans again.view.hash,
      same.view.abs.trans again.view.abs⟩
  · exact again.totalWeight.trans same.totalWeight
  · exact again.updates.trans same.updates

theorem table_ships {width depth : Nat} {conservative : Bool} {cm : CountMinSketch}
    (table : Tabulates width depth conservative hash cm) (wf : cm.Wf) (sized : cm.Sized)
    (start : windowStart < modulus) (stop : windowEnd < modulus) :
    ∃ empty, CountMinSketch.new width depth conservative hash = .ok empty ∧
      Ships hashing windowStart windowEnd (cm.toSnapshot hashing windowStart windowEnd)
        (CountMinSketch.fromSnapshot hashing) (CountMinSketch.mergeFrom hashing) empty cm cm := by
  obtain ⟨empty, created, merges⟩ := CountMinSketch.fresh_merge hashing wf
  rw [table.width, table.depth, table.conservative, table.hash] at created
  obtain ⟨⟨t, decodes, same, _⟩, _, ⟨params, payload, header⟩⟩ :=
    @CountMinSketch.roundTrips hashing CountMinSketch.Wf cm wf sized windowStart windowEnd start stop
  have parsed : cm = t := same
  subst parsed
  exact ⟨empty, created, ⟨_, params, payload, header, rfl, rfl⟩, decodes, merges⟩

theorem distinct_ships {precision : Nat} {hll : HyperLogLog}
    (distinct : CountsDistinct precision hash hll) (start : windowStart < modulus)
    (stop : windowEnd < modulus) :
    ∃ empty, HyperLogLog.new precision hash = .ok empty ∧
      Ships hashing windowStart windowEnd (hll.toSnapshot hashing windowStart windowEnd)
        (HyperLogLog.fromSnapshot hashing) (HyperLogLog.mergeFrom hashing) empty hll hll := by
  obtain ⟨empty, created, merges⟩ := HyperLogLog.fresh_merge hashing distinct.wf
  rw [distinct.precision, distinct.hash] at created
  exact ⟨empty, created,
    ⟨_, _, _, HyperLogLog.readSnapshot_toSnapshot hashing distinct.wf start stop, rfl, rfl⟩,
    HyperLogLog.fromSnapshot_toSnapshot hashing distinct.wf start stop, merges⟩

theorem ranks_ships {k : Nat} {kll : KllSketch} (ranks : Ranks k hash kll) (shape : kll.Shape)
    (word : kll.k < modulus) (fits : kll.payload.length < 2 ^ 32)
    (few : kll.levels.length ≤ KllSketch.maxLevels) (start : windowStart < modulus)
    (stop : windowEnd < modulus) :
    ∃ empty merged, KllSketch.new k hash = .ok empty ∧
      Ships hashing windowStart windowEnd (kll.toSnapshot hashing windowStart windowEnd)
        (KllSketch.fromSnapshot hashing) (KllSketch.mergeFrom hashing) empty kll merged ∧
      (kll.Same merged ↔ kll.Settled) := by
  obtain ⟨empty, merged, created, merges, same⟩ := KllSketch.fresh_merge hashing shape
  rw [ranks.k, ranks.hash] at created
  exact ⟨empty, merged, created,
    ⟨⟨_, _, _, read_sketch hashing (by decide) kll.hash start stop (by simp) fits, rfl, rfl⟩,
      KllSketch.fromSnapshot_toSnapshot shape few word fits start stop, merges⟩, same⟩

theorem keyed_ships [LinearOrder F] (cardinality : Cardinality F) {maxKeys precision : Nat}
    {map : HllMap F} (keyed : CountsPerKey maxKeys precision hash map) (sized : map.Sized hashing)
    (start : windowStart < modulus) (stop : windowEnd < modulus) :
    ∃ empty parsed merged, HllMap.new maxKeys precision hash = .ok empty ∧
      Covers hashing windowStart windowEnd (map.toSnapshot hashing windowStart windowEnd) ∧
      HllMap.fromSnapshot cardinality hashing (map.toSnapshot hashing windowStart windowEnd) =
        .ok parsed ∧
      empty.mergeInto cardinality hashing parsed = some (.ok (), merged) ∧
      CountsPerKey maxKeys precision hash parsed ∧ map.Same merged := by
  have same := HllMap.same_decoded cardinality keyed.wf
  obtain ⟨empty, merged, created, merges, again⟩ := HllMap.fresh_merge cardinality hashing
    (HllMap.decoded_wf cardinality keyed.wf)
  rw [same.maxKeys, same.precision, same.hash, keyed.maxKeys, keyed.precision, keyed.hash] at created
  refine ⟨empty, _, merged, created, ?_,
    HllMap.fromSnapshot_toSnapshot keyed.wf sized start stop, merges, ?_, ?_⟩
  · exact ⟨_, _, _, read_sketch hashing (by decide) map.hash start stop (by simp [HllMap.params])
      (sized.payload windowStart windowEnd), rfl, rfl⟩
  · exact ⟨HllMap.decoded_wf cardinality keyed.wf, HllMap.heaped_rebuild cardinality _,
      same.maxKeys.trans keyed.maxKeys, same.precision.trans keyed.precision,
      same.hash.trans keyed.hash⟩
  · exact ⟨again.maxKeys.trans same.maxKeys, again.precision.trans same.precision,
      again.hash.trans same.hash, fun key => (again.sketches key).trans (same.sketches key),
      again.evictedKeys.trans same.evictedKeys, again.updates.trans same.updates⟩

theorem getComponent_of_mem {components : List (String × Bytes)} (distinct : (keys components).Nodup)
    {name : String} {octets : Bytes} (member : (name, octets) ∈ components) :
    QueryState.getComponent components name = .ok octets := by
  unfold QueryState.getComponent
  rw [(lookup_eq_some_iff distinct).mpr member]

end

/-! ## Whole windows -/

/-- The components of a state are those its plan expects, cover its window, and come back merged into a
fresh state. -/
structure Rebuilds [LinearOrder F] (cardinality : Cardinality F) (hashing : Hashing) (hash : HashSpec)
    (sketch : PhysicalSketch) (windowStart windowEnd : Nat) (components : List (String × Bytes))
    (names : List String) (parsed empty merged : QueryState F) : Prop where
  expected : QueryState.componentNames sketch = .ok names
  wanted : ∀ component ∈ components, component.1 ∈ names
  covers : ∀ component ∈ components, Covers hashing windowStart windowEnd component.2
  decodes : QueryState.fromSnapshots cardinality hashing sketch components = .ok parsed
  builds : QueryState.build sketch hash = .ok empty
  merges : empty.mergeFrom cardinality hashing parsed = .ok merged

section

variable [LinearOrder F] {cardinality : Cardinality F} {hashing : Hashing} {hash : HashSpec}
variable {sketch : PhysicalSketch} {windowStart windowEnd : Nat}

theorem forall_singleton {components : List (String × Bytes)} {entry : String × Bytes}
    (perm : components.Perm [entry]) {P : String × Bytes → Prop} (holds : P entry) :
    ∀ component ∈ components, P component := by
  intro component member
  rw [List.mem_singleton.mp (perm.mem_iff.mp member)]
  exact holds

theorem forall_pair {components : List (String × Bytes)} {first second : String × Bytes}
    (perm : components.Perm [first, second]) {P : String × Bytes → Prop} (one : P first)
    (two : P second) : ∀ component ∈ components, P component := by
  intro component member
  rcases List.mem_cons.mp (perm.mem_iff.mp member) with rfl | last
  · exact one
  · rw [List.mem_singleton.mp last]
    exact two

omit [LinearOrder F] in
theorem exports_nodup (state : QueryState F) (windowStart windowEnd : Nat) :
    (keys (state.toSnapshots hashing windowStart windowEnd)).Nodup := by
  cases state with
  | counter cm ks =>
    show [Component.countMin, Component.keysSpaceSaving].Nodup
    decide
  | entropy ss hll =>
    show [Component.headSpaceSaving, Component.tailHll].Nodup
    decide
  | heavyHitters | distinctPerKey | distinctGlobal | quantile => exact List.nodup_singleton _

theorem rebuilds_of_stored {state : QueryState F} (stored : Stored hashing hash sketch state)
    (exportable : state.Exportable hashing) (start : windowStart < modulus)
    (stop : windowEnd < modulus) {components : List (String × Bytes)}
    (perm : components.Perm (state.toSnapshots hashing windowStart windowEnd)) :
    ∃ names parsed empty merged,
      Rebuilds cardinality hashing hash sketch windowStart windowEnd components names parsed empty
        merged ∧ Suits hashing hash sketch parsed ∧ (state.Same merged ↔ state.Settled) := by
  obtain ⟨suits, words⟩ := stored
  have distinct : (keys components).Nodup :=
    (perm.map Prod.fst).nodup_iff.mpr (exports_nodup state windowStart windowEnd)
  cases suits with
  | @heavyHitters capacity ss summary =>
    obtain ⟨empty, parsed, merged, created, ships, copy, same⟩ :=
      summary_ships summary words exportable.1 exportable.2 start stop
    have found := getComponent_of_mem distinct (perm.mem_iff.mpr List.mem_cons_self)
    refine ⟨_, .heavyHitters parsed, .heavyHitters empty, .heavyHitters merged,
      ⟨rfl, forall_singleton perm (by simp), forall_singleton perm ships.covers, ?_, ?_, ?_⟩,
      .heavyHitters copy, fun _ => trivial, fun _ => .heavyHitters same⟩
    · rw [QueryState.fromSnapshots, found]
      simp only [bind, Except.bind, ships.decodes]
      rfl
    · rw [QueryState.build, created]
      rfl
    · rw [QueryState.mergeFrom, ships.merges]
      rfl
  | @counter capacity width depth conservative cm ks table summary =>
    obtain ⟨emptyTable, createdTable, shipsTable⟩ := table_ships table words.1 exportable.1 start stop
    obtain ⟨empty, parsed, merged, created, ships, copy, same⟩ :=
      summary_ships summary words.2 exportable.2.1 exportable.2.2 start stop
    have foundTable := getComponent_of_mem distinct (perm.mem_iff.mpr List.mem_cons_self)
    have found := getComponent_of_mem distinct
      (perm.mem_iff.mpr (List.mem_cons_of_mem _ List.mem_cons_self))
    refine ⟨_, .counter cm parsed, .counter emptyTable empty, .counter cm merged,
      ⟨rfl, forall_pair perm (by simp) (by simp),
        forall_pair perm shipsTable.covers ships.covers, ?_, ?_, ?_⟩,
      .counter table copy, fun _ => trivial, fun _ => .counter same⟩
    · rw [QueryState.fromSnapshots, foundTable]
      simp only [bind, Except.bind, shipsTable.decodes, found, ships.decodes]
      rfl
    · rw [QueryState.build, createdTable, created]
      rfl
    · rw [QueryState.mergeFrom, shipsTable.merges, ships.merges]
      rfl
  | @distinctPerKey maxKeys precision map keyed =>
    obtain ⟨empty, parsed, merged, created, covers, decodes, merges, copy, same⟩ :=
      keyed_ships cardinality keyed exportable start stop
    have found := getComponent_of_mem distinct (perm.mem_iff.mpr List.mem_cons_self)
    refine ⟨_, .distinctPerKey parsed, .distinctPerKey empty, .distinctPerKey merged,
      ⟨rfl, forall_singleton perm (by simp), forall_singleton perm covers, ?_, ?_, ?_⟩,
      .distinctPerKey copy, fun _ => trivial, fun _ => .distinctPerKey same⟩
    · rw [QueryState.fromSnapshots, found]
      simp only [bind, Except.bind, decodes]
      rfl
    · rw [QueryState.build, created]
      rfl
    · rw [QueryState.mergeFrom, merges]
  | @distinctGlobal precision hll global =>
    obtain ⟨empty, created, ships⟩ := distinct_ships global start stop
    have found := getComponent_of_mem distinct (perm.mem_iff.mpr List.mem_cons_self)
    refine ⟨_, .distinctGlobal hll, .distinctGlobal empty, .distinctGlobal hll,
      ⟨rfl, forall_singleton perm (by simp), forall_singleton perm ships.covers, ?_, ?_, ?_⟩,
      .distinctGlobal global, fun _ => trivial, fun _ => .distinctGlobal⟩
    · rw [QueryState.fromSnapshots, found]
      simp only [bind, Except.bind, ships.decodes]
      rfl
    · rw [QueryState.build, created]
      rfl
    · rw [QueryState.mergeFrom, ships.merges]
      rfl
  | @quantile k kll ranks =>
    obtain ⟨empty, merged, created, ships, same⟩ :=
      ranks_ships ranks words exportable.1 exportable.2.1 exportable.2.2 start stop
    have found := getComponent_of_mem distinct (perm.mem_iff.mpr List.mem_cons_self)
    refine ⟨_, .quantile kll, .quantile empty, .quantile merged,
      ⟨rfl, forall_singleton perm (by simp), forall_singleton perm ships.covers, ?_, ?_, ?_⟩,
      .quantile ranks, fun copied => ?_, fun settled => .quantile (same.mpr settled)⟩
    · rw [QueryState.fromSnapshots, found]
      simp only [bind, Except.bind, ships.decodes]
      rfl
    · rw [QueryState.build, created]
      rfl
    · rw [QueryState.mergeFrom, ships.merges]
      rfl
    · cases copied with
      | quantile copied => exact same.mp copied
  | @entropy capacity precision ss hll summary global =>
    obtain ⟨emptyTail, createdTail, shipsTail⟩ := distinct_ships global start stop
    obtain ⟨empty, parsed, merged, created, ships, copy, same⟩ :=
      summary_ships summary words exportable.1 exportable.2 start stop
    have found := getComponent_of_mem distinct (perm.mem_iff.mpr List.mem_cons_self)
    have foundTail := getComponent_of_mem distinct
      (perm.mem_iff.mpr (List.mem_cons_of_mem _ List.mem_cons_self))
    refine ⟨_, .entropy parsed hll, .entropy empty emptyTail, .entropy merged hll,
      ⟨rfl, forall_pair perm (by simp) (by simp), forall_pair perm ships.covers shipsTail.covers,
        ?_, ?_, ?_⟩,
      .entropy copy global, fun _ => trivial, fun _ => .entropy same⟩
    · rw [QueryState.fromSnapshots, found]
      simp only [bind, Except.bind, ships.decodes, foundTail, shipsTail.decodes]
      rfl
    · rw [QueryState.build, created, createdTail]
      rfl
    · rw [QueryState.mergeFrom, ships.merges, shipsTail.merges]
      rfl

/-- The gateway rebuilds the window. -/
theorem Rebuilds.window {components : List (String × Bytes)} {names : List String}
    {parsed empty merged : QueryState F}
    (rebuilds : Rebuilds cardinality hashing hash sketch windowStart windowEnd components names parsed
      empty merged) (nonempty : components ≠ []) (distinct : (keys components).Nodup) :
    WindowState.fromComponents cardinality hashing sketch hash components =
      .ok { state := merged, windowStartNanos := windowStart, windowEndNanos := windowEnd } := by
  have gathered := gather_components nonempty rebuilds.wanted distinct rebuilds.covers
  unfold WindowState.fromComponents
  simp only [rebuilds.expected, gathered, bind, Except.bind, rebuilds.decodes, rebuilds.builds,
    rebuilds.merges]
  rfl

end

end FlowSketch.Source.Runtime
