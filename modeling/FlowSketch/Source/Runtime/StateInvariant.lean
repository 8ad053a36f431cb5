import FlowSketch.Source.HllMap.Eviction
import FlowSketch.Source.Kll.Levels
import FlowSketch.Source.Snapshots.Keyed
import FlowSketch.Source.Runtime.State
import FlowSketch.Source.Runtime.FastForward

/-!
# States of a plan

A state that was built for a plan keeps the plan's parameters and hash, its parts stay well formed,
and so no update or merge of such states fails. The engine's results about total backends apply to it.
-/

namespace FlowSketch.Source.Runtime
open Lib.Octets Lib.Word64 Source.Core

variable {F : Type}

/-- A summary of this capacity and hash. -/
structure Summarizes (hashing : Hashing) (capacity : Nat) (hash : HashSpec) (ss : SpaceSaving) :
    Prop where
  wf : ss.Wf hashing
  capacity : ss.capacity = capacity
  hash : ss.hash = hash

/-- A table of these dimensions and this hash. -/
structure Tabulates (width depth : Nat) (conservative : Bool) (hash : HashSpec) (cm : CountMinSketch) :
    Prop where
  width : cm.width = width
  depth : cm.depth = depth
  conservative : cm.conservative = conservative
  hash : cm.hash = hash

structure CountsDistinct (precision : Nat) (hash : HashSpec) (hll : HyperLogLog) : Prop where
  wf : hll.Wf
  precision : hll.precision = precision
  hash : hll.hash = hash

structure CountsPerKey (maxKeys precision : Nat) (hash : HashSpec) (map : HllMap F) : Prop where
  wf : map.Wf
  heaped : map.Heaped
  maxKeys : map.maxKeys = maxKeys
  precision : map.precision = precision
  hash : map.hash = hash

structure Ranks (k : Nat) (hash : HashSpec) (kll : KllSketch) : Prop where
  k : kll.k = k
  hash : kll.hash = hash

/-- The states of a physical sketch. -/
inductive Suits (hashing : Hashing) (hash : HashSpec) : PhysicalSketch → QueryState F → Prop
  | heavyHitters {capacity : Nat} {ss : SpaceSaving} (summary : Summarizes hashing capacity hash ss) :
      Suits hashing hash (.spaceSaving capacity) (.heavyHitters ss)
  | counter {capacity width depth : Nat} {conservative : Bool} {cm : CountMinSketch}
      {keys : SpaceSaving} (table : Tabulates width depth conservative hash cm)
      (summary : Summarizes hashing capacity hash keys) :
      Suits hashing hash (.composite [.spaceSaving capacity, .countMin width depth conservative])
        (.counter cm keys)
  | distinctPerKey {maxKeys precision : Nat} {map : HllMap F}
      (keyed : CountsPerKey maxKeys precision hash map) :
      Suits hashing hash (.hllMap maxKeys precision) (.distinctPerKey map)
  | distinctGlobal {precision : Nat} {hll : HyperLogLog} (distinct : CountsDistinct precision hash hll) :
      Suits hashing hash (.hyperLogLog precision) (.distinctGlobal hll)
  | quantile {k : Nat} {kll : KllSketch} (ranks : Ranks k hash kll) :
      Suits hashing hash (.kll k) (.quantile kll)
  | entropy {capacity precision : Nat} {ss : SpaceSaving} {hll : HyperLogLog}
      (summary : Summarizes hashing capacity hash ss) (distinct : CountsDistinct precision hash hll) :
      Suits hashing hash (.composite [.spaceSaving capacity, .hyperLogLog precision]) (.entropy ss hll)

/-! ## Summaries -/

namespace Summarizes

variable {hashing : Hashing} {capacity : Nat} {hash : HashSpec} {ss : SpaceSaving}

theorem new (hashing : Hashing) (created : SpaceSaving.new capacity hash = .ok ss) :
    Summarizes hashing capacity hash ss ∧ ss.updates = 0 := by
  obtain ⟨positive, rfl⟩ := SpaceSaving.new_ok created
  exact ⟨⟨SpaceSaving.Wf.clear (s := SpaceSaving.fresh _ _ 0 0) positive, rfl, rfl⟩, rfl⟩

theorem add (summary : Summarizes hashing capacity hash ss) (key : Bytes) (weight : Nat) :
    ∃ t, ss.add hashing key weight = some t ∧ Summarizes hashing capacity hash t ∧
      t.updates = wrappingAdd ss.updates 1 := by
  obtain ⟨t, added, step⟩ := SpaceSaving.add_spec summary.wf key weight
  exact ⟨t, added, ⟨step.wf, step.capacity.trans summary.capacity, step.hash.trans summary.hash⟩,
    step.updates⟩

theorem merge {other : SpaceSaving} (mine : Summarizes hashing capacity hash ss)
    (theirs : Summarizes hashing capacity hash other) :
    ∃ t, ss.mergeFrom hashing other = .ok t ∧ Summarizes hashing capacity hash t ∧
      t.updates = wrappingAdd ss.updates other.updates := by
  have compatible : ss.compatibility hashing = other.compatibility hashing := by
    simp only [SpaceSaving.compatibility, SpaceSaving.paramsHash, mine.capacity, theirs.capacity,
      mine.hash, theirs.hash]
  obtain ⟨t, merged, step⟩ := SpaceSaving.mergeFrom_spec mine.wf theirs.wf compatible
  exact ⟨t, merged, ⟨step.wf, step.capacity.trans mine.capacity, step.hash.trans mine.hash⟩,
    step.updates⟩

end Summarizes

/-! ## The other sketches -/

theorem Tabulates.new {width depth : Nat} {conservative : Bool} {hash : HashSpec} {cm : CountMinSketch}
    (created : CountMinSketch.new width depth conservative hash = .ok cm) :
    Tabulates width depth conservative hash cm ∧ cm.updates = 0 := by
  unfold CountMinSketch.new at created
  split at created
  · cases created
  · cases created
    exact ⟨⟨rfl, rfl, rfl, rfl⟩, rfl⟩

theorem Tabulates.update {width depth : Nat} {conservative : Bool} {hash : HashSpec}
    {cm : CountMinSketch} (table : Tabulates width depth conservative hash cm) (hashing : Hashing)
    (key : Bytes) (value : Nat) :
    Tabulates width depth conservative hash (cm.update hashing key value) ∧
      (cm.update hashing key value).updates = wrappingAdd cm.updates 1 := by
  unfold CountMinSketch.update
  split <;> exact ⟨⟨table.width, table.depth, table.conservative, table.hash⟩, rfl⟩

theorem Tabulates.merge {width depth : Nat} {conservative : Bool} {hash : HashSpec}
    {cm other : CountMinSketch} (hashing : Hashing) (mine : Tabulates width depth conservative hash cm)
    (theirs : Tabulates width depth conservative hash other) :
    ∃ t, cm.mergeFrom hashing other = .ok t ∧ Tabulates width depth conservative hash t ∧
      t.updates = wrappingAdd cm.updates other.updates := by
  have compatible : (cm.compatibility hashing).ensureMatches (other.compatibility hashing) =
      .ok () := by
    rw [SketchCompatibility.ensureMatches_ok_iff]
    simp only [CountMinSketch.compatibility, CountMinSketch.paramsHash, mine.width, theirs.width,
      mine.depth, theirs.depth, mine.conservative, theirs.conservative, mine.hash, theirs.hash]
  unfold CountMinSketch.mergeFrom
  rw [compatible]
  exact ⟨_, rfl, ⟨mine.width, mine.depth, mine.conservative, mine.hash⟩, rfl⟩

theorem CountsDistinct.new {precision : Nat} {hash : HashSpec} {hll : HyperLogLog}
    (created : HyperLogLog.new precision hash = .ok hll) :
    CountsDistinct precision hash hll ∧ hll.updates = 0 := by
  obtain ⟨wf, rfl⟩ := HyperLogLog.new_wf created
  exact ⟨⟨wf, rfl, rfl⟩, rfl⟩

theorem CountsDistinct.insert {precision : Nat} {hash : HashSpec} {hll : HyperLogLog}
    (distinct : CountsDistinct precision hash hll) (hashing : Hashing) (item : Bytes) :
    CountsDistinct precision hash (hll.insert hashing item) ∧
      (hll.insert hashing item).updates = wrappingAdd hll.updates 1 := by
  have setup := HyperLogLog.insertHash_setup { hll with updates := wrappingAdd hll.updates 1 }
    (hashing.hash64 item hll.hash.seed)
  exact ⟨⟨distinct.wf.insert hashing item, setup.precision.trans distinct.precision,
    setup.hash.trans distinct.hash⟩, setup.updates⟩

theorem CountsDistinct.merge {precision : Nat} {hash : HashSpec} {hll other : HyperLogLog}
    (hashing : Hashing) (mine : CountsDistinct precision hash hll)
    (theirs : CountsDistinct precision hash other) :
    ∃ t, hll.mergeFrom hashing other = .ok t ∧ CountsDistinct precision hash t ∧
      t.updates = wrappingAdd hll.updates other.updates := by
  have precisions := theirs.precision.trans mine.precision.symm
  obtain ⟨t, merged⟩ := HyperLogLog.mergeFrom_total hashing precisions
    (theirs.hash.trans mine.hash.symm)
  obtain ⟨wf, precision, hash⟩ := mine.wf.merge theirs.wf precisions merged
  refine ⟨t, merged, ⟨wf, precision.trans mine.precision, hash.trans mine.hash⟩, ?_⟩
  obtain ⟨_, _, result⟩ := bind_ok merged
  cases result
  rfl

theorem Ranks.new {k : Nat} {hash : HashSpec} {kll : KllSketch}
    (created : KllSketch.new k hash = .ok kll) : Ranks k hash kll ∧ kll.updates = 0 := by
  unfold KllSketch.new at created
  split at created
  · cases created
  · cases created
    exact ⟨⟨rfl, rfl⟩, rfl⟩

theorem Ranks.insert {k : Nat} {hash : HashSpec} {kll : KllSketch} (ranks : Ranks k hash kll)
    (value : Nat) :
    Ranks k hash (kll.insert value) ∧ (kll.insert value).updates = wrappingAdd kll.updates 1 := by
  have setup := KllSketch.compress_setup { kll with
    n := wrappingAdd kll.n 1, updates := wrappingAdd kll.updates 1,
    levels := kll.levels.modify 0 (fun items => items ++ [value]) }
  exact ⟨⟨setup.k.trans ranks.k, setup.hash.trans ranks.hash⟩, setup.updates⟩

theorem Ranks.merge {k : Nat} {hash : HashSpec} {kll other : KllSketch} (hashing : Hashing)
    (mine : Ranks k hash kll) (theirs : Ranks k hash other) :
    ∃ t, kll.mergeFrom hashing other = .ok t ∧ Ranks k hash t ∧
      t.updates = wrappingAdd kll.updates other.updates := by
  have compatible : (kll.compatibility hashing).ensureMatches (other.compatibility hashing) =
      .ok () := by
    rw [SketchCompatibility.ensureMatches_ok_iff]
    simp only [KllSketch.compatibility, KllSketch.paramsHash, mine.k, theirs.k, mine.hash,
      theirs.hash]
  have setup := KllSketch.compress_setup { kll with
    levels := KllSketch.joinLevels kll.levels other.levels, n := wrappingAdd kll.n other.n,
    updates := wrappingAdd kll.updates other.updates,
    rngState := splitmix64 (kll.rngState ^^^ other.rngState) }
  unfold KllSketch.mergeFrom
  rw [compatible]
  exact ⟨_, rfl, ⟨setup.k.trans mine.k, setup.hash.trans mine.hash⟩, setup.updates⟩

theorem CountsPerKey.new {maxKeys precision : Nat} {hash : HashSpec} {map : HllMap F}
    (created : HllMap.new maxKeys precision hash = .ok map) :
    CountsPerKey maxKeys precision hash map ∧ map.updates = 0 := by
  have wf := HllMap.new_wf created
  unfold HllMap.new at created
  split at created
  · cases created
  · obtain ⟨_, _, result⟩ := bind_ok created
    cases result
    exact ⟨⟨wf, .refl _, rfl, rfl, rfl⟩, rfl⟩

theorem CountsPerKey.insert [LinearOrder F] {maxKeys precision : Nat} {hash : HashSpec}
    {map : HllMap F} (keyed : CountsPerKey maxKeys precision hash map) (cardinality : Cardinality F)
    (hashing : Hashing) (key item : Bytes) :
    ∃ t, map.insert cardinality hashing key item = some t ∧ CountsPerKey maxKeys precision hash t ∧
      t.updates = wrappingAdd map.updates 1 := by
  obtain ⟨t, inserted, heaped⟩ := HllMap.insert_total cardinality hashing keyed.wf keyed.heaped key item
  have kept := HllMap.insert_setup keyed.wf inserted
  exact ⟨t, inserted, ⟨keyed.wf.insert inserted, heaped, kept.maxKeys.trans keyed.maxKeys,
    kept.precision.trans keyed.precision, kept.hash.trans keyed.hash⟩, kept.updates⟩

theorem CountsPerKey.merge [LinearOrder F] {maxKeys precision : Nat} {hash : HashSpec}
    {map other : HllMap F} (cardinality : Cardinality F) (hashing : Hashing)
    (mine : CountsPerKey maxKeys precision hash map)
    (theirs : CountsPerKey maxKeys precision hash other) :
    ∃ t, map.mergeInto cardinality hashing other = some (.ok (), t) ∧
      CountsPerKey maxKeys precision hash t ∧ t.updates = wrappingAdd map.updates other.updates := by
  have precisions := theirs.precision.trans mine.precision.symm
  obtain ⟨t, merged, heaped⟩ := HllMap.mergeInto_total cardinality hashing mine.wf theirs.wf
    (theirs.maxKeys.trans mine.maxKeys.symm) precisions (theirs.hash.trans mine.hash.symm)
  have kept := (mine.wf.merge_setup theirs.wf precisions merged).2
  exact ⟨t, merged, ⟨mine.wf.merge theirs.wf precisions merged, heaped,
    kept.maxKeys.trans mine.maxKeys, kept.precision.trans mine.precision,
    kept.hash.trans mine.hash⟩, kept.updates⟩

/-! ## Whole states -/

theorem Suits.build {hashing : Hashing} {hash : HashSpec} {sketch : PhysicalSketch}
    {state : QueryState F} (built : QueryState.build sketch hash = .ok state) :
    Suits hashing hash sketch state ∧ state.updateCount = 0 := by
  unfold QueryState.build at built
  split at built
  · obtain ⟨ss, created, rfl⟩ := map_ok built
    have part := Summarizes.new hashing created
    exact ⟨.heavyHitters part.1, part.2⟩
  · obtain ⟨map, created, rfl⟩ := map_ok built
    have part := CountsPerKey.new created
    exact ⟨.distinctPerKey part.1, part.2⟩
  · obtain ⟨hll, created, rfl⟩ := map_ok built
    have part := CountsDistinct.new created
    exact ⟨.distinctGlobal part.1, part.2⟩
  · obtain ⟨kll, created, rfl⟩ := map_ok built
    have part := Ranks.new created
    exact ⟨.quantile part.1, part.2⟩
  · obtain ⟨cm, table, built⟩ := bind_ok built
    obtain ⟨keys, created, result⟩ := bind_ok built
    cases result
    have part := Tabulates.new table
    exact ⟨.counter part.1 (Summarizes.new hashing created).1, part.2⟩
  · obtain ⟨ss, created, built⟩ := bind_ok built
    obtain ⟨hll, distinct, result⟩ := bind_ok built
    cases result
    have part := Summarizes.new hashing created
    exact ⟨.entropy part.1 (CountsDistinct.new distinct).1, part.2⟩
  · unfold QueryState.cannotExecute at built
    split at built <;> cases built

section

variable [LinearOrder F] {hashing : Hashing} {hash : HashSpec} {sketch : PhysicalSketch}

theorem Suits.apply {state : QueryState F} (suits : Suits hashing hash sketch state)
    (cardinality : Cardinality F) (update : Update) :
    ∃ state', state.apply cardinality hashing update = some state' ∧
      Suits hashing hash sketch state' ∧ state'.updateCount = wrappingAdd state.updateCount 1 := by
  cases suits with
  | heavyHitters summary =>
    obtain ⟨t, added, part, count⟩ := summary.add update.key update.weight
    refine ⟨.heavyHitters t, ?_, .heavyHitters part, count⟩
    simp [QueryState.apply, SpaceSaving.addKeyBuf_eq_add, added]
  | counter table summary =>
    obtain ⟨t, added, part, _⟩ := summary.add update.key update.weight
    obtain ⟨row, count⟩ := table.update hashing update.key update.weight
    exact ⟨.counter _ t, by simp [QueryState.apply, added], .counter row part, count⟩
  | distinctPerKey keyed =>
    obtain ⟨t, inserted, part, count⟩ := keyed.insert cardinality hashing update.key update.distinct
    exact ⟨.distinctPerKey t, by simp [QueryState.apply, inserted], .distinctPerKey part, count⟩
  | distinctGlobal distinct =>
    obtain ⟨part, count⟩ := distinct.insert hashing update.distinct
    exact ⟨_, rfl, .distinctGlobal part, count⟩
  | quantile ranks =>
    obtain ⟨part, count⟩ := ranks.insert update.weight
    exact ⟨_, rfl, .quantile part, count⟩
  | entropy summary distinct =>
    obtain ⟨t, added, part, count⟩ := summary.add update.distinct 1
    obtain ⟨tail, _⟩ := distinct.insert hashing update.distinct
    exact ⟨.entropy t _, by simp [QueryState.apply, added], .entropy part tail, count⟩

theorem Suits.merge {left right : QueryState F} (mine : Suits hashing hash sketch left)
    (theirs : Suits hashing hash sketch right) (cardinality : Cardinality F) :
    ∃ merged, left.mergeFrom cardinality hashing right = .ok merged ∧
      Suits hashing hash sketch merged ∧
      merged.updateCount = wrappingAdd left.updateCount right.updateCount := by
  cases mine with
  | heavyHitters summary =>
    cases theirs with
    | heavyHitters summary' =>
      obtain ⟨t, merged, part, count⟩ := summary.merge summary'
      refine ⟨.heavyHitters t, ?_, .heavyHitters part, count⟩
      show (SpaceSaving.mergeFrom hashing _ _).map _ = _
      rw [merged]
      rfl
  | counter table summary =>
    cases theirs with
    | counter table' summary' =>
      obtain ⟨cm, joined, cells, count⟩ := table.merge hashing table'
      obtain ⟨t, merged, part, _⟩ := summary.merge summary'
      refine ⟨.counter cm t, ?_, .counter cells part, count⟩
      rw [QueryState.mergeFrom, joined, merged]
      rfl
  | distinctPerKey keyed =>
    cases theirs with
    | distinctPerKey keyed' =>
      obtain ⟨t, merged, part, count⟩ := keyed.merge cardinality hashing keyed'
      refine ⟨.distinctPerKey t, ?_, .distinctPerKey part, count⟩
      rw [QueryState.mergeFrom, merged]
  | distinctGlobal distinct =>
    cases theirs with
    | distinctGlobal distinct' =>
      obtain ⟨t, merged, part, count⟩ := distinct.merge hashing distinct'
      refine ⟨.distinctGlobal t, ?_, .distinctGlobal part, count⟩
      show (HyperLogLog.mergeFrom hashing _ _).map _ = _
      rw [merged]
      rfl
  | quantile ranks =>
    cases theirs with
    | quantile ranks' =>
      obtain ⟨t, merged, part, count⟩ := ranks.merge hashing ranks'
      refine ⟨.quantile t, ?_, .quantile part, count⟩
      show (KllSketch.mergeFrom hashing _ _).map _ = _
      rw [merged]
      rfl
  | entropy summary distinct =>
    cases theirs with
    | entropy summary' distinct' =>
      obtain ⟨t, merged, part, count⟩ := summary.merge summary'
      obtain ⟨hll, joined, tail, _⟩ := distinct.merge hashing distinct'
      refine ⟨.entropy t hll, ?_, .entropy part tail, count⟩
      rw [QueryState.mergeFrom, merged, joined]
      rfl

variable {cardinality : Cardinality F}

/-- Whatever the engine holds for a plan is a state of the plan's sketch. -/
theorem Represents.suits {state : QueryState F} {seen : Multiset Update}
    (represents : Represents (queryBackend cardinality hashing hash) sketch state seen) :
    Suits hashing hash sketch state ∧ state.updateCount = Multiset.card seen % modulus := by
  induction represents with
  | build built =>
    obtain ⟨suits, count⟩ := Suits.build built
    exact ⟨suits, by rw [count]; rfl⟩
  | @apply _ _ _ update _ applied ih =>
    obtain ⟨state', result, suits, count⟩ := ih.1.apply cardinality update
    obtain rfl := Option.some.inj (result.symm.trans applied)
    refine ⟨suits, ?_⟩
    rw [count, ih.2, Multiset.card_cons, wrappingAdd, Nat.mod_add_mod]
  | merge _ _ joined left right =>
    obtain ⟨merged, result, suits, count⟩ := left.1.merge right.1 cardinality
    obtain rfl := Except.ok.inj (result.symm.trans joined)
    refine ⟨suits, ?_⟩
    rw [count, left.2, right.2, Multiset.card_add, wrappingAdd, ← Nat.add_mod]

theorem queryBackend_total {state : QueryState F} (built : QueryState.build sketch hash = .ok state) :
    Total (queryBackend cardinality hashing hash) sketch where
  build := ⟨state, built⟩
  apply represents update := by
    obtain ⟨state', applied, _⟩ := represents.suits.1.apply cardinality update
    exact ⟨state', applied⟩
  merge first second := by
    obtain ⟨merged, joined, _⟩ := first.suits.1.merge second.suits.1 cardinality
    exact ⟨merged, joined⟩

theorem queryBackend_counts : Counts (queryBackend cardinality hashing hash) sketch :=
  fun _ _ represents => represents.suits.2

end

end FlowSketch.Source.Runtime
