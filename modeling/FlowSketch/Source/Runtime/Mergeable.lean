import FlowSketch.Source.Runtime.Halves
import FlowSketch.Source.Runtime.Overflow

/-!
# Windows that always merge

A decoded sketch may hold anything, but `from_components` merges it into a fresh state of the plan. What
is left has the plan's parameters, so two accepted windows of one plan merge. HLLMaps need one thing more:
no snapshot may hide another precision behind the digest of the plan's.
-/

namespace FlowSketch.Source.Runtime
open Lib.Octets Lib.Word64 Lib.AssocMap Source.Core

variable {F : Type}

/-- A HyperLogLog of this precision and hash, with any registers. -/
structure Measures (precision : Nat) (hash : HashSpec) (hll : HyperLogLog) : Prop where
  precision : hll.precision = precision
  hash : hll.hash = hash

theorem Measures.merge {precision : Nat} {hash : HashSpec} {hll other : HyperLogLog} (hashing : Hashing)
    (mine : Measures precision hash hll) (theirs : Measures precision hash other) :
    ∃ t, hll.mergeFrom hashing other = .ok t ∧ Measures precision hash t := by
  obtain ⟨t, merged⟩ := HyperLogLog.mergeFrom_total hashing (theirs.precision.trans mine.precision.symm)
    (theirs.hash.trans mine.hash.symm)
  obtain ⟨precision, hash⟩ := HyperLogLog.mergeFrom_setup merged
  exact ⟨t, merged, precision.trans mine.precision, hash.trans mine.hash⟩

theorem Measures.accepted {precision : Nat} {hash : HashSpec} {hashing : Hashing}
    {own parsed merged : HyperLogLog} (created : HyperLogLog.new precision hash = .ok own)
    (done : own.mergeFrom hashing parsed = .ok merged) : Measures precision hash merged := by
  have fresh := (CountsDistinct.new created).1
  obtain ⟨precision, hash⟩ := HyperLogLog.mergeFrom_setup done
  exact ⟨precision.trans fresh.precision, hash.trans fresh.hash⟩

theorem table_accepted {width depth : Nat} {conservative : Bool} {hash : HashSpec} {hashing : Hashing}
    {own parsed merged : CountMinSketch}
    (created : CountMinSketch.new width depth conservative hash = .ok own)
    (done : own.mergeFrom hashing parsed = .ok merged) :
    Tabulates width depth conservative hash merged := by
  have fresh := (Tabulates.new created).1
  obtain ⟨_, _, result⟩ := bind_ok done
  cases result
  exact ⟨fresh.width, fresh.depth, fresh.conservative, fresh.hash⟩

theorem ranks_accepted {k : Nat} {hash : HashSpec} {hashing : Hashing} {own parsed merged : KllSketch}
    (created : KllSketch.new k hash = .ok own) (done : own.mergeFrom hashing parsed = .ok merged) :
    Ranks k hash merged := by
  have fresh := (Ranks.new created).1
  obtain ⟨_, _, result⟩ := bind_ok done
  cases result
  have setup := KllSketch.compress_setup { own with
    levels := KllSketch.joinLevels own.levels parsed.levels, n := wrappingAdd own.n parsed.n
    updates := wrappingAdd own.updates parsed.updates
    rngState := splitmix64 (own.rngState ^^^ parsed.rngState) }
  exact ⟨setup.k.trans fresh.k, setup.hash.trans fresh.hash⟩

/-- An HLLMap of these parameters whose inner sketches have them too. -/
structure MapsKeys (maxKeys precision : Nat) (hash : HashSpec) (map : HllMap F) : Prop where
  regular : map.Regular
  maxKeys : map.maxKeys = maxKeys
  precision : map.precision = precision
  hash : map.hash = hash

theorem MapsKeys.merge [LinearOrder F] {maxKeys precision : Nat} {hash : HashSpec} {map other : HllMap F}
    (cardinality : Cardinality F) (hashing : Hashing) (mine : MapsKeys maxKeys precision hash map)
    (theirs : MapsKeys maxKeys precision hash other) :
    ∃ t, map.mergeInto cardinality hashing other = some (.ok (), t) ∧
      MapsKeys maxKeys precision hash t := by
  have separate : HllMap.Separate hashing map other := fun _ =>
    theirs.precision.trans mine.precision.symm
  obtain ⟨result, t, merged, outcome⟩ :=
    @HllMap.Regular.merge F _ hashing cardinality _ _ mine.regular theirs.regular separate
  rcases outcome with ⟨⟨e, refused, _⟩, _⟩ | ⟨⟨_, rfl⟩, sound, kept⟩
  · have compatible : map.compatibility hashing = other.compatibility hashing := by
      simp only [HllMap.compatibility, HllMap.paramsHash, mine.maxKeys, theirs.maxKeys, mine.precision,
        theirs.precision, mine.hash, theirs.hash]
    rw [(SketchCompatibility.ensureMatches_ok_iff _ _).mpr compatible] at refused
    cases refused
  · exact ⟨t, merged, sound.toRegular, kept.maxKeys.trans mine.maxKeys,
      kept.precision.trans mine.precision, kept.hash.trans mine.hash⟩

theorem MapsKeys.accepted [LinearOrder F] {maxKeys precision : Nat} {hash : HashSpec}
    {cardinality : Cardinality F} {hashing : Hashing} {own parsed merged : HllMap F} {octets : Bytes}
    (created : HllMap.new maxKeys precision hash = .ok own)
    (decoded : HllMap.fromSnapshot cardinality hashing octets = .ok parsed)
    (separate : HllMap.Separate hashing own parsed)
    (done : own.mergeInto cardinality hashing parsed = some (.ok (), merged)) :
    MapsKeys maxKeys precision hash merged := by
  have fresh := (CountsPerKey.new created).1
  have mine := (@HllMap.new_sound F _ cardinality _ _ _ _ created).toRegular
  have theirs := (HllMap.fromSnapshot_sound decoded).toRegular
  obtain ⟨result, t, joined, outcome⟩ :=
    @HllMap.Regular.merge F _ hashing cardinality _ _ mine theirs separate
  cases joined.symm.trans done
  rcases outcome with ⟨⟨_, _, failed⟩, _⟩ | ⟨_, sound, kept⟩
  · cases failed
  · exact ⟨sound.toRegular, kept.maxKeys.trans fresh.maxKeys, kept.precision.trans fresh.precision,
      kept.hash.trans fresh.hash⟩

/-- The states of a physical sketch, whatever the registers. -/
inductive Mergeable (hashing : Hashing) (hash : HashSpec) : PhysicalSketch → QueryState F → Prop
  | heavyHitters {capacity : Nat} {ss : SpaceSaving} (summary : Summarizes hashing capacity hash ss) :
      Mergeable hashing hash (.spaceSaving capacity) (.heavyHitters ss)
  | counter {capacity width depth : Nat} {conservative : Bool} {cm : CountMinSketch}
      {keys : SpaceSaving} (table : Tabulates width depth conservative hash cm)
      (summary : Summarizes hashing capacity hash keys) :
      Mergeable hashing hash (.composite [.spaceSaving capacity, .countMin width depth conservative])
        (.counter cm keys)
  | distinctPerKey {maxKeys precision : Nat} {map : HllMap F}
      (keyed : MapsKeys maxKeys precision hash map) :
      Mergeable hashing hash (.hllMap maxKeys precision) (.distinctPerKey map)
  | distinctGlobal {precision : Nat} {hll : HyperLogLog} (distinct : Measures precision hash hll) :
      Mergeable hashing hash (.hyperLogLog precision) (.distinctGlobal hll)
  | quantile {k : Nat} {kll : KllSketch} (ranks : Ranks k hash kll) :
      Mergeable hashing hash (.kll k) (.quantile kll)
  | entropy {capacity precision : Nat} {ss : SpaceSaving} {hll : HyperLogLog}
      (summary : Summarizes hashing capacity hash ss) (distinct : Measures precision hash hll) :
      Mergeable hashing hash (.composite [.spaceSaving capacity, .hyperLogLog precision])
        (.entropy ss hll)

section

variable [LinearOrder F] {cardinality : Cardinality F} {hashing : Hashing} {hash : HashSpec}
variable {sketch : PhysicalSketch}

/-- Two states of one sketch merge, without a panic. -/
theorem Mergeable.merge {left right : QueryState F} (mine : Mergeable hashing hash sketch left)
    (theirs : Mergeable hashing hash sketch right) (cardinality : Cardinality F) :
    ∃ merged, left.mergeInto cardinality hashing right = some (.ok (), merged) ∧
      Mergeable hashing hash sketch merged := by
  cases mine with
  | heavyHitters summary =>
    cases theirs with
    | heavyHitters summary' =>
      obtain ⟨t, merged, part, _⟩ := summary.merge summary'
      exact ⟨.heavyHitters t, by rw [QueryState.mergeInto, merged]; rfl, .heavyHitters part⟩
  | counter table summary =>
    cases theirs with
    | counter table' summary' =>
      obtain ⟨cm, cells, row, _⟩ := table.merge hashing table'
      obtain ⟨t, merged, part, _⟩ := summary.merge summary'
      exact ⟨.counter cm t, by rw [QueryState.mergeInto, cells, merged]; rfl, .counter row part⟩
  | distinctPerKey keyed =>
    cases theirs with
    | distinctPerKey keyed' =>
      obtain ⟨t, merged, part⟩ := keyed.merge cardinality hashing keyed'
      exact ⟨.distinctPerKey t, by rw [QueryState.mergeInto, merged]; rfl, .distinctPerKey part⟩
  | distinctGlobal distinct =>
    cases theirs with
    | distinctGlobal distinct' =>
      obtain ⟨t, merged, part⟩ := distinct.merge hashing distinct'
      exact ⟨.distinctGlobal t, by rw [QueryState.mergeInto, merged]; rfl, .distinctGlobal part⟩
  | quantile ranks =>
    cases theirs with
    | quantile ranks' =>
      obtain ⟨t, merged, part, _⟩ := ranks.merge hashing ranks'
      exact ⟨.quantile t, by rw [QueryState.mergeInto, merged]; rfl, .quantile part⟩
  | entropy summary distinct =>
    cases theirs with
    | entropy summary' distinct' =>
      obtain ⟨t, merged, part, _⟩ := summary.merge summary'
      obtain ⟨hll, joined, tail⟩ := distinct.merge hashing distinct'
      exact ⟨.entropy t hll, by rw [QueryState.mergeInto, merged, joined]; rfl, .entropy part tail⟩

/-! ## Accepted windows -/

theorem gather_byName {expected : List String} {so so' : WindowState.Gathered}
    {component : String × Bytes} (done : WindowState.gather hashing expected so component = .ok so') :
    so'.byName = so.byName ++ [component] := by
  obtain ⟨name, octets⟩ := component
  unfold WindowState.gather at done
  obtain ⟨_, done⟩ := throw_ok done
  obtain ⟨_, done⟩ := throw_ok done
  obtain ⟨⟨header, _, _⟩, _, done⟩ := bind_ok done
  dsimp only at done
  split at done
  · cases done
    rfl
  · obtain ⟨_, done⟩ := throw_ok done
    cases done
    rfl

theorem gathered_byName {expected : List String} {components : List (String × Bytes)}
    {so so' : WindowState.Gathered}
    (done : components.foldlM (WindowState.gather hashing expected) so = .ok so') :
    so'.byName = so.byName ++ components := by
  induction components generalizing so with
  | nil =>
    cases done
    exact (List.append_nil _).symm
  | cons component rest ih =>
    obtain ⟨next, step, done⟩ := bind_ok done
    rw [ih done, gather_byName step, List.append_assoc]
    rfl

theorem getComponent_mem {components : List (String × Bytes)} {name : String} {octets : Bytes}
    (found : QueryState.getComponent components name = .ok octets) : (name, octets) ∈ components := by
  unfold QueryState.getComponent at found
  split at found
  next octets' listed =>
    cases found
    obtain ⟨before, after, rfl, _⟩ := List.lookup_eq_some_iff.mp listed
    exact List.mem_append_right _ List.mem_cons_self
  next => cases found

/-- What is accepted for a plan merges with what else is accepted for it. -/
theorem accepted_mergeable {components : List (String × Bytes)} {w : WindowState (QueryState F)}
    (separate : ∀ own parsed name octets, (name, octets) ∈ components →
      QueryState.build sketch hash = .ok (.distinctPerKey own) →
      HllMap.fromSnapshot cardinality hashing octets = .ok parsed →
      HllMap.Separate hashing own parsed)
    (accepted : WindowState.fromComponents cardinality hashing sketch hash components = .ok w) :
    Mergeable hashing hash sketch w.state := by
  obtain ⟨names, named, accepted⟩ := bind_ok accepted
  obtain ⟨gathered, gathers, accepted⟩ := bind_ok accepted
  have byName : gathered.byName = components := gathered_byName gathers
  split at accepted
  · cases accepted
  obtain ⟨parsed, decodes, accepted⟩ := bind_ok accepted
  obtain ⟨empty, builds, accepted⟩ := bind_ok accepted
  obtain ⟨state, merges, accepted⟩ := bind_ok accepted
  cases accepted
  rw [byName] at decodes
  unfold QueryState.fromSnapshots at decodes
  split at decodes
  · obtain ⟨octets, _, decodes⟩ := bind_ok decodes
    obtain ⟨ss, decoded, decodes⟩ := bind_ok decodes
    cases decodes
    obtain ⟨fresh, created, rfl⟩ := map_ok builds
    obtain ⟨merged, done, rfl⟩ := map_ok merges
    exact .heavyHitters (summary_accepted created decoded done).1
  · obtain ⟨octets, found, decodes⟩ := bind_ok decodes
    obtain ⟨map, decoded, decodes⟩ := bind_ok decodes
    cases decodes
    have built := builds
    obtain ⟨fresh, created, rfl⟩ := map_ok builds
    rw [mergeFrom_eq_outcome, QueryState.mergeInto] at merges
    cases joined : fresh.mergeInto cardinality hashing map with
    | none =>
      rw [joined] at merges
      cases merges
    | some pair =>
      obtain ⟨result, merged⟩ := pair
      rw [joined] at merges
      cases result with
      | error e => cases merges
      | ok _ =>
        cases merges
        have apart := separate fresh map _ octets (getComponent_mem found) built decoded
        exact .distinctPerKey (.accepted created decoded apart joined)
  · obtain ⟨octets, _, decodes⟩ := bind_ok decodes
    obtain ⟨hll, _, decodes⟩ := bind_ok decodes
    cases decodes
    obtain ⟨fresh, created, rfl⟩ := map_ok builds
    obtain ⟨merged, done, rfl⟩ := map_ok merges
    exact .distinctGlobal (.accepted created done)
  · obtain ⟨octets, _, decodes⟩ := bind_ok decodes
    obtain ⟨kll, _, decodes⟩ := bind_ok decodes
    cases decodes
    obtain ⟨fresh, created, rfl⟩ := map_ok builds
    obtain ⟨merged, done, rfl⟩ := map_ok merges
    exact .quantile (ranks_accepted created done)
  · obtain ⟨table, _, decodes⟩ := bind_ok decodes
    obtain ⟨cm, _, decodes⟩ := bind_ok decodes
    obtain ⟨octets, _, decodes⟩ := bind_ok decodes
    obtain ⟨keys, decoded, decodes⟩ := bind_ok decodes
    cases decodes
    obtain ⟨freshTable, createdTable, builds⟩ := bind_ok builds
    obtain ⟨fresh, created, builds⟩ := bind_ok builds
    cases builds
    obtain ⟨mergedTable, doneTable, merges⟩ := bind_ok merges
    obtain ⟨merged, done, merges⟩ := bind_ok merges
    cases merges
    exact .counter (table_accepted createdTable doneTable) (summary_accepted created decoded done).1
  · obtain ⟨head, _, decodes⟩ := bind_ok decodes
    obtain ⟨ss, decoded, decodes⟩ := bind_ok decodes
    obtain ⟨tail, _, decodes⟩ := bind_ok decodes
    obtain ⟨hll, _, decodes⟩ := bind_ok decodes
    cases decodes
    obtain ⟨fresh, created, builds⟩ := bind_ok builds
    obtain ⟨freshTail, createdTail, builds⟩ := bind_ok builds
    cases builds
    obtain ⟨merged, done, merges⟩ := bind_ok merges
    obtain ⟨mergedTail, doneTail, merges⟩ := bind_ok merges
    cases merges
    exact .entropy (summary_accepted created decoded done).1 (.accepted createdTail doneTail)
  · unfold QueryState.cannotExecute at decodes
    split at decodes <;> cases decodes

end

end FlowSketch.Source.Runtime
