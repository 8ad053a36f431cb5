import FlowSketch.Source.HllMap.Partial
import FlowSketch.Source.Runtime.Shipping
import FlowSketch.Source.SpaceSaving.Idle

/-!
# Failed merges

`merge_from` works in place. A state of two sketches merges them one after the other, each with its own
check of the parameters, so a merge that fails at the second sketch has merged the first one already.
-/

namespace FlowSketch.Source.CountMinSketch
open Lib.Word64 Source.Core

/-- `theirs` adds nothing to `mine`. -/
structure Idle (mine theirs : CountMinSketch) : Prop where
  cells : ∀ pair ∈ mine.table.zip theirs.table, pair.2 = 0
  totalWeight : theirs.totalWeight = 0
  updates : theirs.updates = 0

theorem addCells_eq_left_iff {mine theirs : List Nat} (left : ∀ count ∈ mine, count < modulus)
    (right : ∀ count ∈ theirs, count < modulus) :
    addCells wrappingAdd mine theirs = mine ↔ ∀ pair ∈ mine.zip theirs, pair.2 = 0 := by
  induction mine generalizing theirs with
  | nil => simp [addCells]
  | cons a mine ih =>
    cases theirs with
    | nil => simp [addCells]
    | cons b theirs =>
      rw [List.forall_mem_cons] at left right
      rw [addCells, List.cons.injEq, wrappingAdd_eq_left_iff left.1 right.1, ih left.2 right.2,
        List.zip_cons_cons, List.forall_mem_cons]

theorem mergeFrom_self_iff {hashing : Hashing} {mine theirs : CountMinSketch} (left : Wf mine)
    (right : Wf theirs) (same : mine.compatibility hashing = theirs.compatibility hashing) :
    mine.mergeFrom hashing theirs = .ok mine ↔ Idle mine theirs := by
  have passes := (SketchCompatibility.ensureMatches_ok_iff _ _).mpr same
  have cells := addCells_eq_left_iff left.cells right.cells
  have totals := wrappingAdd_eq_left_iff left.totalWeight right.totalWeight
  have counts := wrappingAdd_eq_left_iff left.updates right.updates
  unfold mergeFrom
  rw [passes]
  constructor
  · intro merged
    have result := Except.ok.inj merged
    exact ⟨cells.mp (congrArg table result), totals.mp (congrArg CountMinSketch.totalWeight result),
      counts.mp (congrArg CountMinSketch.updates result)⟩
  · intro idle
    have result : { mine with
        table := addCells wrappingAdd mine.table theirs.table
        totalWeight := wrappingAdd mine.totalWeight theirs.totalWeight
        updates := wrappingAdd mine.updates theirs.updates } = mine := by
      rw [cells.mpr idle.cells, totals.mpr idle.totalWeight, counts.mpr idle.updates]
    exact congrArg Except.ok result

theorem mergeFrom_ok_iff {hashing : Hashing} {mine theirs : CountMinSketch} :
    (∃ merged, mine.mergeFrom hashing theirs = .ok merged) ↔
      mine.compatibility hashing = theirs.compatibility hashing :=
  SketchCompatibility.checked_ok_iff _ _ _

end FlowSketch.Source.CountMinSketch

namespace FlowSketch.Source.SpaceSaving
open Source.Core

theorem mergeFrom_ok_iff {hashing : Hashing} {mine theirs : SpaceSaving} :
    (∃ merged, mine.mergeFrom hashing theirs = .ok merged) ↔
      mine.compatibility hashing = theirs.compatibility hashing :=
  SketchCompatibility.checked_ok_iff _ _ _

theorem mergeFrom_error_iff {hashing : Hashing} {mine theirs : SpaceSaving} :
    (∃ e, mine.mergeFrom hashing theirs = .error e) ↔
      mine.compatibility hashing ≠ theirs.compatibility hashing :=
  SketchCompatibility.checked_error_iff _ _ _

end FlowSketch.Source.SpaceSaving

namespace FlowSketch.Source.Runtime
open Lib.Octets Lib.Word64 Lib.AssocMap Source.Core

variable {F : Type}

/-! ## Merging in place -/

namespace QueryState

/-- A component that checks its parameters before it writes: refused, it is as before. -/
def inPlace {S : Type} (merged : Except SketchError S) (wrap : S → QueryState F)
    (before : QueryState F) : Except SketchError Unit × QueryState F :=
  match merged with
  | .ok part => (.ok (), wrap part)
  | .error e => (.error e, before)

/-- Two components, the second after the first. -/
def inStages {S T : Type} (first : Except SketchError S) (second : Except SketchError T)
    (wrap : S → T → QueryState F) (a : S) (b : T) : Except SketchError Unit × QueryState F :=
  match first with
  | .ok part => inPlace second (wrap part) (wrap part b)
  | .error e => (.error e, wrap a b)

variable [LinearOrder F] (cardinality : Cardinality F) (hashing : Hashing)

/-- `merge_from`: the result of the call and the state it leaves behind. `none` is the panic of a map
without an eviction candidate. -/
def mergeInto (self other : QueryState F) : Option (Except SketchError Unit × QueryState F) :=
  match self, other with
  | .heavyHitters a, .heavyHitters b =>
    some (inPlace (a.mergeFrom hashing b) .heavyHitters (.heavyHitters a))
  | .counter a ka, .counter b kb =>
    some (inStages (a.mergeFrom hashing b) (ka.mergeFrom hashing kb) .counter a ka)
  | .distinctPerKey a, .distinctPerKey b =>
    (a.mergeInto cardinality hashing b).map (fun (result, map) => (result, .distinctPerKey map))
  | .distinctGlobal a, .distinctGlobal b =>
    some (inPlace (a.mergeFrom hashing b) .distinctGlobal (.distinctGlobal a))
  | .quantile a, .quantile b => some (inPlace (a.mergeFrom hashing b) .quantile (.quantile a))
  | .entropy a ha, .entropy b hb =>
    some (inStages (a.mergeFrom hashing b) (ha.mergeFrom hashing hb) .entropy a ha)
  | self, _ => some (.error (.incompatibleMerge "mismatched query state kinds"), self)

end QueryState

variable [LinearOrder F] {cardinality : Cardinality F} {hashing : Hashing}

/-- `WindowState::merge_from` in place. -/
def WindowState.mergeInto (cardinality : Cardinality F) (hashing : Hashing)
    (self other : WindowState (QueryState F)) :
    Option (Except SketchError Unit × WindowState (QueryState F)) :=
  if (self.windowStartNanos, self.windowEndNanos) ≠ (other.windowStartNanos, other.windowEndNanos) then
    some (.error (.incompatibleMerge ("window mismatch: [" ++ toString self.windowStartNanos ++ ", " ++
      toString self.windowEndNanos ++ ") vs [" ++ toString other.windowStartNanos ++ ", " ++
      toString other.windowEndNanos ++ ")")), self)
  else
    (self.state.mergeInto cardinality hashing other.state).map
      (fun (result, state) => (result, { self with state }))

/-- The value of the call, read off the state left behind. -/
def outcome : Option (Except SketchError Unit × QueryState F) → Except SketchError (QueryState F)
  | some (.ok (), state) => .ok state
  | some (.error e, _) => .error e
  | none => .error QueryState.noCandidate

omit [LinearOrder F] in
theorem outcome_inPlace {S : Type} (merged : Except SketchError S) (wrap : S → QueryState F)
    (before : QueryState F) :
    outcome (some (QueryState.inPlace merged wrap before)) = merged.map wrap := by
  cases merged with
  | ok part => rfl
  | error e => rfl

omit [LinearOrder F] in
theorem outcome_inStages {S T : Type} (first : Except SketchError S) (second : Except SketchError T)
    (wrap : S → T → QueryState F) (a : S) (b : T) :
    outcome (some (QueryState.inStages first second wrap a b)) = do
      let part ← first
      let rest ← second
      return wrap part rest := by
  cases first with
  | error e => rfl
  | ok part => exact outcome_inPlace second (wrap part) _

/-- The copying merge of the engine returns what the call in place returns. -/
theorem mergeFrom_eq_outcome (self other : QueryState F) :
    self.mergeFrom cardinality hashing other = outcome (self.mergeInto cardinality hashing other) := by
  cases self <;> cases other
  all_goals try rfl
  case heavyHitters.heavyHitters a b => exact (outcome_inPlace _ _ _).symm
  case distinctGlobal.distinctGlobal a b => exact (outcome_inPlace _ _ _).symm
  case quantile.quantile a b => exact (outcome_inPlace _ _ _).symm
  case counter.counter a ka b kb => exact (outcome_inStages _ _ _ _ _).symm
  case entropy.entropy a ha b hb => exact (outcome_inStages _ _ _ _ _).symm
  case distinctPerKey.distinctPerKey a b =>
    rw [QueryState.mergeFrom, QueryState.mergeInto]
    cases a.mergeInto cardinality hashing b with
    | none => rfl
    | some result =>
      obtain ⟨result, map⟩ := result
      cases result with
      | ok _ => rfl
      | error e => rfl

/-! ## When a failed call has changed the state -/

omit [LinearOrder F] in
theorem inPlace_untouched {S : Type} {merged : Except SketchError S} {wrap : S → QueryState F}
    {before after : QueryState F} {e : SketchError}
    (failed : QueryState.inPlace merged wrap before = (.error e, after)) : after = before := by
  cases merged with
  | ok part => cases failed
  | error _ =>
    cases failed
    rfl

omit [LinearOrder F] in
theorem inStages_untouched_iff {S T : Type} {first : Except SketchError S}
    {second : Except SketchError T} {wrap : S → T → QueryState F} {a : S} {b : T}
    (injective : ∀ part, wrap part b = wrap a b → part = a) {matching refusing idle : Prop}
    (merges : (∃ part, first = .ok part) ↔ matching) (fails : (∃ e, second = .error e) ↔ refusing)
    (stays : matching → (first = .ok a ↔ idle)) :
    (∀ e after, QueryState.inStages first second wrap a b = (.error e, after) → after = wrap a b) ↔
      ¬(matching ∧ refusing ∧ ¬idle) := by
  constructor
  · rintro untouched ⟨matching, refusing, moves⟩
    obtain ⟨part, rfl⟩ := merges.mpr matching
    obtain ⟨e, rfl⟩ := fails.mpr refusing
    refine moves ((stays matching).mp (congrArg Except.ok ?_))
    exact injective part (untouched e _ rfl)
  · intro whole e after failed
    cases first with
    | error _ =>
      cases failed
      rfl
    | ok part =>
      have matching := merges.mp ⟨part, rfl⟩
      cases second with
      | ok rest => cases failed
      | error _ =>
        cases failed
        by_contra moved
        refine whole ⟨matching, fails.mp ⟨_, rfl⟩, fun idle => moved ?_⟩
        rw [Except.ok.inj ((stays matching).mpr idle)]

namespace QueryState

/-- The first sketch is merged and the second one refused, and the first was not idle. -/
inductive Halved (hashing : Hashing) : QueryState F → QueryState F → Prop
  | counter {cm cm' : CountMinSketch} {keys keys' : SpaceSaving}
      (first : cm.compatibility hashing = cm'.compatibility hashing)
      (second : keys.compatibility hashing ≠ keys'.compatibility hashing) (moves : ¬cm.Idle cm') :
      Halved hashing (.counter cm keys) (.counter cm' keys')
  | entropy {ss ss' : SpaceSaving} {hll hll' : HyperLogLog}
      (first : ss.compatibility hashing = ss'.compatibility hashing)
      (second : hll.compatibility hashing ≠ hll'.compatibility hashing)
      (moves : ¬ss.Idle hashing ss') : Halved hashing (.entropy ss hll) (.entropy ss' hll')
  | distinctPerKey {map map' : HllMap F} (halved : map.Halved hashing map') :
      Halved hashing (.distinctPerKey map) (.distinctPerKey map')

/-- The same state with its hash map in another order of iteration. -/
inductive Reorders : QueryState F → QueryState F → Prop
  | refl (state : QueryState F) : Reorders state state
  | distinctPerKey {map : HllMap F} {order : List (Bytes × HllSlot F)} (same : map.map.Perm order) :
      Reorders (.distinctPerKey map) (.distinctPerKey { map with map := order })

/-- What `from_components` leaves: words, rebuilt summaries and clean maps. -/
def Received (hashing : Hashing) : QueryState F → Prop
  | .counter cm _ => cm.Wf
  | .entropy ss _ => ss.Rebuilt hashing
  | .distinctPerKey map => map.Clean
  | _ => True

end QueryState

omit [LinearOrder F] in
theorem counter_halved_iff {cm cm' : CountMinSketch} {keys keys' : SpaceSaving} :
    (QueryState.counter (F := F) cm keys).Halved hashing (.counter cm' keys') ↔
      cm.compatibility hashing = cm'.compatibility hashing ∧
        keys.compatibility hashing ≠ keys'.compatibility hashing ∧ ¬cm.Idle cm' := by
  constructor
  · rintro ⟨first, second, moves⟩
    exact ⟨first, second, moves⟩
  · rintro ⟨first, second, moves⟩
    exact .counter first second moves

omit [LinearOrder F] in
theorem entropy_halved_iff {ss ss' : SpaceSaving} {hll hll' : HyperLogLog} :
    (QueryState.entropy (F := F) ss hll).Halved hashing (.entropy ss' hll') ↔
      ss.compatibility hashing = ss'.compatibility hashing ∧
        hll.compatibility hashing ≠ hll'.compatibility hashing ∧ ¬ss.Idle hashing ss' := by
  constructor
  · rintro (_ | ⟨first, second, moves⟩)
    exact ⟨first, second, moves⟩
  · rintro ⟨first, second, moves⟩
    exact .entropy first second moves

omit [LinearOrder F] in
theorem QueryState.Reorders.map {map : HllMap F} {order : QueryState F}
    (reorders : Reorders (.distinctPerKey map) order) :
    ∃ entries, map.map.Perm entries ∧ order = .distinctPerKey { map with map := entries } := by
  cases reorders with
  | refl => exact ⟨map.map, .refl _, rfl⟩
  | distinctPerKey same => exact ⟨_, same, rfl⟩

/-- A call that fails leaves the state as it was exactly when it is not halved, whatever the order of
iteration over the other map. -/
theorem state_untouched_iff {self other : QueryState F} (left : self.Received hashing)
    (right : other.Received hashing) :
    (∀ order, other.Reorders order → ∀ e after,
      self.mergeInto cardinality hashing order = some (.error e, after) → after = self) ↔
      ¬self.Halved hashing other := by
  cases self <;> cases other
  case counter.counter a ka b kb =>
    rw [counter_halved_iff, ← @inStages_untouched_iff F _ _ (a.mergeFrom hashing b)
      (ka.mergeFrom hashing kb) .counter a ka (fun part same => by cases same; rfl) _ _ _
      CountMinSketch.mergeFrom_ok_iff SpaceSaving.mergeFrom_error_iff
      (CountMinSketch.mergeFrom_self_iff left right)]
    constructor
    · exact fun untouched e after failed => untouched _ (.refl _) e after (congrArg some failed)
    · rintro untouched order ⟨⟩ e after failed
      exact untouched e after (Option.some.inj failed)
  case entropy.entropy a ha b hb =>
    rw [entropy_halved_iff, ← @inStages_untouched_iff F _ _ (a.mergeFrom hashing b)
      (ha.mergeFrom hashing hb) .entropy a ha (fun part same => by cases same; rfl) _ _ _
      SpaceSaving.mergeFrom_ok_iff HyperLogLog.mergeFrom_error_iff
      (SpaceSaving.mergeFrom_self_iff left right)]
    constructor
    · exact fun untouched e after failed => untouched _ (.refl _) e after (congrArg some failed)
    · rintro untouched order ⟨⟩ e after failed
      exact untouched e after (Option.some.inj failed)
  case distinctPerKey.distinctPerKey a b =>
    have orders := @HllMap.untouched_iff F _ cardinality hashing a b left right.distinct
    constructor
    · intro untouched halved
      cases halved with
      | distinctPerKey halved =>
        refine orders.mp (fun order same e t failed => ?_) halved
        have after := untouched _ (.distinctPerKey same) e (.distinctPerKey t)
          (by rw [QueryState.mergeInto, failed]; rfl)
        cases after
        rfl
    · intro whole order reorders e after failed
      have untouched := orders.mpr fun halved => whole (.distinctPerKey halved)
      obtain ⟨entries, same, rfl⟩ := reorders.map
      obtain ⟨⟨result, t⟩, merged, equal⟩ := Option.map_eq_some_iff.mp failed
      cases equal
      rw [untouched entries same e t merged]
  -- A sketch on its own checks before it writes, and kinds that differ are refused at once.
  all_goals
    refine iff_of_true (fun order reorders e after failed => ?_) nofun
    cases reorders <;> first
      | exact inPlace_untouched (Option.some.inj failed)
      | cases failed; rfl

/-! ## Windows -/

/-- The windows that `from_components` accepts, for any plan and hash. -/
inductive WindowState.Arrived (cardinality : Cardinality F) (hashing : Hashing) :
    WindowState (QueryState F) → Prop
  | accepted {sketch : PhysicalSketch} {hash : HashSpec} {components : List (String × Bytes)}
      {w : WindowState (QueryState F)}
      (built : fromComponents cardinality hashing sketch hash components = .ok w) :
      Arrived cardinality hashing w
  | reorder {w : WindowState (QueryState F)} (before : Arrived cardinality hashing w)
      {state : QueryState F} (same : w.state.Reorders state) :
      Arrived cardinality hashing { w with state }

theorem accepted_received {sketch : PhysicalSketch} {hash : HashSpec}
    {components : List (String × Bytes)} {w : WindowState (QueryState F)}
    (accepted : WindowState.fromComponents cardinality hashing sketch hash components = .ok w) :
    w.state.Received hashing := by
  obtain ⟨names, _, accepted⟩ := bind_ok accepted
  obtain ⟨gathered, _, accepted⟩ := bind_ok accepted
  split at accepted
  · cases accepted
  obtain ⟨parsed, decodes, accepted⟩ := bind_ok accepted
  obtain ⟨empty, builds, accepted⟩ := bind_ok accepted
  obtain ⟨state, merges, accepted⟩ := bind_ok accepted
  cases accepted
  obtain ⟨suits, words⟩ := @Stored.build F hashing hash sketch empty builds
  cases suits with
  | heavyHitters _ =>
    obtain ⟨octets, _, decodes⟩ := bind_ok decodes
    obtain ⟨ss, _, decodes⟩ := bind_ok decodes
    cases decodes
    obtain ⟨merged, _, rfl⟩ := map_ok merges
    trivial
  | counter _ _ =>
    obtain ⟨table, _, decodes⟩ := bind_ok decodes
    obtain ⟨cm, _, decodes⟩ := bind_ok decodes
    obtain ⟨octets, _, decodes⟩ := bind_ok decodes
    obtain ⟨keys, _, decodes⟩ := bind_ok decodes
    cases decodes
    obtain ⟨mergedTable, doneTable, merges⟩ := bind_ok merges
    obtain ⟨merged, _, merges⟩ := bind_ok merges
    cases merges
    exact words.1.merge doneTable
  | distinctPerKey keyed =>
    obtain ⟨octets, _, decodes⟩ := bind_ok decodes
    obtain ⟨map, _, decodes⟩ := bind_ok decodes
    cases decodes
    rw [mergeFrom_eq_outcome, QueryState.mergeInto] at merges
    cases merged : HllMap.mergeInto cardinality hashing _ map with
    | none =>
      rw [merged] at merges
      cases merges
    | some result =>
      obtain ⟨result, t⟩ := result
      rw [merged] at merges
      cases result with
      | error e => cases merges
      | ok _ =>
        cases merges
        exact HllMap.mergeInto_clean keyed.wf.distinct merged
  | distinctGlobal _ =>
    obtain ⟨octets, _, decodes⟩ := bind_ok decodes
    obtain ⟨hll, _, decodes⟩ := bind_ok decodes
    cases decodes
    obtain ⟨merged, _, rfl⟩ := map_ok merges
    trivial
  | quantile _ =>
    obtain ⟨octets, _, decodes⟩ := bind_ok decodes
    obtain ⟨kll, _, decodes⟩ := bind_ok decodes
    cases decodes
    obtain ⟨merged, _, rfl⟩ := map_ok merges
    trivial
  | entropy summary _ =>
    obtain ⟨head, _, decodes⟩ := bind_ok decodes
    obtain ⟨ss, decoded, decodes⟩ := bind_ok decodes
    obtain ⟨tail, _, decodes⟩ := bind_ok decodes
    obtain ⟨hll, _, decodes⟩ := bind_ok decodes
    cases decodes
    obtain ⟨merged, done, merges⟩ := bind_ok merges
    obtain ⟨mergedTail, _, merges⟩ := bind_ok merges
    cases merges
    obtain ⟨wf, _⟩ := SpaceSaving.fromSnapshot_spec decoded
    exact SpaceSaving.Rebuilt.merge summary.wf wf done

theorem WindowState.Arrived.received {w : WindowState (QueryState F)}
    (arrived : w.Arrived cardinality hashing) : w.state.Received hashing := by
  induction arrived with
  | accepted built => exact accepted_received built
  | @reorder w _ state same received =>
    obtain ⟨before, windowStart, windowEnd⟩ := w
    cases same with
    | refl => exact received
    | distinctPerKey same =>
      exact ⟨(same.map Prod.fst).nodup_iff.mp received.distinct,
        fun entry member => received.refreshed entry (same.mem_iff.mpr member)⟩

theorem window_untouched_iff {a b : WindowState (QueryState F)} (left : a.Arrived cardinality hashing)
    (right : b.Arrived cardinality hashing) :
    (∀ order, b.state.Reorders order → ∀ e after,
      a.mergeInto cardinality hashing { b with state := order } = some (.error e, after) →
        after = a) ↔
      ¬((a.windowStartNanos, a.windowEndNanos) = (b.windowStartNanos, b.windowEndNanos) ∧
        a.state.Halved hashing b.state) := by
  have states := @state_untouched_iff F _ cardinality hashing _ _ left.received right.received
  unfold WindowState.mergeInto
  by_cases window : (a.windowStartNanos, a.windowEndNanos) = (b.windowStartNanos, b.windowEndNanos)
  · simp only [window, ne_eq, not_true_eq_false, if_false, true_and]
    rw [← states]
    constructor
    · intro untouched order reorders e after failed
      have whole := untouched order reorders e { a with state := after } (by rw [failed]; rfl)
      exact congrArg WindowState.state whole
    · intro untouched order reorders e after failed
      obtain ⟨⟨result, state⟩, merged, equal⟩ := Option.map_eq_some_iff.mp failed
      cases equal
      rw [untouched order reorders e state merged]
  · simp only [window, ne_eq, not_false_eq_true, if_true, false_and]
    refine iff_of_true (fun order _ e after failed => ?_) trivial
    cases failed
    rfl

/-- A window that fails to merge leaves the target untouched exactly when no composite state is halved
between its two sketches, and no map between two of its keys. -/
theorem failed_merge_untouched_iff (cardinality : Cardinality F) (hashing : Hashing)
    {a b : WindowState (QueryState F)} (left : a.Arrived cardinality hashing)
    (right : b.Arrived cardinality hashing) :
    (∀ order, b.state.Reorders order → ∀ e after,
      a.mergeInto cardinality hashing { b with state := order } = some (.error e, after) →
        after = a) ↔
      ¬((a.windowStartNanos, a.windowEndNanos) = (b.windowStartNanos, b.windowEndNanos) ∧
        a.state.Halved hashing b.state) :=
  window_untouched_iff left right

/-! ## Two plans that differ in the number of keys -/

/-- A counting plan that lists `capacity` keys. -/
def countPlan (capacity : Nat) : PhysicalSketch :=
  .composite [.spaceSaving capacity, .countMin 1 1 false]

/-- Its state after one event. -/
def oneCount (capacity : Nat) : QueryState Nat :=
  .counter
    (CountMinSketch.update fsk1
      { width := 1, depth := 1, conservative := false, hash := HashSpec.new 1, table := [0]
        totalWeight := 0, updates := 0 } [1] 1)
    ((SpaceSaving.fresh capacity (HashSpec.new 1) 1 1).insertEntry fsk1 [1] 1 0)

def noCardinality : Cardinality Nat := ⟨fun _ => 0, 1⟩

theorem oneCount_stored {capacity : Nat} (positive : 0 < capacity) :
    Stored fsk1 (HashSpec.new 1) (countPlan capacity) (oneCount capacity) := by
  have created : SpaceSaving.new capacity (HashSpec.new 1) =
      .ok (SpaceSaving.fresh capacity (HashSpec.new 1) 0 0) := if_neg positive.ne'
  have built : QueryState.build (F := Nat) (countPlan capacity) (HashSpec.new 1) =
      .ok (.counter { width := 1, depth := 1, conservative := false, hash := HashSpec.new 1
                      table := [0], totalWeight := 0, updates := 0 }
        (SpaceSaving.fresh capacity (HashSpec.new 1) 0 0)) := by
    rw [countPlan, QueryState.build, created]
    rfl
  have room : (SpaceSaving.fresh capacity (HashSpec.new 1) 0 0).add fsk1 [1] 1 =
      some ((SpaceSaving.fresh capacity (HashSpec.new 1) 1 1).insertEntry fsk1 [1] 1 0) :=
    if_pos positive
  refine @Stored.apply _ _ noCardinality _ _ _ _ _ (Stored.build built)
    { key := [1], weight := 1, distinct := [] } (by decide) ?_
  rw [QueryState.apply, room]
  rfl

theorem oneCount_arrives {capacity : Nat} (positive : 0 < capacity) (word : capacity < modulus) :
    ∃ cm keys, WindowState.Arrived noCardinality fsk1
        { state := .counter cm keys, windowStartNanos := 0, windowEndNanos := 10 } ∧
      cm.compatibility fsk1 = (CountMinSketch.update fsk1
        { width := 1, depth := 1, conservative := false, hash := HashSpec.new 1, table := [0]
          totalWeight := 0, updates := 0 } [1] 1).compatibility fsk1 ∧
      cm.updates = 1 ∧ keys.capacity = capacity := by
  have stored := oneCount_stored positive
  have exportable : (oneCount capacity).Exportable fsk1 := by
    have listed : ((SpaceSaving.fresh capacity (HashSpec.new 1) 1 1).insertEntry fsk1 [1] 1 0).pairs =
        [([1], { count := 1, error := 0 })] := rfl
    refine ⟨⟨by decide, by decide, ?_⟩, ⟨word, ?_⟩, ?_⟩
    · have cells := stored.2.1.size
      rw [CountMinSketch.payload, List.length_append, List.length_append, leBytes_length,
        leBytes_length, Reader.writeU64s_length, cells]
      decide
    · have sorted := List.perm_singleton.mp (listed ▸ SpaceSaving.sorted_perm _)
      rw [SpaceSaving.payload, sorted]
      simp [SpaceSaving.writeEntry, Reader.writeLpBytes]
    · intro c member
      obtain ⟨slot, inside, rfl⟩ := List.mem_map.mp member
      have pair := List.mem_map_of_mem (f := fun slot : Slot => (slot.key, slot.entry)) inside
      change _ ∈ SpaceSaving.pairs _ at pair
      rw [listed, List.mem_singleton] at pair
      show slot.entry.error ≤ slot.entry.count
      rw [(Prod.mk.inj pair).2]
      decide
  obtain ⟨_, _, _, merged, rebuilds, _, same⟩ := @rebuilds_of_stored Nat _ noCardinality fsk1
    (HashSpec.new 1) (countPlan capacity) 0 10 _ stored exportable (by decide) (by decide) _
    (List.Perm.refl _)
  have window := rebuilds.window (by simp [QueryState.toSnapshots, oneCount]) (exports_nodup _ 0 10)
  cases same.mpr trivial with
  | counter copied =>
    exact ⟨_, _, .accepted window, rfl, rfl, copied.view.capacity.symm⟩

/-- The count-min tables add up before the key lists are found to differ. -/
theorem fewer_keys_halve : ∃ (a b after : WindowState (QueryState Nat)) (e : SketchError),
    a.Arrived noCardinality fsk1 ∧ b.Arrived noCardinality fsk1 ∧
      a.mergeInto noCardinality fsk1 b = some (.error e, after) ∧ after ≠ a := by
  obtain ⟨cm, keys, left, table, _, capacity⟩ := @oneCount_arrives 1 (by decide) (by decide)
  obtain ⟨cm', keys', right, table', counted, capacity'⟩ :=
    @oneCount_arrives 2 (by decide) (by decide)
  have halved : (QueryState.counter (F := Nat) cm keys).Halved fsk1 (.counter cm' keys') := by
    refine .counter (table.trans table'.symm) (fun same => ?_) (fun idle => ?_)
    · have digest := congrArg SketchCompatibility.paramsHash same
      simp only [SpaceSaving.compatibility, SpaceSaving.paramsHash, capacity, capacity'] at digest
      revert digest
      decide
    · rw [idle.updates] at counted
      cases counted
  by_contra none
  refine (window_untouched_iff left right).mp (fun order reorders e after failed => ?_) ⟨rfl, halved⟩
  cases reorders
  by_contra moved
  exact none ⟨_, _, after, e, left, right, failed, moved⟩

/-- Windows of one plan merge or leave each other alone. -/
theorem same_keys_untouched : ∃ a b : WindowState (QueryState Nat),
    a.Arrived noCardinality fsk1 ∧ b.Arrived noCardinality fsk1 ∧
      ∀ e after, a.mergeInto noCardinality fsk1 b = some (.error e, after) → after = a := by
  obtain ⟨cm, keys, left, _, _, _⟩ := @oneCount_arrives 1 (by decide) (by decide)
  refine ⟨_, _, left, left, fun e after failed => ?_⟩
  refine (failed_merge_untouched_iff noCardinality fsk1 left left).mpr ?_ _ (.refl _) e after failed
  rintro ⟨_, halved⟩
  exact (counter_halved_iff.mp halved).2.1 rfl

end FlowSketch.Source.Runtime
