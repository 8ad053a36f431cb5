import FlowSketch.Source.Core.Snapshot
import FlowSketch.Source.Runtime.Ledger

/-!
# Shards in lockstep

A sharded engine under observation: batches without a fault, and drains between them. After each batch
the clocks of all shards agree, so a window is merged once, from the shares of all shards.
-/

namespace FlowSketch.Source.Runtime
open Lib.Word64 Lib.SlidingLog Lib.SortedMap Lib.Lists Source.Core

/-- The engine, its shards with their notes, and all that was taken so far. -/
structure Fleet where
  engine : ShardedQueryEngine (Multiset Update)
  lanes : List Session.Log
  taken : List (WindowKey × WindowState (Multiset Update))

namespace Fleet

/-- The notes after a batch. -/
def batch (display : Ipv6Text) (f : Fleet) (batches : List (List FlowEvent))
    (engine : ShardedQueryEngine (Multiset Update)) : Fleet :=
  { engine, taken := f.taken
    lanes := List.zipWith (fun lane batch =>
      (Session.calls logBackend display (laneCalls batches batch) lane).state) f.lanes batches }

/-- The notes after `take_estimates`. -/
def take (f : Fleet) (merged : List (WindowKey × WindowState (Multiset Update)))
    (engine : ShardedQueryEngine (Multiset Update)) : Fleet :=
  { engine, taken := f.taken ++ merged
    lanes := f.lanes.map (fun lane => lane.after .drain lane.engine.drained) }

/-- The runs without an error. -/
inductive Reached (display : Ipv6Text) (hashing : Hashing) (plans : List Plan) (hash : HashSpec)
    (shardCount : Nat) : Fleet → Prop
  | start {engine : ShardedQueryEngine (Multiset Update)}
      (built : ShardedQueryEngine.new logBackend plans hash shardCount = .ok engine) :
      Reached display hashing plans hash shardCount
        { engine, lanes := engine.shards.map Session.start, taken := [] }
  | shardBatches {f : Fleet} (before : Reached display hashing plans hash shardCount f)
      (batches : List (List FlowEvent)) {engine : ShardedQueryEngine (Multiset Update)}
      (ran : f.engine.ProcessShardBatches logBackend display batches engine (.ok ())) :
      Reached display hashing plans hash shardCount (f.batch display batches engine)
  | batch {f : Fleet} (before : Reached display hashing plans hash shardCount f)
      (events : List FlowEvent) (strategy : ShardStrategy)
      {engine : ShardedQueryEngine (Multiset Update)}
      (ran : f.engine.ProcessBatchWithStrategy logBackend display hashing events strategy engine
        (.ok ())) :
      Reached display hashing plans hash shardCount
        (f.batch display (f.engine.dispatch hashing strategy events).2 engine)
  | take {f : Fleet} (before : Reached display hashing plans hash shardCount f)
      {merged : List (WindowKey × WindowState (Multiset Update))}
      {engine : ShardedQueryEngine (Multiset Update)}
      (done : f.engine.takeMerged logBackend = .ok (merged, engine)) :
      Reached display hashing plans hash shardCount (f.take merged engine)

/-- What all shards together add to a window. -/
def total (display : Ipv6Text) (f : Fleet) (key : WindowKey) : Multiset Update :=
  (f.lanes.map (fun lane => lane.share display key)).sum

/-- All lanes stand at one place, and what was taken are the totals of the windows up to the mark. -/
structure Aligned (display : Ipv6Text) (plans : List Plan) (mark : Plan → Nat) (clocks : List Clock)
    (f : Fleet) : Prop where
  engines : f.lanes.map Session.engine = f.engine.shards
  lanes : ∀ lane ∈ f.lanes, lane.Lane display mark plans ∧ lane.clocks = clocks
  names : (clocks.map (fun c => c.plan.query.name)).Nodup
  below : ∀ entry ∈ f.taken, ∃ c ∈ clocks, c.Passes entry.1 ∧ entry.1.stop ≤ mark c.plan
  totals : ∀ entry ∈ f.taken, entry.2 = { state := f.total display entry.1
                                          windowStartNanos := entry.1.start
                                          windowEndNanos := entry.1.stop }
  distinct : (f.taken.map (fun entry => (entry.1.queryName, entry.1.stop))).Nodup
  complete : ∀ c ∈ clocks, ∀ key, c.Passes key → key.stop ≤ mark c.plan →
    f.total display key ≠ 0 → key ∈ f.taken.map Prod.fst

section

variable {display : Ipv6Text} {hashing : Hashing} {plans : List Plan} {hash : HashSpec}
  {shardCount : Nat} {f : Fleet} {mark : Plan → Nat} {clocks : List Clock}

/-- Equal engines, one for each element. -/
theorem mapM_same {S : Type} {x : Except SketchError S} {list : List Nat} {results : List S}
    (done : list.mapM (fun _ => x) = .ok results) : ∀ r ∈ results, x = .ok r := by
  induction list generalizing results with
  | nil =>
    cases done
    exact nofun
  | cons a rest ih =>
    rw [List.mapM_cons] at done
    obtain ⟨first, here, done⟩ := bind_ok done
    obtain ⟨others, there, result⟩ := bind_ok done
    cases result
    exact List.forall_mem_cons.mpr ⟨here, ih there⟩

theorem Aligned.start {engine : ShardedQueryEngine (Multiset Update)}
    (built : ShardedQueryEngine.new logBackend plans hash shardCount = .ok engine) :
    ∃ clocks, Aligned display plans (fun _ => 0) clocks
      { engine, lanes := engine.shards.map Session.start, taken := [] } := by
  unfold ShardedQueryEngine.new at built
  split at built
  · cases built
  split at built
  · cases built
  obtain ⟨shards, made, result⟩ := bind_ok built
  cases result
  have each := mapM_same made
  cases first : QueryEngine.new logBackend plans with
  | error e =>
    have none_made : shards = [] := List.eq_nil_iff_forall_not_mem.mpr fun r member => by
      cases first.symm.trans (each r member)
    subst none_made
    refine ⟨[], rfl, fun lane member => ?_, List.nodup_nil, fun entry member => ?_,
      fun entry member => ?_, List.nodup_nil, fun c member => ?_⟩ <;> cases member
  | ok fresh =>
    obtain ⟨names, _, _⟩ := QueryEngine.new_ok.mp first
    refine ⟨plans.map (fun plan => { plan, first := none, back := none }), ?_, ?_, ?_,
      fun entry member => ?_, fun entry member => ?_, List.nodup_nil, ?_⟩
    · exact (List.map_map ..).trans (List.map_id _)
    · intro lane member
      obtain ⟨shard, listed, rfl⟩ := List.mem_map.mp member
      exact ⟨.start (each shard listed), (Session.Open.start display plans (each shard listed)).2⟩
    · rw [List.map_map]
      exact names
    · cases member
    · cases member
    · intro c member key passes
      obtain ⟨plan, _, rfl⟩ := List.mem_map.mp member
      obtain ⟨_, opened, _⟩ := passes.start
      cases opened

theorem Aligned.clock_eq (aligned : Aligned display plans mark clocks f) {c c' : Clock}
    (member : c ∈ clocks) (member' : c' ∈ clocks) (same : c.plan.query.name = c'.plan.query.name) :
    c = c' :=
  List.inj_on_of_nodup_map aligned.names member member' same

theorem Aligned.passes (aligned : Aligned display plans mark clocks f) {c : Clock} (member : c ∈ clocks)
    {key : WindowKey} (passes : c.Passes key) : ∀ lane ∈ f.lanes, lane.Passes key :=
  fun lane listed => ⟨c, (aligned.lanes lane listed).2 ▸ member, passes⟩

theorem total_pos {key : WindowKey} (nonzero : f.total display key ≠ 0) :
    ∃ lane ∈ f.lanes, lane.share display key ≠ 0 := by
  by_contra none
  push Not at none
  refine nonzero (List.sum_eq_zero fun x listed => ?_)
  obtain ⟨lane, member, rfl⟩ := List.mem_map.mp listed
  exact none lane member

theorem laneCalls_streaming (batches : List (List FlowEvent)) (batch : List FlowEvent) :
    ∀ call ∈ laneCalls batches batch, call ≠ .finish ∧ call ≠ .drain := by
  intro call member
  rcases List.mem_append.mp member with inside | last
  · rcases List.mem_append.mp inside with first | middle
    · obtain ⟨low, _, rfl⟩ := Option.map_eq_some_iff.mp (Option.mem_toList.mp first)
      exact ⟨Call.advanceTo_ne_finish low, Call.advanceTo_ne_drain low⟩
    · obtain ⟨event, _, rfl⟩ := List.mem_map.mp middle
      exact ⟨Call.process_ne_finish event, Call.process_ne_drain event⟩
  · obtain ⟨high, _, rfl⟩ := Option.map_eq_some_iff.mp (Option.mem_toList.mp last)
    exact ⟨Call.advanceTo_ne_finish high, Call.advanceTo_ne_drain high⟩

/-- Shards that ran a batch. -/
theorem Aligned.batch (aligned : Aligned display plans mark clocks f) {batches : List (List FlowEvent)}
    (width : batches.length = f.engine.shards.length) {engine : ShardedQueryEngine (Multiset Update)}
    (ran : f.engine.processShardRefs logBackend display batches engine.shards (.ok ())) :
    ∃ clocks', Aligned display plans mark clocks' (f.batch display batches engine) := by
  have length : f.lanes.length = batches.length := by
    rw [width, ← aligned.engines, List.length_map]
  -- the lanes beside their parts of the batch
  obtain ⟨zs, lanes, parts⟩ : ∃ zs : List (Session.Log × List FlowEvent), f.lanes = zs.map Prod.fst ∧
      batches = zs.map Prod.snd :=
    ⟨f.lanes.zip batches, (List.map_fst_zip length.le).symm, (List.map_snd_zip length.ge).symm⟩
  let observed : Session.Log × List FlowEvent → Session.Log := fun z =>
    (Session.calls logBackend display (laneCalls batches z.2) z.1).state
  have after : (f.batch display batches engine).lanes = zs.map observed := by
    rw [Fleet.batch, lanes]
    conv_lhs => rw [parts]
    rw [zipWith_map_same, ← parts]
  have done : List.Forall₂ (fun z shard =>
      z.1.engine.calls logBackend display (laneCalls batches z.2) = .done shard) zs engine.shards := by
    have zipped : f.engine.shards.zip batches = zs.map (fun z => (z.1.engine, z.2)) := by
      rw [← aligned.engines, lanes, parts, List.map_map, List.zip_map']
      rfl
    cases ran with
    | ok all =>
      rw [zipped, List.map_map, List.forall₂_map_left_iff] at all
      exact all
  -- every lane moves the clocks to one place
  obtain ⟨list, moved⟩ : ∃ list, ∀ z ∈ zs, ∀ c : Clock, c.run (laneCalls batches z.2) = c.run list := by
    cases zs with
    | nil => exact ⟨[], nofun⟩
    | cons z rest =>
      refine ⟨laneCalls batches z.2, fun z' member c => ?_⟩
      exact c.run_laneCalls (parts ▸ List.mem_map_of_mem member)
        (parts ▸ List.mem_map_of_mem List.mem_cons_self)
  have engines : List.Forall₂ (fun z shard => (observed z).engine = shard) zs engine.shards :=
    done.imp fun z shard called => by
      obtain ⟨s', ran, same⟩ := Session.calls_observed called
      rw [show observed z = s' from congrArg Run.state ran, same]
  have each : ∀ z ∈ zs, (observed z).Lane display mark plans ∧
      (observed z).clocks = clocks.map (fun c => c.run list) ∧ ∀ key, z.1.Passes key →
        (observed z).share display key = z.1.share display key := by
    intro z member
    obtain ⟨shard, _, called⟩ := exists_right_of_mem done member
    obtain ⟨s', ran, _⟩ := Session.calls_observed called
    obtain ⟨keeps, same⟩ := aligned.lanes z.1 (lanes ▸ List.mem_map_of_mem member)
    obtain ⟨lane, clocks', kept⟩ := keeps.calls (laneCalls_streaming batches z.2) ran
    rw [show observed z = s' from congrArg Run.state ran]
    refine ⟨lane, ?_, fun key passes => (kept key passes).2⟩
    rw [clocks', same]
    exact List.map_congr_left fun c _ => moved z member c
  have total_kept : ∀ c ∈ clocks, ∀ key, c.Passes key →
      (f.batch display batches engine).total display key = f.total display key := by
    intro c member key passes
    rw [total, total, after, lanes, List.map_map, List.map_map]
    refine congrArg List.sum (List.map_congr_left fun z inside => ?_)
    exact (each z inside).2.2 key
      (aligned.passes member passes z.1 (lanes ▸ List.mem_map_of_mem inside))
  refine ⟨clocks.map (fun c => c.run list), ?_, ?_, ?_, ?_, ?_, aligned.distinct, ?_⟩
  · rw [after, List.map_map]
    show _ = engine.shards
    rw [← List.forall₂_eq_eq_eq, List.forall₂_map_left_iff]
    exact engines
  · intro lane member
    rw [after] at member
    obtain ⟨z, inside, rfl⟩ := List.mem_map.mp member
    obtain ⟨keeps, same, _⟩ := each z inside
    exact ⟨keeps, same⟩
  · rw [List.map_map]
    refine (congrArg List.Nodup (List.map_congr_left fun c _ => ?_)).mp aligned.names
    exact congrArg (fun plan => plan.query.name) (c.run_plan list).symm
  · intro entry member
    obtain ⟨c, clock, passes, le⟩ := aligned.below entry member
    refine ⟨c.run list, List.mem_map_of_mem clock, passes.run list, ?_⟩
    rw [c.run_plan]
    exact le
  · intro entry member
    obtain ⟨c, clock, passes, _⟩ := aligned.below entry member
    rw [total_kept c clock _ passes]
    exact aligned.totals entry member
  · intro c' clock key passes le nonzero
    obtain ⟨c, member, rfl⟩ := List.mem_map.mp clock
    rw [c.run_plan] at le
    obtain ⟨lane', listed, some_share⟩ := total_pos nonzero
    rw [after] at listed
    obtain ⟨z, inside, rfl⟩ := List.mem_map.mp listed
    obtain ⟨keeps, same⟩ := aligned.lanes z.1 (lanes ▸ List.mem_map_of_mem inside)
    have before := keeps.passes_of_run (same ▸ member) passes le
      ((Nat.zero_le _).trans_lt (Session.share_start_lt some_share))
    rw [total_kept c member key before] at nonzero
    exact aligned.complete c member key before le nonzero

theorem Aligned.take (aligned : Aligned display plans mark clocks f)
    {merged : List (WindowKey × WindowState (Multiset Update))}
    {engine : ShardedQueryEngine (Multiset Update)}
    (done : f.engine.takeMerged logBackend = .ok (merged, engine)) :
    ∃ mark', Aligned display plans mark' clocks (f.take merged engine) ∧
      ∀ c ∈ clocks, mark' c.plan = c.back.getD 0 ∧
        ∀ key, c.Passes key → (f.take merged engine).total display key = f.total display key := by
  obtain ⟨merged', taken, totals⟩ := takeMerged_log f.engine
  cases taken.symm.trans done
  let mark' : Plan → Nat := fun plan =>
    ((clocks.find? (fun c => c.plan.query.name = plan.query.name)).bind Clock.back).getD 0
  have atBack : ∀ c ∈ clocks, mark' c.plan = c.back.getD 0 := by
    intro c member
    have found : clocks.find? (fun d => d.plan.query.name = c.plan.query.name) = some c := by
      cases search : clocks.find? (fun d => d.plan.query.name = c.plan.query.name) with
      | none => exact absurd (List.find?_eq_none.mp search c member) (by simp)
      | some d =>
        have named := List.find?_some search
        rw [aligned.clock_eq (List.mem_of_find?_eq_some search) member (of_decide_eq_true named)]
    simp only [mark', found, Option.bind_some]
  have outputs : f.engine.shards.flatMap (fun e => e.takeWindowStates.1) =
      f.lanes.flatMap (fun lane => lane.engine.takeWindowStates.1) := by
    rw [← aligned.engines, List.flatMap_map]
  rw [outputs] at totals
  have kept : ∀ c ∈ clocks, ∀ key, c.Passes key →
      (f.take merged { f.engine with shards := f.engine.shards.map QueryEngine.drained }).total display key =
        f.total display key := by
    intro c member key passes
    rw [total, total, Fleet.take, List.map_map]
    refine congrArg List.sum (List.map_congr_left fun lane listed => ?_)
    obtain ⟨keeps, same⟩ := aligned.lanes lane listed
    have marked : lane.AtBack mark' := fun c inside => atBack c (same ▸ inside)
    exact (keeps.drain marked).2.2 key (aligned.passes member passes lane listed)
  have fresh : ∀ entry ∈ merged, (∃ c ∈ clocks, c.Passes entry.1 ∧ mark c.plan < entry.1.stop) ∧
      entry.2 = { state := f.total display entry.1, windowStartNanos := entry.1.start
                  windowEndNanos := entry.1.stop } := by
    rintro ⟨key, window⟩ member
    obtain ⟨listed, rfl⟩ := (totals.entries key window).mp member
    obtain ⟨output, waiting, rfl⟩ := List.mem_map.mp listed
    obtain ⟨lane, inside, waits⟩ := List.mem_flatMap.mp waiting
    obtain ⟨keeps, same⟩ := aligned.lanes lane inside
    obtain ⟨c, clock, passes, beyond⟩ := keeps.output waits
    rw [same] at clock
    refine ⟨⟨c, clock, passes, beyond⟩, ?_⟩
    rw [mergedWindow, totalFor_flatMap]
    refine congrArg (fun state => WindowState.mk state _ _) (congrArg List.sum ?_)
    refine List.map_congr_left fun lane inside => ?_
    obtain ⟨keeps, same⟩ := aligned.lanes lane inside
    exact (keeps.total (same ▸ clock) passes beyond).1
  refine ⟨mark', ⟨?_, ?_, aligned.names, ?_, ?_, ?_, ?_⟩,
    fun c member => ⟨atBack c member, kept c member⟩⟩
  · rw [← aligned.engines, Fleet.take, List.map_map, List.map_map]
    rfl
  · intro lane member
    obtain ⟨old, listed, rfl⟩ := List.mem_map.mp member
    obtain ⟨keeps, same⟩ := aligned.lanes old listed
    have marked : old.AtBack mark' := fun c inside => atBack c (same ▸ inside)
    obtain ⟨after, clocks', _⟩ := keeps.drain marked
    exact ⟨after, clocks'.trans same⟩
  · intro entry member
    have passed : ∃ c ∈ clocks, c.Passes entry.1 := by
      rcases List.mem_append.mp member with old | new
      · obtain ⟨c, clock, passes, _⟩ := aligned.below entry old
        exact ⟨c, clock, passes⟩
      · obtain ⟨⟨c, clock, passes, _⟩, _⟩ := fresh entry new
        exact ⟨c, clock, passes⟩
    obtain ⟨c, clock, passes⟩ := passed
    refine ⟨c, clock, passes, ?_⟩
    obtain ⟨back, opened, le⟩ := passes.passed
    rw [atBack c clock, Option.mem_def.mp opened]
    exact le
  · intro entry member
    rcases List.mem_append.mp member with old | new
    · obtain ⟨c, clock, passes, _⟩ := aligned.below entry old
      rw [kept c clock _ passes]
      exact aligned.totals entry old
    · obtain ⟨⟨c, clock, passes, _⟩, window⟩ := fresh entry new
      rw [kept c clock _ passes]
      exact window
  · rw [Fleet.take, List.map_append, List.nodup_append]
    refine ⟨aligned.distinct, ?_, ?_⟩
    · refine List.Nodup.map_on ?_ (totals.sorted.imp fun less same => ?_)
      · intro entry member entry' member' same
        obtain ⟨⟨c, clock, passes, _⟩, window⟩ := fresh entry member
        obtain ⟨⟨c', clock', passes', _⟩, window'⟩ := fresh entry' member'
        obtain ⟨names, stops⟩ := Prod.mk.inj same
        obtain rfl := aligned.clock_eq clock clock'
          (passes.name.trans (names.trans passes'.name.symm))
        obtain ⟨first, opened, start⟩ := passes.start
        obtain ⟨first', opened', start'⟩ := passes'.start
        obtain rfl := Option.some.inj (opened.symm.trans opened')
        have keys : entry.1 = entry'.1 := by
          obtain ⟨⟨name, begin, stop⟩, _⟩ := entry
          obtain ⟨⟨name', begin', stop'⟩, _⟩ := entry'
          simp only at names stops start start'
          rw [WindowKey.mk.injEq, start, start', stops]
          exact ⟨names, rfl, rfl⟩
        exact Prod.ext keys (by rw [window, window', keys])
      · exact less.ne (congrArg Prod.fst same)
    · intro pair old pair' new same
      obtain ⟨entry, member, rfl⟩ := List.mem_map.mp old
      obtain ⟨entry', member', rfl⟩ := List.mem_map.mp new
      obtain ⟨names, stops⟩ := Prod.mk.inj same
      obtain ⟨c, clock, passes, below⟩ := aligned.below entry member
      obtain ⟨⟨c', clock', passes', beyond⟩, _⟩ := fresh entry' member'
      obtain rfl := aligned.clock_eq clock clock' (passes.name.trans (names.trans passes'.name.symm))
      omega
  · intro c clock key passes below nonzero
    rw [kept c clock key passes] at nonzero
    rw [Fleet.take, List.map_append, List.mem_append]
    by_cases before : key.stop ≤ mark c.plan
    · exact .inl (aligned.complete c clock key passes before nonzero)
    · obtain ⟨lane, member, some_share⟩ := total_pos nonzero
      obtain ⟨keeps, same⟩ := aligned.lanes lane member
      have listed := (keeps.total (same ▸ clock) passes (Nat.lt_of_not_le before)).2 some_share
      obtain ⟨output, waiting, rfl⟩ := List.mem_map.mp listed
      refine .inr (List.mem_map.mpr ⟨(output.key, _), (totals.entries output.key _).mpr ⟨?_, rfl⟩, rfl⟩)
      exact List.mem_map_of_mem (List.mem_flatMap.mpr ⟨lane, member, waiting⟩)

theorem dispatch_length (engine : ShardedQueryEngine (Multiset Update)) (hashing : Hashing)
    (strategy : ShardStrategy) (events : List FlowEvent) :
    (engine.dispatch hashing strategy events).2.length = engine.shards.length := by
  have kept : ∀ state : Nat × List (List FlowEvent),
      (events.foldl (engine.dispatchOne hashing strategy) state).2.length = state.2.length := by
    induction events with
    | nil => exact fun _ => rfl
    | cons event rest ih =>
      intro state
      rw [List.foldl_cons, ih]
      cases strategy <;> exact List.length_modify ..
  exact (kept _).trans List.length_replicate

theorem Reached.aligned (reached : Reached display hashing plans hash shardCount f) :
    ∃ mark clocks, Aligned display plans mark clocks f := by
  induction reached with
  | start built => exact ⟨_, Aligned.start built⟩
  | shardBatches _ batches ran ih =>
    obtain ⟨mark, clocks, aligned⟩ := ih
    cases ran with
    | run same ran => exact ⟨mark, aligned.batch same ran⟩
  | batch _ events strategy ran ih =>
    obtain ⟨mark, clocks, aligned⟩ := ih
    obtain ⟨shards, rfl, ran⟩ := ran
    exact ⟨mark, aligned.batch (dispatch_length ..) ran⟩
  | take _ done ih =>
    obtain ⟨mark, clocks, aligned⟩ := ih
    obtain ⟨mark', after, _⟩ := aligned.take done
    exact ⟨mark', clocks, after⟩

end

/-- In every run without an error all shards have the same open buckets. What was taken has at most one
window for a query and an end, and each holds the updates of all shards in it that were taken in before
it closed. A drain hands out every passed window with updates that was not taken before. -/
theorem shards_lockstep {display : Ipv6Text} {hashing : Hashing} {plans : List Plan} {hash : HashSpec}
    {shardCount : Nat} {f : Fleet} (reached : Reached display hashing plans hash shardCount f) :
    f.lanes.map Session.engine = f.engine.shards ∧
    (∀ e ∈ f.engine.shards, ∀ e' ∈ f.engine.shards, Session.openStarts e = Session.openStarts e') ∧
    (f.taken.map (fun entry => (entry.1.queryName, entry.1.stop))).Nodup ∧
    (∀ entry ∈ f.taken, entry.2 = { state := f.total display entry.1
                                    windowStartNanos := entry.1.start
                                    windowEndNanos := entry.1.stop }) ∧
    ∃ merged engine, f.engine.takeMerged logBackend = .ok (merged, engine) ∧
      ∀ lane ∈ f.lanes, ∀ key, lane.Passes key → f.total display key ≠ 0 →
        key ∈ (f.taken ++ merged).map Prod.fst := by
  obtain ⟨mark, clocks, aligned⟩ := reached.aligned
  refine ⟨aligned.engines, ?_, aligned.distinct, aligned.totals, ?_⟩
  · have same : ∀ e ∈ f.engine.shards, Session.openStarts e =
        clocks.map (fun c => (c.plan.query.name, c.starts)) := by
      intro e member
      rw [← aligned.engines] at member
      obtain ⟨lane, listed, rfl⟩ := List.mem_map.mp member
      obtain ⟨keeps, clock⟩ := aligned.lanes lane listed
      rw [keeps.openStarts_eq, clock]
    intro e member e' member'
    rw [same e member, same e' member']
  · obtain ⟨merged, done, _⟩ := takeMerged_log f.engine
    obtain ⟨mark', after, atBack⟩ := aligned.take done
    refine ⟨merged, _, done, fun lane listed key passes nonzero => ?_⟩
    obtain ⟨c, member, passed⟩ := passes
    rw [(aligned.lanes lane listed).2] at member
    obtain ⟨marked, kept⟩ := atBack c member
    obtain ⟨back, opened, le⟩ := passed.passed
    refine after.complete c member key passed ?_ (kept key passed ▸ nonzero)
    rw [marked, Option.mem_def.mp opened]
    exact le

/-- Two shards with two and one events. -/
def twoLanes : List (List FlowEvent) := [[.at 20, .at 31], [.at 55]]

/-- One batch on two shards, and a drain. -/
theorem two_shards_lockstep : ∃ f : Fleet,
    f.Reached Ipv6Text.expanded fsk1 [Plan.slidingCounts] (HashSpec.new 1) 2 ∧
    f.engine.shards.map Session.openStarts = List.replicate 2 [("flows", [30, 40, 50])] ∧
    (f.taken.map (fun entry => (entry.1.queryName, entry.1.stop))).Nodup := by
  let fresh : LogEngine := { queries := [RunningQuery.new Plan.slidingCounts], eventsProcessed := 0 }
  let engine : ShardedQueryEngine (Multiset Update) :=
    { shards := [fresh, fresh], plans := [Plan.slidingCounts], hash := HashSpec.new 1
      nextBalancedShard := 0 }
  let shards := twoLanes.map (fun batch =>
    (fresh.calls logBackend Ipv6Text.expanded (laneCalls twoLanes batch)).state)
  have all : engine.processShardRefs logBackend Ipv6Text.expanded twoLanes shards (.ok ()) :=
    .ok (.cons rfl (.cons rfl .nil))
  have ran : Reached Ipv6Text.expanded fsk1 [Plan.slidingCounts] (HashSpec.new 1) 2 _ :=
    .shardBatches (@Reached.start _ _ _ _ _ engine rfl) twoLanes (.run rfl all)
  obtain ⟨_, _, _, _, merged, drained, done, _⟩ := shards_lockstep ran
  have last := ran.take done
  obtain ⟨merged', taken, _⟩ := takeMerged_log { engine with shards }
  cases done.symm.trans taken
  exact ⟨_, last, rfl, (shards_lockstep last).2.2.1⟩

end Fleet

end FlowSketch.Source.Runtime
