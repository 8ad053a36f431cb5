import FlowSketch.Source.Agent.DirectRuntime
import FlowSketch.Source.Core.Snapshot
import FlowSketch.Source.Runtime.Levels

/-!
# Reports of lanes

A lane that is moved to the watermark of all lanes reports its share of every window since its level,
and current windows whose bounds depend on that watermark only. Merged, the reports of all lanes hold
what all lanes together add to these windows.
-/

namespace FlowSketch.Source.Runtime
open Lib.Word64 Lib.SlidingLog Lib.Lists Source.Core

/-- The clock of a query that opened at a timestamp. -/
def openedClock (opening : Nat) (plan : Plan) : Clock where
  plan
  first := some (levelMark opening plan)
  back := none

namespace Session

/-- The lane runs `plans`, all opened at one timestamp. -/
structure Opened (plans : List Plan) (opening : Nat) (s : Log) : Prop where
  plans : s.clocks.map Clock.plan = plans
  first : ∀ c ∈ s.clocks, c.first = some (levelMark opening c.plan)

variable {display : Ipv6Text} {plans : List Plan} {opening level top : Nat} {s s' : Log}

theorem AtLevel.isOpened (at_level : s.AtLevel display plans opening level top) :
    s.Opened plans opening := by
  refine ⟨?_, fun c member => (at_level.opened c member).1⟩
  obtain ⟨ts, queries, clocks, _, _⟩ := at_level.pairs
  rw [clocks, List.map_map, ← at_level.queries, Session.plans, queries, List.map_map]
  rfl

theorem Opened.extend (opened : s.Opened plans opening) (extend : Extends display s s') :
    s'.Opened plans opening := by
  refine ⟨?_, fun c' member => ?_⟩
  · have listed := congrArg (List.map Prod.fst) extend.firsts
    rw [List.map_map, List.map_map] at listed
    exact listed.trans opened.plans
  · obtain ⟨c, inside, plan, first⟩ := extend.clock member
    rw [← first, ← plan]
    exact opened.first c inside

theorem Opened.within (opened : s.Opened plans opening) {c : Clock} (member : c ∈ s.clocks)
    {low high : Plan → Nat} {key : WindowKey} :
    c.Within low high key ↔ (openedClock opening c.plan).Within low high key :=
  ⟨fun within => within.same rfl (opened.first c member),
    fun within => within.same rfl (opened.first c member).symm⟩

theorem Opened.plan_mem (opened : s.Opened plans opening) {c : Clock} (member : c ∈ s.clocks) :
    c.plan ∈ plans := opened.plans ▸ List.mem_map_of_mem member

theorem Opened.clock (opened : s.Opened plans opening) {plan : Plan} (member : plan ∈ plans) :
    ∃ c ∈ s.clocks, c.plan = plan := by
  rw [← opened.plans] at member
  exact List.mem_map.mp member

end Session

/-! ## Current windows -/

/-- The bounds of a ring's current window. -/
def ringBounds (plan : Plan) (starts : List Nat) : Nat × Nat :=
  (starts.headD 0, wrappingAdd (starts.getLast?.getD 0) plan.slide)

theorem currentWindowStates_bounds {σ : Type} {backend : Backend σ} {queries : List (RunningQuery σ)}
    {windows : List (QueryWindowState σ)} (done : currentWindowStates backend queries = .ok windows) :
    ∀ window ∈ windows, ∃ q ∈ queries, window.queryName = q.plan.query.name ∧
      (window.state.windowStartNanos, window.state.windowEndNanos) =
        ringBounds q.plan (q.buckets.map Bucket.startNanos) := by
  induction queries generalizing windows with
  | nil =>
    cases done
    exact nofun
  | cons q rest ih =>
    rw [currentWindowStates] at done
    split at done
    next =>
      intro window member
      obtain ⟨p, inside, bounds⟩ := ih done window member
      exact ⟨p, List.mem_cons_of_mem _ inside, bounds⟩
    next front others ring =>
      obtain ⟨state, _, done⟩ := bind_ok done
      obtain ⟨out, later, result⟩ := bind_ok done
      cases result
      refine List.forall_mem_cons.mpr ⟨⟨q, List.mem_cons_self, rfl, ?_⟩, fun window member => ?_⟩
      · simp only [ringBounds, ring, List.map_cons, List.headD_cons, RunningQuery.backStart,
          RunningQuery.slideNanos, List.getLast?_cons, List.getLast?_map]
        cases others.getLast? <;> rfl
      · obtain ⟨p, inside, bounds⟩ := ih later window member
        exact ⟨p, List.mem_cons_of_mem _ inside, bounds⟩

/-- Closing the trailing windows moves no bucket. -/
theorem RunningQuery.finish_buckets {σ : Type} {backend : Backend σ} {q q' : RunningQuery σ}
    (done : q.finish backend = .done q') : q'.plan = q.plan ∧ q'.buckets = q.buckets := by
  unfold RunningQuery.finish at done
  split at done
  · cases done
    exact ⟨rfl, rfl⟩
  · cases room : q.ensureEmitCapacity 1 with
    | error e =>
      rw [room] at done
      cases done
    | ok =>
      rw [room, Run.attempt_ok, RunningQuery.flushWindow, room] at done
      split at done
      · cases done
        exact ⟨rfl, rfl⟩
      · next front rest ring =>
        cases merged : RunningQuery.mergeBuckets backend front.state rest with
        | error e =>
          rw [merged] at done
          cases done
        | ok =>
          rw [merged] at done
          cases done
          exact ⟨rfl, rfl⟩

end FlowSketch.Source.Runtime

namespace FlowSketch.Source.Agent
open Lib Lib.Word64 Lib.SortedMap Lib.Lists Source.Core Source.Runtime Source.Runtime.Session

variable {display : Ipv6Text} {plans : List Plan} {opening level : Nat} {s s' : Log}

/-! ## One report -/

theorem observe_some {σ : Type} {backend : Backend σ} {call : Call} {s s' : Session σ} :
    observe backend display call s = some s' ↔
      ∃ engine, s.engine.call backend display call = .done engine ∧ s' = s.after call engine := by
  unfold observe
  cases s.engine.call backend display call with
  | done engine => simp [eq_comm]
  | failed fault engine => simp

/-- A level, or a later timestamp. -/
def topOf (level : Nat) (seen : Option UInt64) : Nat := seen.elim level (fun ts => max level ts.toNat)

theorem le_topOf (level : Nat) (seen : Option UInt64) : level ≤ topOf level seen := by
  cases seen with
  | none => exact le_rfl
  | some ts => exact Nat.le_max_left ..

/-- Every timestamp seen is one below or at the watermark. -/
def Covers (watermark seen : Option UInt64) : Prop := ∀ ts ∈ seen, ∃ mark ∈ watermark, ts ≤ mark

theorem topOf_covered {watermark seen : Option UInt64} (covers : Covers watermark seen) :
    topOf level seen ≤ topOf level watermark := by
  cases seen with
  | none => exact le_topOf level watermark
  | some ts =>
    obtain ⟨mark, rfl, le⟩ := covers ts rfl
    exact max_le_max_left level le

/-- Up to where a report goes. -/
def reportMark (finish : Bool) (level : Nat) (plan : Plan) : Nat :=
  levelMark level plan + if finish then plan.slide else 0

/-- A query that opened at one timestamp and has come to another. -/
def clockAt (opening level : Nat) (plan : Plan) : Clock where
  plan
  first := some (levelMark opening plan)
  back := some (levelMark level plan)

/-- Where the current window of a query is, in a report at a level. -/
def currentBounds (opening level : Nat) (plan : Plan) : Nat × Nat :=
  ringBounds plan (clockAt opening level plan).starts

/-- The lane went on to the watermark. -/
theorem observe_watermark {watermark seen : Option UInt64}
    (at_level : s.AtLevel display plans opening level (topOf level seen))
    (covers : Covers watermark seen)
    (moved : observeIf logBackend display (watermark.map .advanceTo) s = some s') :
    s'.AtLevel display plans opening level (topOf level watermark) ∧
      (∀ c ∈ s'.clocks, c.back = some (levelMark (topOf level watermark) c.plan)) ∧
      Extends display s s' := by
  cases watermark with
  | none =>
    cases moved
    have unseen : seen = none := Option.eq_none_iff_forall_not_mem.mpr fun ts member => by
      obtain ⟨_, reached, _⟩ := covers ts member
      cases reached
    subst unseen
    refine ⟨at_level, fun c member => ?_, .refl display s⟩
    obtain ⟨_, back, stands, low, high⟩ := at_level.opened c member
    rw [stands]
    exact congrArg some (Nat.le_antisymm high low)
  | some mark =>
    obtain ⟨engine, done, rfl⟩ := observe_some.mp moved
    have seen_le : topOf level seen ≤ max level mark.toNat := topOf_covered covers
    obtain ⟨after, backs⟩ := at_level.advance seen_le done
    exact ⟨after, backs, at_level.extends_call (Call.advanceTo_ne_finish mark) done⟩

/-- What a report holds, and where its lane stands afterwards. -/
structure Report (display : Ipv6Text) (plans : List Plan) (opening level top : Nat) (finish : Bool)
    (report : WorkerReport (Multiset Update)) (s : Log) : Prop where
  completed : s.Reported display (levelMark level) (reportMark finish top) report.completed
  current : ∀ window ∈ report.current, ∃ plan ∈ plans, window.queryName = plan.query.name ∧
    boundsOf window = currentBounds opening top plan

/-- The buckets of a lane at its last bucket. -/
theorem AtLevel.starts {top : Nat} (at_level : s.AtLevel display plans opening level top)
    (at_back : ∀ c ∈ s.clocks, c.back = some (levelMark top c.plan)) :
    ∀ q ∈ s.engine.queries, q.buckets.map Bucket.startNanos = (clockAt opening top q.plan).starts := by
  obtain ⟨ts, queries, clocks, _, all⟩ := at_level.pairs
  intro q inside
  rw [queries] at inside
  obtain ⟨t, member, rfl⟩ := List.mem_map.mp inside
  have clock : clockOf t.1 t.2 ∈ s.clocks := clocks ▸ List.mem_map_of_mem member
  have same : clockOf t.1 t.2 = clockAt opening top t.1.plan := by
    have first : t.2.first = some (levelMark opening t.1.plan) := (at_level.opened _ clock).1
    have back : t.1.backStart = some (levelMark top t.1.plan) := at_back _ clock
    rw [clockOf, first, back, clockAt]
  rw [(all t member).streams.starts, same]

/-- The current windows of a lane whose buckets are where another lane's are at the level. -/
theorem current_bounds {top : Nat} {e e' : LogEngine} {includeCurrent : Bool}
    {current : List LogOutput} (queries : e.queries.map RunningQuery.plan = plans)
    (starts : ∀ q ∈ e.queries, q.buckets.map Bucket.startNanos = (clockAt opening top q.plan).starts)
    (left : ∀ q ∈ e'.queries, ∃ p ∈ e.queries, q.plan = p.plan ∧ q.buckets = p.buckets)
    (listed : (if includeCurrent then currentWindowStates logBackend e'.queries else .ok []).toOption =
      some current) :
    ∀ window ∈ current, ∃ plan ∈ plans, window.queryName = plan.query.name ∧
      boundsOf window = currentBounds opening top plan := by
  cases includeCurrent with
  | false =>
    cases listed
    exact nofun
  | true =>
    rw [if_pos rfl] at listed
    cases done : currentWindowStates logBackend e'.queries with
    | error e =>
      rw [done] at listed
      cases listed
    | ok windows =>
      rw [done] at listed
      obtain rfl : windows = current := Option.some.inj listed
      intro window member
      obtain ⟨q, inside, named, bounds⟩ := currentWindowStates_bounds done window member
      obtain ⟨p, stood, plan, buckets⟩ := left q inside
      rw [buckets, plan, starts p stood] at bounds
      exact ⟨p.plan, queries ▸ List.mem_map_of_mem stood, plan ▸ named, bounds⟩

theorem buildReport_some {σ : Type} {backend : Backend σ} {lane : Nat} {s s' : Session σ}
    {watermark : Option UInt64} {includeCurrent finish : Bool} {report : WorkerReport σ}
    (built : buildReport backend display lane s watermark includeCurrent finish = some (report, s')) :
    ∃ moved last current,
      observeIf backend display (watermark.map .advanceTo) s = some moved ∧
      observeIf backend display (if finish then some .finish else none) moved = some last ∧
      s' = last.after .drain last.engine.drained ∧
      (if includeCurrent then currentWindowStates backend last.engine.drained.queries
        else .ok []).toOption = some current ∧
      report.lane = lane ∧ report.completed = last.engine.takeWindowStates.1 ∧
      report.current = current := by
  obtain ⟨moved, watermarked, built⟩ := Option.bind_eq_some_iff.mp built
  obtain ⟨last, finished, built⟩ := Option.bind_eq_some_iff.mp built
  obtain ⟨drained, taken, built⟩ := Option.bind_eq_some_iff.mp built
  obtain ⟨current, listed, result⟩ := Option.bind_eq_some_iff.mp built
  cases result
  cases taken
  exact ⟨moved, last, current, watermarked, finished, rfl, listed, rfl, rfl, rfl⟩

/-- The report of a lane at a level, once all timestamps it has seen are covered. -/
theorem buildReport_level {lane : Nat} {watermark seen : Option UInt64} {includeCurrent finish : Bool}
    {report : WorkerReport (Multiset Update)}
    (at_level : s.AtLevel display plans opening level (topOf level seen))
    (covers : Covers watermark seen)
    (fits : finish = true → ∀ plan ∈ plans,
      levelMark (topOf level watermark) plan + plan.slide < modulus)
    (built : buildReport logBackend display lane s watermark includeCurrent finish =
      some (report, s')) :
    report.lane = lane ∧ Extends display s s' ∧
      Report display plans opening level (topOf level watermark) finish report s' ∧
      (finish = false →
        s'.AtLevel display plans opening (topOf level watermark) (topOf level watermark)) ∧
      ∀ c ∈ s'.clocks, c.back = some (levelMark (topOf level watermark) c.plan) := by
  obtain ⟨moved, last, current, watermarked, finished, rfl, listed, named, completed, rfl⟩ :=
    buildReport_some built
  obtain ⟨after, backs, extend⟩ := observe_watermark at_level covers watermarked
  have starts := AtLevel.starts after backs
  cases finish with
  | false =>
    cases finished
    obtain ⟨rest, clocks, extend', reported⟩ := after.drain backs
    refine ⟨named, extend.trans extend', ⟨completed ▸ reported, ?_⟩, fun _ => rest,
      fun c member => backs c (clocks ▸ member)⟩
    refine current_bounds after.queries starts (fun q inside => ?_) listed
    obtain ⟨p, member, rfl⟩ := List.mem_map.mp inside
    exact ⟨p, member, rfl, rfl⟩
  | true =>
    obtain ⟨engine, done, rfl⟩ := observe_some.mp finished
    have within : ∀ c ∈ moved.clocks, levelMark (topOf level watermark) c.plan + c.plan.slide < modulus :=
      fun c member => fits rfl c.plan (after.isOpened.plan_mem member)
    obtain ⟨clocks, extend', reported⟩ := after.finish backs within done
    refine ⟨named, extend.trans extend', ⟨completed ▸ reported, ?_⟩, nofun,
      fun c member => backs c (clocks ▸ member)⟩
    obtain ⟨_, moves, _⟩ := QueryEngine.call_done.mp done
    refine current_bounds after.queries starts (fun q inside => ?_) listed
    obtain ⟨r, member, rfl⟩ := List.mem_map.mp inside
    obtain ⟨p, stood, move⟩ := exists_left_of_mem moves member
    have kept := @RunningQuery.finish_buckets _ logBackend p r move
    exact ⟨p, stood, kept⟩

end FlowSketch.Source.Agent
