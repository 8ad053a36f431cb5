import FlowSketch.Source.Runtime.Lanes
import FlowSketch.Source.Runtime.Merging

/-!
# What a lane hands out

A lane hands its windows out now and then. Its ledger says that everything closed up to a mark has been
handed out and everything closed beyond waits. So what waits under a key is exactly the lane's share of
that window, also where the lane skipped it.
-/

namespace FlowSketch.Source.Runtime
open Lib.Word64 Lib.SlidingLog Lib.Lists Source.Core

theorem Call.process_ne_finish (event : FlowEvent) : Call.process event ≠ .finish := nofun

theorem Call.process_ne_drain (event : FlowEvent) : Call.process event ≠ .drain := nofun

theorem Call.advanceTo_ne_finish (ts : UInt64) : Call.advanceTo ts ≠ .finish := nofun

theorem Call.advanceTo_ne_drain (ts : UInt64) : Call.advanceTo ts ≠ .drain := nofun

theorem Call.drain_ne_finish : Call.drain ≠ .finish := nofun

/-- The key of a window that a clock has passed. -/
structure Clock.Passes (c : Clock) (key : WindowKey) : Prop where
  name : c.plan.query.name = key.queryName
  start : ∃ first ∈ c.first, key.start = windowStart c.plan first key.stop
  boundary : c.plan.slide ∣ key.stop
  passed : ∃ back ∈ c.back, key.stop ≤ back

/-- A passed window stays passed. -/
theorem Clock.Passes.step {c : Clock} {key : WindowKey} (passes : c.Passes key) (call : Call) :
    (c.step call).Passes key := by
  obtain ⟨name, ⟨first, opened, start⟩, boundary, back, reached, le⟩ := passes
  refine ⟨name, ⟨first, ?_, start⟩, boundary, ?_⟩
  · rw [Clock.step, Option.mem_def.mp opened]
    rfl
  · rw [Option.mem_def] at reached
    cases call with
    | process event =>
      simp only [Clock.step, Clock.backAfter, reached, Option.getD_some]
      split
      · exact ⟨_, rfl, le.trans (Nat.le_max_left _ _)⟩
      · exact ⟨back, rfl, le⟩
    | advanceTo ts =>
      simp only [Clock.step, Clock.backAfter, reached, Option.getD_some]
      exact ⟨_, rfl, le.trans (Nat.le_max_left _ _)⟩
    | drain => exact ⟨back, reached, le⟩
    | finish => exact ⟨back, reached, le⟩

theorem Clock.Passes.run {c : Clock} {key : WindowKey} (passes : c.Passes key) (list : List Call) :
    (c.run list).Passes key := by
  induction list generalizing c with
  | nil => exact passes
  | cons call rest ih => exact ih (passes.step call)

/-- The updates of the events of a window that were taken in before it closed. -/
def share (display : Ipv6Text) (plan : Plan) (h : History (Multiset Update)) (key : WindowKey) :
    Multiset Update :=
  updatesIn display plan (h.beforeClosing key.stop) key.start key.stop

/-- What the query has closed up to the mark is handed out, what it closed beyond waits. -/
structure Ledger (display : Ipv6Text) (mark : Plan → Nat) (q : LogQuery)
    (h : History (Multiset Update)) : Prop where
  streams : Streams display q h
  handed : ∃ handed, h.closed.map Prod.fst = handed ++ q.emitted ∧
    ∀ window ∈ handed, window.windowEndNanos ≤ mark q.plan
  waits : ∀ window ∈ q.emitted, mark q.plan < window.windowEndNanos
  reached : mark q.plan ≤ q.backStart.getD 0

theorem Ledger.start (display : Ipv6Text) (plan : Plan) :
    Ledger display (fun _ => 0) (RunningQuery.new plan) History.start :=
  ⟨⟨_, Accounted.start display plan⟩, ⟨[], rfl, nofun⟩, nofun, Nat.zero_le _⟩

section

variable {display : Ipv6Text} {mark : Plan → Nat} {q : LogQuery} {h : History (Multiset Update)}

/-- The last bucket of a query only moves on. -/
theorem Accounted.back_le {q' : LogQuery} {t : Timeline} {call : Call}
    (accounted : Accounted display q h t) (called : Called display q t call q') :
    q.backStart.getD 0 ≤ q'.backStart.getD 0 := by
  have back := accounted.told.tracks.backStart
  cases before : q.backStart with
  | none => exact Nat.zero_le _
  | some b =>
    obtain ⟨later, opened, le⟩ := accounted.told.tracks.after_back_mono display call
      (Option.mem_def.mpr (back.symm.trans before))
    rw [called.tracks.backStart, called.plan, Option.mem_def.mp opened]
    exact le

/-- Between the marks a lane only closes windows past the last one. -/
theorem Ledger.call {q' : LogQuery} {call : Call} (ledger : Ledger display mark q h)
    (streaming : call ≠ .finish) (keeps : call ≠ .drain) (passes : q.check call = .ok ())
    (done : q.call logBackend display call = .done q') :
    Ledger display mark q' (h.after call q q') := by
  obtain ⟨t, accounted⟩ := ledger.streams
  have streams := (ledger.streams.call streaming passes done).1
  obtain ⟨result, same, called⟩ := accounted.told.tracks.call display passes
  obtain rfl : result = q' := Run.done.inj (same.symm.trans done)
  have inRange : call = .finish → t.InRange q.plan := fun last => absurd last streaming
  obtain ⟨_, between⟩ := accounted.told.tracks.closes_ends display inRange
  have emitted : result.emitted = q.emitted ++ t.closes q.plan call := by
    rw [called.emitted]
    cases call with
    | drain => exact absurd rfl keeps
    | process event => rfl
    | advanceTo ts => rfl
    | finish => rfl
  obtain ⟨handed, split, early⟩ := ledger.handed
  refine ⟨streams, ⟨handed, ?_, called.plan ▸ early⟩, fun window waiting => ?_, ?_⟩
  · have closes := called.newlyEmitted
    simp only [History.after, closes, List.map_append, split, List.map_map, List.append_assoc]
    rw [emitted]
    exact congrArg _ (congrArg _ (List.map_id _))
  · rw [emitted] at waiting
    rw [called.plan]
    rcases List.mem_append.mp waiting with old | new
    · exact ledger.waits window old
    · have reached := ledger.reached
      rw [accounted.told.tracks.backStart] at reached
      cases back : t.backOf q.plan with
      | none =>
        rw [back] at reached
        have nonempty := (accounted.told.tracks.closes_exact inRange new).nonempty
        simp only [Option.getD_none] at reached
        omega
      | some b =>
        rw [back] at reached
        exact reached.trans_lt ((between window new).1 b back)
  · rw [called.plan]
    exact ledger.reached.trans (accounted.back_le called)

theorem Streams.closed_le (streams : Streams display q h) {window : WindowState (Multiset Update)}
    (closed : window ∈ h.closed.map Prod.fst) :
    (∃ first ∈ h.first, window.windowStartNanos = windowStart q.plan first window.windowEndNanos) ∧
      q.plan.slide ∣ window.windowEndNanos ∧ ∃ back ∈ q.backStart, window.windowEndNanos ≤ back := by
  obtain ⟨t, accounted⟩ := streams
  obtain ⟨entry, member, rfl⟩ := List.mem_map.mp closed
  obtain ⟨back, opened, le⟩ := accounted.told.ends rfl entry member
  obtain ⟨first, noted⟩ : ∃ first, h.first = some first := by
    rw [accounted.told.first]
    obtain ⟨span, present, _⟩ := Option.map_eq_some_iff.mp (Option.mem_def.mp opened)
    exact ⟨span.1, by rw [present]; rfl⟩
  refine ⟨⟨first, noted, accounted.starts entry member first noted⟩, accounted.boundaries entry member,
    back, ?_, le⟩
  rw [accounted.told.tracks.backStart]
  exact opened

/-- After a drain the mark is at the last bucket. -/
theorem Ledger.drain {mark' : Plan → Nat} {q' : LogQuery} (ledger : Ledger display mark q h)
    (marked : mark' q.plan = q.backStart.getD 0)
    (done : q.call logBackend display .drain = .done q') :
    Ledger display mark' q' (h.after .drain q q') := by
  have streams := (ledger.streams.call Call.drain_ne_finish rfl done).1
  cases done
  have closed : (h.after .drain q { q with emitted := [] }).closed = h.closed := by
    simp [History.after]
  refine ⟨streams, ⟨h.closed.map Prod.fst, ?_, fun window member => ?_⟩,
    fun _ waiting => absurd waiting List.not_mem_nil, marked.le⟩
  · rw [closed, List.append_nil]
  · obtain ⟨_, _, back, opened, le⟩ := ledger.streams.closed_le member
    show window.windowEndNanos ≤ mark' q.plan
    rw [marked, Option.mem_def.mp opened]
    exact le

theorem Streams.clock_drain (streams : Streams display q h) :
    (clockOf q h).step .drain = clockOf q h := by
  obtain ⟨t, accounted⟩ := streams
  have first := accounted.told.first
  have back := accounted.told.tracks.backStart
  unfold Timeline.backOf at back
  cases span : t.span with
  | none =>
    rw [span] at first back
    simp [clockOf, Clock.step, Clock.backAfter, first, back]
  | some opened =>
    rw [span] at first
    simp [clockOf, Clock.step, Clock.backAfter, first]

/-- Where a clock has its buckets. -/
def Clock.starts (c : Clock) : List Nat :=
  match c.first, c.back with
  | some first, some back =>
    let front := max first (back - (c.plan.windowBuckets - 1) * c.plan.slide)
    List.range' front ((back - front) / c.plan.slide + 1) c.plan.slide
  | _, _ => []

theorem Streams.starts (streams : Streams display q h) :
    q.buckets.map Bucket.startNanos = (clockOf q h).starts := by
  obtain ⟨t, accounted⟩ := streams
  have tracks := accounted.told.tracks
  have first := accounted.told.first
  have back := tracks.backStart
  unfold Timeline.backOf at back
  unfold Tracks at tracks
  split at tracks
  next none_open =>
    rw [none_open] at first
    rw [tracks.1, Clock.starts, clockOf, first]
    rfl
  next opened s some_open =>
    have on : OnLog q t.log opened s := tracks
    rw [some_open] at first back
    simp only [Clock.starts, clockOf, first, back, Option.map_some]
    rw [← on.valid.front_eq, on.buckets, ring_starts]
    have count : (s.back q.plan.slide - s.front) / q.plan.slide + 1 = s.count := by
      have positive : 0 < q.plan.slide := q.plan.slide_pos
      rw [Span.back, Nat.add_sub_cancel_left, Nat.mul_div_cancel _ positive]
      exact Nat.sub_add_cancel on.valid.positive
    rw [count]

/-! ## What waits under a key -/

/-- What a query hands out. -/
def outputs (q : LogQuery) : List LogOutput :=
  q.emitted.map (fun state => { queryName := q.plan.query.name, state })

theorem Ledger.output (ledger : Ledger display mark q h) {output : LogOutput}
    (waiting : output ∈ outputs q) :
    (clockOf q h).Passes output.key ∧ mark q.plan < output.key.stop := by
  obtain ⟨window, member, rfl⟩ := List.mem_map.mp waiting
  obtain ⟨handed, split, _⟩ := ledger.handed
  have closed : window ∈ h.closed.map Prod.fst := split ▸ List.mem_append_right _ member
  obtain ⟨start, boundary, passed⟩ := ledger.streams.closed_le closed
  exact ⟨⟨rfl, start, boundary, passed⟩, ledger.waits window member⟩

/-- A passed window past the mark waits, or the lane has no share in it. -/
theorem Ledger.share_eq (ledger : Ledger display mark q h) {key : WindowKey}
    (passes : (clockOf q h).Passes key) (beyond : mark q.plan < key.stop) :
    totalFor key (outputs q) = share display q.plan h key ∧
      (share display q.plan h key ≠ 0 → key ∈ (outputs q).map QueryWindowState.key) := by
  obtain ⟨name, ⟨first, opened, start⟩, boundary, passed⟩ := passes
  change h.first = some first at opened
  change key.start = windowStart q.plan first key.stop at start
  obtain ⟨t, accounted⟩ := ledger.streams
  obtain ⟨handed, split, early⟩ := ledger.handed
  have ends : ((h.closed.map Prod.fst).map WindowState.windowEndNanos).Pairwise (· < ·) := by
    rw [List.map_map]
    exact accounted.told.emissions.increasing
  rw [split, List.map_append, List.pairwise_append] at ends
  have keyOf : ∀ window ∈ q.emitted, window.windowEndNanos = key.stop →
      ({ queryName := q.plan.query.name, state := window } : LogOutput).key = key ∧
        window.state = share display q.plan h key := by
    intro window member same
    have closed : window ∈ h.closed.map Prod.fst := split ▸ List.mem_append_right _ member
    obtain ⟨entry, listed, rfl⟩ := List.mem_map.mp closed
    have windowStart := accounted.starts entry listed first opened
    rw [same, ← start] at windowStart
    refine ⟨?_, ?_⟩
    · cases key
      simp only [QueryWindowState.key, WindowKey.mk.injEq]
      exact ⟨name, windowStart, same⟩
    · rw [accounted.told.emissions.merged entry listed, share, ← same,
        accounted.closing entry listed, same, windowStart]
  by_cases waiting : ∃ window ∈ q.emitted, window.windowEndNanos = key.stop
  · obtain ⟨window, member, same⟩ := waiting
    obtain ⟨matched, state⟩ := keyOf window member same
    have listed : key ∈ (outputs q).map QueryWindowState.key :=
      List.mem_map.mpr ⟨_, List.mem_map_of_mem member, matched⟩
    refine ⟨?_, fun _ => listed⟩
    have only : (outputs q).filter (fun output => output.key = key) =
        [{ queryName := q.plan.query.name, state := window }] := by
      obtain ⟨front, rest, whole⟩ := List.append_of_mem member
      have apart := ends.2.1
      rw [whole, List.map_append, List.map_cons, List.pairwise_append, List.pairwise_cons] at apart
      have none_key : ∀ list : List (WindowState (Multiset Update)),
          (∀ w ∈ list, w.windowEndNanos ≠ window.windowEndNanos) →
          (list.map (fun state => ({ queryName := q.plan.query.name, state } : LogOutput))).filter
            (fun output => output.key = key) = [] := by
        intro list different
        refine List.filter_eq_nil_iff.mpr fun output inside equal => ?_
        obtain ⟨w, inList, rfl⟩ := List.mem_map.mp inside
        have stops := congrArg WindowKey.stop (of_decide_eq_true equal)
        exact different w inList (stops.trans same.symm)
      rw [outputs, whole, List.map_append, List.map_cons, List.filter_append,
        none_key front fun w inside => ?_, List.filter_cons_of_pos (by simpa using matched),
        none_key rest fun w inside => ?_]
      · rfl
      · exact (apart.2.1.1 _ (List.mem_map_of_mem inside)).ne'
      · exact (apart.2.2 _ (List.mem_map_of_mem inside) _ List.mem_cons_self).ne
    rw [totalFor, only]
    exact (add_zero _).trans state
  · have unlisted : ∀ entry ∈ h.closed, entry.1.windowEndNanos ≠ key.stop := by
      intro entry member same
      have closed := List.mem_map_of_mem (f := Prod.fst) member
      rw [split] at closed
      rcases List.mem_append.mp closed with old | waits
      · exact absurd (early _ old) (by omega)
      · exact waiting ⟨entry.1, waits, same⟩
    have nothing : share display q.plan h key = 0 := by
      rw [share, start]
      refine accounted.skipped key.stop boundary ?_ unlisted first opened
      obtain ⟨back, opened, le⟩ := passed
      exact ⟨back, accounted.told.tracks.backStart ▸ opened, le⟩
    refine ⟨?_, fun some_share => absurd nothing some_share⟩
    rw [nothing]
    refine totalFor_absent fun listed => ?_
    obtain ⟨output, inside, same⟩ := List.mem_map.mp listed
    obtain ⟨window, member, rfl⟩ := List.mem_map.mp inside
    exact waiting ⟨window, member, congrArg WindowKey.stop same⟩

theorem Clock.run_first {c : Clock} {first : Nat} (opened : c.first = some first) (list : List Call) :
    (c.run list).first = some first ∧ (c.run list).plan = c.plan := by
  induction list generalizing c with
  | nil => exact ⟨opened, rfl⟩
  | cons call rest ih =>
    have next : (c.step call).first = some first := by rw [Clock.step, opened]; rfl
    exact ih next

theorem Clock.run_plan (c : Clock) (list : List Call) : (c.run list).plan = c.plan := by
  induction list generalizing c with
  | nil => rfl
  | cons call rest ih => exact ih (c.step call)

/-- A window up to the mark was passed before the calls. -/
theorem Ledger.passes_of_run (ledger : Ledger display mark q h) {key : WindowKey} {list : List Call}
    (passes : ((clockOf q h).run list).Passes key) (le : key.stop ≤ mark q.plan)
    (positive : 0 < key.stop) : (clockOf q h).Passes key := by
  obtain ⟨t, accounted⟩ := ledger.streams
  have reached := ledger.reached
  cases back : q.backStart with
  | none =>
    rw [back] at reached
    simp only [Option.getD_none] at reached
    omega
  | some b =>
    rw [back] at reached
    obtain ⟨first, opened⟩ : ∃ first, h.first = some first := by
      have same := accounted.told.tracks.backStart.symm.trans back
      obtain ⟨span, present, _⟩ := Option.map_eq_some_iff.mp same
      exact ⟨span.1, by rw [accounted.told.first, present]; rfl⟩
    obtain ⟨name, ⟨start, noted, same⟩, boundary, _⟩ := passes
    obtain ⟨kept, plan⟩ := @Clock.run_first (clockOf q h) first opened list
    rw [plan] at name same boundary
    obtain rfl : first = start := Option.some.inj (kept.symm.trans noted)
    exact ⟨name, ⟨first, opened, same⟩, boundary, b, back, le.trans reached⟩

/-- The share in a passed window stays what it is. -/
theorem Ledger.share_kept {q' : LogQuery} (ledger : Ledger display mark q h) {key : WindowKey}
    (passes : (clockOf q h).Passes key) (call : Call) :
    share display q.plan (h.after call q q') key = share display q.plan h key := by
  obtain ⟨t, accounted⟩ := ledger.streams
  obtain ⟨back, opened, le⟩ := passes.passed
  rw [share, share, accounted.beforeClosing_passed call
    ⟨back, accounted.told.tracks.backStart ▸ opened, le⟩]

end

theorem totalFor_flatMap {α : Type} (key : WindowKey) (list : List α) (f : α → List LogOutput) :
    totalFor key (list.flatMap f) = (list.map (fun a => totalFor key (f a))).sum := by
  induction list with
  | nil => rfl
  | cons a rest ih => rw [List.flatMap_cons, totalFor_append, ih, List.map_cons, List.sum_cons]

/-- The outputs of queries with different names, gathered query by query. -/
theorem totalFor_gathered {τ : Type} {ts : List τ} {name : τ → String} {out : τ → List LogOutput}
    {part : τ → Multiset Update} {key : WindowKey}
    (named : ∀ t ∈ ts, ∀ output ∈ out t, output.queryName = name t)
    (each : ∀ t ∈ ts, name t = key.queryName → totalFor key (out t) = part t ∧
      (part t ≠ 0 → key ∈ (out t).map QueryWindowState.key)) :
    totalFor key (ts.flatMap out) =
        (ts.map (fun t => if name t = key.queryName then part t else 0)).sum ∧
      ((ts.map (fun t => if name t = key.queryName then part t else 0)).sum ≠ 0 →
        key ∈ (ts.flatMap out).map QueryWindowState.key) := by
  rw [totalFor_flatMap]
  refine ⟨congrArg List.sum (List.map_congr_left fun t inside => ?_), fun nonzero => ?_⟩
  · split
    next here => exact (each t inside here).1
    next elsewhere =>
      refine totalFor_absent fun listed => ?_
      obtain ⟨output, waits, rfl⟩ := List.mem_map.mp listed
      exact elsewhere (named t inside output waits).symm
  · by_contra absent
    refine nonzero (List.sum_eq_zero fun x listed => ?_)
    obtain ⟨t, inside, rfl⟩ := List.mem_map.mp listed
    split
    next here =>
      by_contra some_part
      refine absent ?_
      rw [List.map_flatMap]
      exact List.mem_flatMap.mpr ⟨t, inside, (each t inside here).2 some_part⟩
    next => rfl

/-! ## Lanes -/

namespace Session

/-- A lane's share of a window. -/
def share (display : Ipv6Text) (s : Log) (key : WindowKey) : Multiset Update :=
  (List.zipWith (fun q h =>
    if q.plan.query.name = key.queryName then Runtime.share display q.plan h key else 0)
    s.engine.queries s.histories).sum

/-- An empty window holds nothing. -/
theorem share_start_lt {display : Ipv6Text} {s : Log} {key : WindowKey}
    (nonzero : s.share display key ≠ 0) : key.start < key.stop := by
  by_contra empty
  have none_inside : ∀ plan h, Runtime.share display plan h key = 0 := by
    intro plan h
    rw [Runtime.share, updatesIn, List.filter_eq_nil_iff.mpr]
    · rfl
    · intro event _ inside
      have bounds := of_decide_eq_true inside
      omega
  refine nonzero (List.sum_eq_zero fun x listed => ?_)
  rw [← List.map_uncurry_zip_eq_zipWith] at listed
  obtain ⟨t, _, rfl⟩ := List.mem_map.mp listed
  show (if t.1.plan.query.name = key.queryName then _ else _) = 0
  split
  · exact none_inside _ _
  · rfl

/-- The clock of the key's query has passed the window. -/
def Passes (s : Log) (key : WindowKey) : Prop := ∃ c ∈ s.clocks, c.Passes key

def Keeps (display : Ipv6Text) (mark : Plan → Nat) (s : Log) : Prop :=
  List.Forall₂ (Ledger display mark) s.engine.queries s.histories

/-- The plans of a lane. -/
def plans (s : Log) : List Plan := s.engine.queries.map RunningQuery.plan

/-- Names apart, in a lane that keeps its ledgers. -/
structure Lane (display : Ipv6Text) (mark : Plan → Nat) (plans : List Plan) (s : Log) : Prop where
  keeps : s.Keeps display mark
  queries : s.plans = plans
  names : (plans.map (fun plan => plan.query.name)).Nodup

variable {display : Ipv6Text} {mark : Plan → Nat} {plans : List Plan} {s : Log}

theorem Lane.start {engine : LogEngine} (built : QueryEngine.new logBackend plans = .ok engine) :
    (Session.start engine).Lane display (fun _ => 0) plans := by
  obtain ⟨names, _, rfl⟩ := QueryEngine.new_ok.mp built
  refine ⟨?_, ?_, names⟩
  · unfold Keeps
    simp only [Session.start, List.map_map]
    rw [List.forall₂_map_left_iff, List.forall₂_map_right_iff, List.forall₂_same]
    exact fun plan _ => Ledger.start display plan
  · simp [Session.plans, Session.start, Function.comp_def, RunningQuery.new]

theorem Lane.isOpen (lane : s.Lane display mark plans) : s.Open display :=
  lane.keeps.imp fun _ _ ledger => ledger.streams

/-- The queries and their notes, side by side. -/
theorem Lane.pairs (lane : s.Lane display mark plans) :
    ∃ ts : List (LogQuery × History (Multiset Update)), s.engine.queries = ts.map Prod.fst ∧
      s.clocks = ts.map (fun t => clockOf t.1 t.2) ∧
      (∀ key, s.share display key = (ts.map (fun t =>
        if t.1.plan.query.name = key.queryName then Runtime.share display t.1.plan t.2 key
        else 0)).sum) ∧ ∀ t ∈ ts, Ledger display mark t.1 t.2 := by
  obtain ⟨ts, queries, histories, all⟩ := exists_pairs lane.keeps
  refine ⟨ts, queries, ?_, fun key => ?_, all⟩
  · rw [clocks, queries, histories, zipWith_map_same]
  · rw [share, queries, histories, zipWith_map_same]

/-- The clock of a query is found by the query's name. -/
theorem Lane.clock_eq (lane : s.Lane display mark plans) {c c' : Clock} (member : c ∈ s.clocks)
    (member' : c' ∈ s.clocks) (same : c.plan.query.name = c'.plan.query.name) : c = c' := by
  obtain ⟨ts, queries, clocks, _, _⟩ := lane.pairs
  have names : (s.clocks.map (fun c => c.plan.query.name)).Nodup := by
    have listed := lane.names
    rw [← lane.queries, Session.plans, queries, List.map_map, List.map_map] at listed
    rw [clocks, List.map_map]
    exact listed
  exact List.inj_on_of_nodup_map names member member' same

theorem Lane.passes_iff (lane : s.Lane display mark plans) {key : WindowKey} (passes : s.Passes key)
    {c : Clock} (member : c ∈ s.clocks) (named : c.plan.query.name = key.queryName) : c.Passes key := by
  obtain ⟨d, inside, passed⟩ := passes
  rw [lane.clock_eq member inside (named.trans passed.name.symm)]
  exact passed

/-- What every call of an open stream leaves alone. -/
theorem Lane.kept (lane : s.Lane display mark plans) {call : Call} (streaming : call ≠ .finish)
    {engine : LogEngine} (done : s.engine.call logBackend display call = .done engine) :
    (s.after call engine).plans = plans ∧
      ∀ key, s.Passes key → (s.after call engine).share display key = s.share display key := by
  obtain ⟨checks, moves, _⟩ := QueryEngine.call_done.mp done
  obtain ⟨ts, queries, histories, results, notes, all⟩ := exists_moves lane.keeps moves
  have samePlan : ∀ t ∈ ts, t.2.2.plan = t.1.plan := by
    intro t member
    obtain ⟨inside, ledger, move⟩ := all t member
    exact congrArg Clock.plan (ledger.streams.call streaming (checks t.1 inside) move).2
  refine ⟨?_, fun key passes => ?_⟩
  · rw [← lane.queries, Session.plans, Session.plans, Session.after, results, queries, List.map_map,
      List.map_map]
    exact List.map_congr_left samePlan
  · unfold share Session.after
    simp only
    rw [notes, results, queries, histories, zipWith_map_same, zipWith_map_same]
    refine congrArg List.sum (List.map_congr_left fun t member => ?_)
    rw [samePlan t member]
    split
    next named =>
      refine (all t member).2.1.share_kept (lane.passes_iff passes ?_ named) call
      rw [Session.clocks, queries, histories, zipWith_map_same]
      exact List.mem_map_of_mem member
    next => rfl

theorem Lane.call (lane : s.Lane display mark plans) {call : Call} (streaming : call ≠ .finish)
    (keeps : call ≠ .drain) {engine : LogEngine}
    (done : s.engine.call logBackend display call = .done engine) :
    (s.after call engine).Lane display mark plans := by
  obtain ⟨checks, moves, _⟩ := QueryEngine.call_done.mp done
  refine ⟨?_, (lane.kept streaming done).1, lane.names⟩
  exact after_forall lane.keeps moves fun q member h q' ledger move =>
    ledger.call streaming keeps (checks q member) move

theorem Passes.step {key : WindowKey} (passes : s.Passes key) {call : Call} {s' : Log}
    (clocks : s'.clocks = s.clocks.map (fun clock => clock.step call)) : s'.Passes key := by
  obtain ⟨c, member, passed⟩ := passes
  exact ⟨c.step call, clocks ▸ List.mem_map_of_mem member, passed.step call⟩

/-- A run of the engine is observed to its end. -/
theorem calls_observed {list : List Call} {engine : LogEngine}
    (done : s.engine.calls logBackend display list = .done engine) :
    ∃ s', Session.calls logBackend display list s = .done s' ∧ s'.engine = engine := by
  induction list generalizing s with
  | nil => exact ⟨s, rfl, Run.done.inj done⟩
  | cons call rest ih =>
    rw [QueryEngine.calls] at done
    rw [Session.calls]
    cases stepped : s.engine.call logBackend display call with
    | failed fault e =>
      rw [stepped] at done
      cases done
    | done e =>
      rw [stepped, Run.bind_done] at done
      exact @ih (s.after call e) done

/-- A list of events and watermarks. -/
theorem Lane.calls (lane : s.Lane display mark plans) {list : List Call}
    (streaming : ∀ call ∈ list, call ≠ .finish ∧ call ≠ .drain) {s' : Log}
    (done : Session.calls logBackend display list s = .done s') :
    s'.Lane display mark plans ∧ s'.clocks = s.clocks.map (fun clock => clock.run list) ∧
      ∀ key, s.Passes key → s'.Passes key ∧ s'.share display key = s.share display key := by
  induction list generalizing s with
  | nil =>
    cases done
    exact ⟨lane, (List.map_id _).symm, fun key passes => ⟨passes, rfl⟩⟩
  | cons call rest ih =>
    rw [List.forall_mem_cons] at streaming
    rw [Session.calls] at done
    cases stepped : s.engine.call logBackend display call with
    | failed fault e =>
      rw [stepped] at done
      cases done
    | done e =>
      rw [stepped] at done
      have clocks := (lane.isOpen.call streaming.1.1 stepped).2
      obtain ⟨last, moved, others⟩ := ih (lane.call streaming.1.1 streaming.1.2 stepped)
        streaming.2 done
      refine ⟨last, ?_, fun key passes => ?_⟩
      · rw [moved, clocks, List.map_map]
        rfl
      · obtain ⟨later, share⟩ := others key (passes.step clocks)
        exact ⟨later, share.trans ((lane.kept streaming.1.1 stepped).2 key passes)⟩

theorem Lane.passes_of_run (lane : s.Lane display mark plans) {c : Clock} (member : c ∈ s.clocks)
    {key : WindowKey} {list : List Call} (passes : (c.run list).Passes key)
    (le : key.stop ≤ mark c.plan) (positive : 0 < key.stop) : c.Passes key := by
  obtain ⟨ts, _, clocks, _, all⟩ := lane.pairs
  rw [clocks] at member
  obtain ⟨t, inside, rfl⟩ := List.mem_map.mp member
  exact (all t inside).passes_of_run passes le positive

/-- The mark at the last bucket of each clock. -/
def AtBack (mark : Plan → Nat) (s : Log) : Prop := ∀ c ∈ s.clocks, mark c.plan = c.back.getD 0

/-- What a drain leaves. -/
theorem Lane.drain (lane : s.Lane display mark plans) {mark' : Plan → Nat} (atBack : s.AtBack mark') :
    (s.after .drain s.engine.drained).Lane display mark' plans ∧
      (s.after .drain s.engine.drained).clocks = s.clocks ∧
      ∀ key, s.Passes key → (s.after .drain s.engine.drained).share display key = s.share display key := by
  have done : s.engine.call logBackend display .drain = .done s.engine.drained := rfl
  obtain ⟨samePlans, shares⟩ := lane.kept Call.drain_ne_finish done
  obtain ⟨_, moves, _⟩ := QueryEngine.call_done.mp done
  obtain ⟨ts, queries, histories, results, notes, all⟩ := exists_moves lane.keeps moves
  have clocks : s.clocks = ts.map (fun t => clockOf t.1 t.2.1) := by
    rw [Session.clocks, queries, histories, zipWith_map_same]
  refine ⟨⟨?_, samePlans, lane.names⟩, ?_, shares⟩
  · unfold Keeps Session.after
    simp only
    rw [notes, results, List.forall₂_map_left_iff, List.forall₂_map_right_iff, List.forall₂_same]
    intro t member
    obtain ⟨_, ledger, move⟩ := all t member
    refine ledger.drain (atBack (clockOf t.1 t.2.1) ?_) move
    exact clocks ▸ List.mem_map_of_mem member
  · rw [(lane.isOpen.call Call.drain_ne_finish done).2, clocks, List.map_map]
    exact List.map_congr_left fun t member => (all t member).2.1.streams.clock_drain

/-- What a lane hands out. -/
theorem Lane.output (lane : s.Lane display mark plans) {output : LogOutput}
    (waiting : output ∈ s.engine.takeWindowStates.1) :
    ∃ c ∈ s.clocks, c.Passes output.key ∧ mark c.plan < output.key.stop := by
  obtain ⟨ts, queries, clocks, _, all⟩ := lane.pairs
  obtain ⟨q, listed, waits⟩ := List.mem_flatMap.mp waiting
  rw [queries] at listed
  obtain ⟨t, member, rfl⟩ := List.mem_map.mp listed
  exact ⟨_, clocks ▸ List.mem_map_of_mem member, (all t member).output waits⟩

/-- Under a key that is passed and not yet handed out waits the lane's share. -/
theorem Lane.total (lane : s.Lane display mark plans) {key : WindowKey} {c : Clock}
    (member : c ∈ s.clocks) (passes : c.Passes key) (beyond : mark c.plan < key.stop) :
    totalFor key s.engine.takeWindowStates.1 = s.share display key ∧
      (s.share display key ≠ 0 → key ∈ s.engine.takeWindowStates.1.map QueryWindowState.key) := by
  obtain ⟨ts, queries, clocks, shares, all⟩ := lane.pairs
  have taken : s.engine.takeWindowStates.1 = ts.flatMap (fun t => outputs t.1) := by
    rw [QueryEngine.takeWindowStates, queries, List.flatMap_map]
    rfl
  rw [taken, shares]
  refine totalFor_gathered (fun t _ output waits => ?_) fun t inside named => ?_
  · obtain ⟨window, _, rfl⟩ := List.mem_map.mp waits
    rfl
  · have clock : clockOf t.1 t.2 ∈ s.clocks := clocks ▸ List.mem_map_of_mem inside
    obtain rfl := lane.clock_eq member clock (passes.name.trans named.symm)
    exact (all t inside).share_eq passes beyond

/-- The open buckets of each query, by their starts. -/
def openStarts (e : LogEngine) : List (String × List Nat) :=
  e.queries.map (fun q => (q.plan.query.name, q.buckets.map Bucket.startNanos))

theorem Lane.openStarts_eq (lane : s.Lane display mark plans) :
    openStarts s.engine = s.clocks.map (fun c => (c.plan.query.name, c.starts)) := by
  obtain ⟨ts, queries, clocks, _, all⟩ := lane.pairs
  rw [openStarts, queries, clocks, List.map_map, List.map_map]
  refine List.map_congr_left fun t member => ?_
  show (_, _) = (_, _)
  rw [(all t member).streams.starts]
  rfl

end Session

end FlowSketch.Source.Runtime
