import FlowSketch.Lib.Lists
import FlowSketch.Source.Runtime.Closing
import FlowSketch.Source.Runtime.Sharded

/-!
# The clocks of a shard

Where a query's buckets are depends on its clock only: the first bucket it opened and its last one.
The calls a shard makes for its part of a batch lie between the batch's earliest and latest
timestamps, and those two alone decide where the clock stands afterwards.
-/

namespace FlowSketch.Source.Runtime
open Lib.Word64 Lib.SlidingLog Lib.Lists Source.Core

/-! ## Clocks -/

structure Clock where
  plan : Plan
  first : Option Nat
  back : Option Nat

namespace Clock

/-- The last bucket after a call. -/
def backAfter (plan : Plan) (back : Option Nat) : Call → Option Nat
  | .process event =>
    if plan.query.filter.matches event then
      some (max (back.getD 0) (Timeline.bucketOf plan event.ts))
    else back
  | .advanceTo ts => some (max (back.getD 0) (Timeline.bucketOf plan ts.toNat))
  | .drain => back
  | .finish => back

def step (c : Clock) (call : Call) : Clock where
  plan := c.plan
  first := c.first.or (backAfter c.plan c.back call)
  back := backAfter c.plan c.back call

def run (c : Clock) (calls : List Call) : Clock := calls.foldl step c

theorem bucketOf_mono (plan : Plan) {a b : Nat} (le : a ≤ b) :
    Timeline.bucketOf plan a ≤ Timeline.bucketOf plan b := by
  have splitA := Nat.div_add_mod a plan.slide
  have splitB := Nat.div_add_mod b plan.slide
  have quotient := Nat.mul_le_mul_left plan.slide (Nat.div_le_div_right (c := plan.slide) le)
  unfold Timeline.bucketOf
  omega

/-- Events between two timestamps leave no trace in the clock once the later one is reached. -/
theorem run_events {c : Clock} {f b high : Nat} (first : c.first = some f) (back : c.back = some b)
    {events : List FlowEvent} (bounded : ∀ event ∈ events, event.ts ≤ high) :
    ∃ later, b ≤ later ∧ later ≤ max b (Timeline.bucketOf c.plan high) ∧
      c.run (events.map Call.process) = { plan := c.plan, first := some f, back := some later } := by
  induction events generalizing c b with
  | nil =>
    obtain ⟨plan, _, _⟩ := c
    obtain rfl : _ = some f := first
    obtain rfl : _ = some b := back
    exact ⟨b, Nat.le_refl b, Nat.le_max_left .., rfl⟩
  | cons event rest ih =>
    have below := bucketOf_mono c.plan (bounded event List.mem_cons_self)
    have others : ∀ event ∈ rest, event.ts ≤ high :=
      fun event member => bounded event (List.mem_cons_of_mem _ member)
    obtain ⟨next, low, up, backNext⟩ : ∃ next, b ≤ next ∧
        next ≤ max b (Timeline.bucketOf c.plan high) ∧ (c.step (.process event)).back = some next := by
      simp only [step, backAfter, back, Option.getD_some]
      split
      · exact ⟨_, Nat.le_max_left .., by omega, rfl⟩
      · exact ⟨b, Nat.le_refl b, Nat.le_max_left .., rfl⟩
    have firstNext : (c.step (.process event)).first = some f := by simp [step, first]
    obtain ⟨later, fromNext, toHigh, reached⟩ := ih firstNext backNext others
    refine ⟨later, low.trans fromNext, toHigh.trans ?_, reached⟩
    show max next (Timeline.bucketOf c.plan high) ≤ _
    omega

/-- Where the clock stands after a lane, whatever events the lane had. -/
theorem run_lane (c : Clock) (low : UInt64) {high : UInt64} {events : List FlowEvent}
    (bounded : ∀ event ∈ events, event.ts ≤ high.toNat) (ordered : low.toNat ≤ high.toNat) :
    c.run (.advanceTo low :: events.map Call.process ++ [.advanceTo high]) =
      { plan := c.plan
        first := c.first.or (some (max (c.back.getD 0) (Timeline.bucketOf c.plan low.toNat)))
        back := some (max (c.back.getD 0) (Timeline.bucketOf c.plan high.toNat)) } := by
  have below := bucketOf_mono c.plan ordered
  obtain ⟨f, first⟩ : ∃ f, (c.step (.advanceTo low)).first = some f := by
    cases start : c.first <;> simp [step, backAfter, start]
  obtain ⟨later, from_low, to_high, reached⟩ :=
    run_events (c := c.step (.advanceTo low)) first rfl bounded
  have middle : c.run (.advanceTo low :: events.map Call.process) =
      { plan := c.plan, first := some f, back := some later } := reached
  unfold run at middle ⊢
  rw [List.foldl_append, middle]
  simp only [List.foldl_cons, List.foldl_nil, step, backAfter, Option.getD_some, Option.some_or,
    mk.injEq, true_and, Option.some.injEq]
  refine ⟨first.symm, ?_⟩
  simp only [step] at to_high
  omega

end Clock

/-! ## Batches -/

theorem batchStart_le {batches : List (List FlowEvent)} {low : UInt64}
    (start : batchStart batches = some low) {batch : List FlowEvent} (lane : batch ∈ batches)
    {event : FlowEvent} (member : event ∈ batch) : low.toNat ≤ event.ts := by
  have least := (List.min?_eq_some_iff.mp start).2 event.tsNanos
    (List.mem_map.mpr ⟨event, List.mem_flatten.mpr ⟨batch, lane, member⟩, rfl⟩)
  exact UInt64.le_iff_toNat_le.mp least

theorem le_watermark {batches : List (List FlowEvent)} {high : UInt64}
    (mark : watermark batches = some high) {batch : List FlowEvent} (lane : batch ∈ batches)
    {event : FlowEvent} (member : event ∈ batch) : event.ts ≤ high.toNat := by
  have most := (List.max?_eq_some_iff.mp mark).2 event.tsNanos
    (List.mem_map.mpr ⟨event, List.mem_flatten.mpr ⟨batch, lane, member⟩, rfl⟩)
  exact UInt64.le_iff_toNat_le.mp most

/-- Every lane of a batch moves a clock to the same place. -/
theorem Clock.run_laneCalls (c : Clock) {batches : List (List FlowEvent)} {left right : List FlowEvent}
    (leftLane : left ∈ batches) (rightLane : right ∈ batches) :
    c.run (laneCalls batches left) = c.run (laneCalls batches right) := by
  unfold laneCalls
  cases start : batchStart batches with
  | none =>
    have empty : ∀ batch ∈ batches, batch = [] := by
      rw [batchStart, List.min?_eq_none_iff, List.map_eq_nil_iff, List.flatten_eq_nil_iff] at start
      exact start
    rw [empty left leftLane, empty right rightLane]
  | some low =>
    obtain ⟨high, mark⟩ : ∃ high, watermark batches = some high := by
      cases mark : watermark batches with
      | some high => exact ⟨high, rfl⟩
      | none =>
        rw [watermark, List.max?_eq_none_iff] at mark
        rw [batchStart, mark] at start
        cases start
    have ordered : low.toNat ≤ high.toNat := by
      obtain ⟨event, member, same⟩ := List.mem_map.mp (List.min?_mem start)
      obtain ⟨batch, lane, inside⟩ := List.mem_flatten.mp member
      have bound := le_watermark mark lane inside
      rw [← same]
      exact bound
    simp only [mark, Option.map_some, Option.toList_some]
    have leftEnd := c.run_lane low (fun event member => le_watermark mark leftLane member) ordered
    have rightEnd := c.run_lane low (fun event member => le_watermark mark rightLane member) ordered
    exact leftEnd.trans rightEnd.symm

/-! ## The clocks of a session -/

theorem Tracks.spanAt_back {q : LogQuery} {t : Timeline} (tracks : Tracks q t) {target : Nat}
    (multiple : q.plan.slide ∣ target) :
    (t.spanAt q.plan target).2.back q.plan.slide = max ((t.backOf q.plan).getD 0) target := by
  unfold Timeline.spanAt Timeline.backOf
  unfold Tracks at tracks
  split at tracks
  next none_open => simp [none_open, Span.back]
  next first s opened =>
    have on : OnLog q t.log first s := tracks
    simp only [opened, Option.map_some, Option.getD_some, on.valid.after_back]
    rcases Nat.le_total (s.back q.plan.slide) target with ahead | behind
    · have reaches := on.valid.stepsTo_reaches multiple ahead
      omega
    · rw [Span.stepsTo_behind behind]
      omega

theorem Tracks.back_after {q : LogQuery} {t : Timeline} (tracks : Tracks q t) (display : Ipv6Text)
    (call : Call) :
    (t.after display q.plan call).backOf q.plan = Clock.backAfter q.plan (t.backOf q.plan) call := by
  cases call with
  | process event =>
    simp only [Timeline.after, Clock.backAfter]
    split
    · rw [backOf_observe, tracks.spanAt_back (bucketOf_dvd q.plan event.ts)]
    · rfl
  | advanceTo ts =>
    simp only [Timeline.after, Clock.backAfter]
    rw [backOf_moveTo, tracks.spanAt_back (bucketOf_dvd q.plan ts.toNat)]
  | drain => rfl
  | finish => rfl

/-- A query opens where its clock says. -/
theorem Timeline.opens_after (t : Timeline) (plan : Plan) (display : Ipv6Text) (call : Call) :
    (t.after display plan call).span.map Prod.fst =
      (t.span.map Prod.fst).or (Clock.backAfter plan (t.backOf plan) call) := by
  rw [Timeline.after_first]
  cases opened : t.span with
  | some first => simp
  | none =>
    have fresh : ∀ target, (t.spanAt plan target).2.front = target := by
      intro target
      simp [Timeline.spanAt, opened]
    have back : t.backOf plan = none := by simp [Timeline.backOf, opened]
    simp only [Option.map_none, Option.none_or, back]
    cases call with
    | process event =>
      simp only [Timeline.after, Clock.backAfter, Option.getD_none, Nat.zero_max]
      split
      · simp [observe_span, fresh]
      · simp [opened]
    | advanceTo ts => simp [Timeline.after, Timeline.moveTo, Clock.backAfter, fresh]
    | drain => simp [Timeline.after, opened, Clock.backAfter]
    | finish => simp [Timeline.after, opened, Clock.backAfter]

def clockOf (q : LogQuery) (h : History (Multiset Update)) : Clock where
  plan := q.plan
  first := h.first
  back := q.backStart

/-- A query of an open stream, as told by its notes. -/
def Streams (display : Ipv6Text) (q : LogQuery) (h : History (Multiset Update)) : Prop :=
  ∃ t, Accounted display q h t

theorem Streams.call {display : Ipv6Text} {q q' : LogQuery} {h : History (Multiset Update)}
    (streams : Streams display q h) {call : Call} (streaming : call ≠ .finish)
    (passes : q.check call = .ok ()) (done : q.call logBackend display call = .done q') :
    Streams display q' (h.after call q q') ∧
      clockOf q' (h.after call q q') = (clockOf q h).step call := by
  obtain ⟨t, accounted⟩ := streams
  have after := accounted.call streaming passes done
  obtain ⟨result, same, called⟩ := accounted.told.tracks.call display passes
  obtain rfl : result = q' := Run.done.inj (same.symm.trans done)
  refine ⟨⟨_, after⟩, ?_⟩
  have tracks := accounted.told.tracks
  have back : result.backStart = Clock.backAfter q.plan q.backStart call := by
    rw [after.told.tracks.backStart, called.plan, tracks.back_after, tracks.backStart]
  have first : (h.after call q result).first =
      h.first.or (Clock.backAfter q.plan q.backStart call) := by
    rw [after.told.first, Timeline.opens_after, accounted.told.first, tracks.backStart]
  simp only [clockOf, Clock.step, back, first, called.plan]

namespace Session

abbrev Log := Session (Multiset Update)

def clocks (s : Log) : List Clock := List.zipWith clockOf s.engine.queries s.histories

/-- Every query of the session streams. -/
def Open (display : Ipv6Text) (s : Log) : Prop :=
  List.Forall₂ (Streams display) s.engine.queries s.histories

theorem Open.start (display : Ipv6Text) (plans : List Plan) {engine : LogEngine}
    (built : QueryEngine.new logBackend plans = .ok engine) :
    (Session.start engine).Open display ∧
      (Session.start engine).clocks = plans.map (fun plan => { plan, first := none, back := none }) := by
  obtain ⟨_, _, rfl⟩ := QueryEngine.new_ok.mp built
  unfold Open clocks
  simp only [Session.start, List.map_map]
  constructor
  · rw [List.forall₂_map_left_iff, List.forall₂_map_right_iff, List.forall₂_same]
    exact fun plan _ => ⟨Timeline.start, Accounted.start display plan⟩
  · rw [List.zipWith_map_left, List.zipWith_map_right, List.zipWith_self]
    rfl

theorem Open.call {display : Ipv6Text} {s : Log} (isOpen : s.Open display) {call : Call}
    (streaming : call ≠ .finish) {engine : LogEngine}
    (done : s.engine.call logBackend display call = .done engine) :
    (s.after call engine).Open display ∧
      (s.after call engine).clocks = s.clocks.map (fun clock => clock.step call) := by
  obtain ⟨checks, moves, _⟩ := QueryEngine.call_done.mp done
  obtain ⟨ts, queries, histories, results, notes, all⟩ := exists_moves isOpen moves
  have stepped : ∀ t ∈ ts, Streams display t.2.2 (t.2.1.after call t.1 t.2.2) ∧
      clockOf t.2.2 (t.2.1.after call t.1 t.2.2) = (clockOf t.1 t.2.1).step call := by
    intro t member
    obtain ⟨inside, streams, move⟩ := all t member
    exact streams.call streaming (checks t.1 inside) move
  constructor
  · unfold Open Session.after
    simp only
    rw [notes, results, List.forall₂_map_left_iff, List.forall₂_map_right_iff, List.forall₂_same]
    exact fun t member => (stepped t member).1
  · unfold clocks Session.after
    simp only
    rw [notes, results, queries, histories, zipWith_map_same, zipWith_map_same, List.map_map]
    exact List.map_congr_left (fun t member => (stepped t member).2)

end Session

end FlowSketch.Source.Runtime
