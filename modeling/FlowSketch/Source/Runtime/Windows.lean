import FlowSketch.Source.Runtime.Observer
import FlowSketch.Source.Runtime.Timeline

/-!
# Window semantics

The notes of the observer determine a query: where its buckets are, what they hold and what each
emitted window holds.

`finish` computes the end of the trailing window by a plain addition. Where the last bucket ends past
the last word the sum wraps, and the window it emits has nothing to do with its events; every other
run of the engine has the semantics stated here.
-/

namespace FlowSketch.Source.Runtime
open Lib.Word64 Lib.SlidingLog Source.Core

abbrev LogEngine := QueryEngine (Multiset Update)

/-! ## What a timeline closes -/

/-- A window of at most `B` buckets, holding the log of its interval. -/
structure WindowState.Exact (plan : Plan) (log : List (Nat × Update))
    (window : WindowState (Multiset Update)) : Prop where
  state : window.state = within log window.windowStartNanos window.windowEndNanos
  nonempty : window.windowStartNanos < window.windowEndNanos
  width : window.windowEndNanos - window.windowStartNanos ≤ plan.windowBuckets * plan.slide

theorem windowOf_exact {plan : Plan} {log : List (Nat × Update)} {first : Nat} {s : Span}
    (valid : s.Valid plan.slide plan.windowBuckets first) :
    (windowOf plan.slide log s).Exact plan log := by
  have positive : 0 < s.count * plan.slide := Nat.mul_pos valid.positive plan.slide_pos
  have most := Nat.mul_le_mul_right plan.slide valid.bounded
  refine ⟨rfl, ?_, ?_⟩
  · simp only [windowOf, Span.stop]
    omega
  · simp only [windowOf, Span.stop]
    omega

namespace Timeline

/-- The start of the last bucket. -/
def backOf (plan : Plan) (t : Timeline) : Option Nat := t.span.map (fun opened => opened.2.back plan.slide)

/-- The trailing window would end within a word. -/
def InRange (plan : Plan) (t : Timeline) : Prop :=
  ∀ back ∈ t.backOf plan, back + plan.slide < modulus

end Timeline

theorem Tracks.backStart {q : LogQuery} {t : Timeline} (tracks : Tracks q t) :
    q.backStart = t.backOf q.plan := by
  unfold Tracks at tracks
  unfold Timeline.backOf
  split at tracks
  next none_open =>
    simp [RunningQuery.backStart, tracks.1, none_open]
  next first s opened =>
    rw [opened]
    exact OnLog.backStart tracks

/-- Closed windows hold the log of their interval. -/
theorem Tracks.closes_exact {q : LogQuery} {t : Timeline} (tracks : Tracks q t) {call : Call}
    (inRange : call = .finish → t.InRange q.plan) {window : WindowState (Multiset Update)}
    (closed : window ∈ t.closes q.plan call) : window.Exact q.plan t.log := by
  have moved : ∀ target, window ∈ t.closedBy q.plan target → window.Exact q.plan t.log := by
    intro target member
    unfold Timeline.closedBy at member
    unfold Tracks at tracks
    split at tracks
    next none_open => simp [none_open] at member
    next first s opened =>
      have on : OnLog q t.log first s := tracks
      simp only [opened] at member
      obtain ⟨i, _, rfl⟩ := mem_closings member
      exact windowOf_exact (on.valid.after i)
  cases call with
  | process event =>
    simp only [Timeline.closes] at closed
    split at closed
    · exact moved _ closed
    · cases closed
  | advanceTo ts => exact moved _ closed
  | drain => cases closed
  | finish =>
    simp only [Timeline.closes, Timeline.trailing] at closed
    unfold Tracks at tracks
    split at tracks
    next none_open => simp [none_open] at closed
    next first s opened =>
      have on : OnLog q t.log first s := tracks
      have fits := inRange rfl (s.back q.plan.slide) (by simp [Timeline.backOf, opened])
      simp only [opened, List.mem_singleton] at closed
      rw [wrappingAdd_of_lt fits, ← Span.stop_eq on.valid.positive] at closed
      subst closed
      exact windowOf_exact on.valid

@[simp] theorem backOf_moveTo (plan : Plan) (t : Timeline) (target : Nat) :
    (t.moveTo plan target).backOf plan = some ((t.spanAt plan target).2.back plan.slide) := rfl

theorem observe_span (plan : Plan) (t : Timeline) (ts : Nat) (update : Update) :
    (t.observe plan ts update).span = some (t.spanAt plan (Timeline.bucketOf plan ts)) := by
  unfold Timeline.observe
  split <;> rfl

@[simp] theorem backOf_observe (plan : Plan) (t : Timeline) (ts : Nat) (update : Update) :
    (t.observe plan ts update).backOf plan =
      some ((t.spanAt plan (Timeline.bucketOf plan ts)).2.back plan.slide) := by
  rw [Timeline.backOf, observe_span]
  rfl

/-- Time does not go back. -/
theorem Tracks.back_mono {q : LogQuery} {t : Timeline} (tracks : Tracks q t) {target back : Nat}
    (opened : back ∈ t.backOf q.plan) : back ≤ (t.spanAt q.plan target).2.back q.plan.slide := by
  unfold Tracks at tracks
  unfold Timeline.backOf at opened
  unfold Timeline.spanAt
  split at tracks
  next none_open => simp [none_open] at opened
  next first s some_open =>
    have on : OnLog q t.log first s := tracks
    simp only [some_open, Option.map_some, Option.mem_some_iff] at opened
    show back ≤ Span.back q.plan.slide (s.after _ _ _)
    rw [on.valid.after_back, ← opened]
    exact Nat.le_add_right _ _

/-- Moving on closes windows in the order of their ends, past the last bucket before the move and up
to the last bucket after it. -/
theorem Tracks.closedBy_ends {q : LogQuery} {t : Timeline} (tracks : Tracks q t) (target : Nat) :
    ((t.closedBy q.plan target).map WindowState.windowEndNanos).Pairwise (· < ·) ∧
    ∀ window ∈ t.closedBy q.plan target,
      (∀ back ∈ t.backOf q.plan, back < window.windowEndNanos) ∧
      window.windowEndNanos ≤ (t.spanAt q.plan target).2.back q.plan.slide := by
  have positive : 0 < q.plan.slide := q.plan.slide_pos
  unfold Tracks at tracks
  unfold Timeline.closedBy Timeline.backOf Timeline.spanAt
  split at tracks
  next none_open => simp [none_open]
  next first s some_open =>
    have on : OnLog q t.log first s := tracks
    simp only [some_open, Option.map_some, Option.mem_some_iff, forall_eq']
    refine ⟨?_, ?_⟩
    · rw [closings_ends]
      exact List.pairwise_lt_range' q.plan.slide positive
    · intro window member
      obtain ⟨i, inside, rfl⟩ := mem_closings member
      have stop : s.stop q.plan.slide = _ := Span.stop_eq on.valid.positive
      have passed : (i + 1) * q.plan.slide ≤ s.stepsTo q.plan.slide target * q.plan.slide :=
        Nat.mul_le_mul_right _ (by omega)
      rw [Nat.add_mul] at passed
      simp only [windowOf, Span.after_stop, on.valid.after_back]
      omega

/-- Every call closes windows in the order of their ends; only `finish` closes the last bucket. -/
theorem Tracks.closes_ends {q : LogQuery} {t : Timeline} (tracks : Tracks q t) (display : Ipv6Text)
    {call : Call} (inRange : call = .finish → t.InRange q.plan) :
    ((t.closes q.plan call).map WindowState.windowEndNanos).Pairwise (· < ·) ∧
    ∀ window ∈ t.closes q.plan call,
      (∀ back ∈ t.backOf q.plan, back < window.windowEndNanos) ∧
      (call ≠ .finish → ∃ back ∈ (t.after display q.plan call).backOf q.plan,
        window.windowEndNanos ≤ back) := by
  cases call with
  | process event =>
    obtain ⟨ordered, between⟩ := tracks.closedBy_ends (Timeline.bucketOf q.plan event.ts)
    simp only [Timeline.closes, Timeline.after]
    split
    · refine ⟨ordered, fun window member => ⟨(between window member).1, fun _ => ?_⟩⟩
      exact ⟨_, backOf_observe .., (between window member).2⟩
    · simp
  | advanceTo ts =>
    obtain ⟨ordered, between⟩ := tracks.closedBy_ends (Timeline.bucketOf q.plan ts.toNat)
    refine ⟨ordered, fun window member => ⟨(between window member).1, fun _ => ?_⟩⟩
    exact ⟨_, backOf_moveTo .., (between window member).2⟩
  | drain => simp [Timeline.closes]
  | finish =>
    have positive : 0 < q.plan.slide := q.plan.slide_pos
    have fits := inRange rfl
    unfold Timeline.InRange Timeline.backOf at fits
    simp only [Timeline.closes, Timeline.trailing, Timeline.backOf]
    cases opened : t.span with
    | none => simp
    | some span =>
      simp only [opened, Option.map_some, Option.mem_some_iff, forall_eq'] at fits
      simp [wrappingAdd_of_lt fits, positive]

/-! ## Queries and their notes -/

/-- What the window `[s, e)` of the noted events holds. -/
def updatesIn (display : Ipv6Text) (plan : Plan) (events : List FlowEvent) (s e : Nat) :
    Multiset Update :=
  ((events.filter (fun event => s ≤ event.ts ∧ event.ts < e)).map (updateOf display plan) :
    List Update)

/-- The open buckets, from the first bucket ever opened. -/
structure RingSemantics (q : LogQuery) (first : Option Nat) : Prop where
  opened : q.buckets = [] ↔ first = none
  bounded : q.buckets.length ≤ q.plan.windowBuckets
  consecutive : ∀ front ∈ q.frontStart, q.plan.slide ∣ front ∧
    q.buckets.map Bucket.startNanos = List.range' front q.buckets.length q.plan.slide
  front : ∀ front ∈ q.frontStart, ∀ back ∈ q.backStart, ∀ start ∈ first,
    front = max start (back - (q.plan.windowBuckets - 1) * q.plan.slide)

/-- The windows emitted so far, from the events taken in before each closed. -/
structure EmissionSemantics (display : Ipv6Text) (plan : Plan)
    (closed : List (WindowState (Multiset Update) × List FlowEvent)) : Prop where
  merged : ∀ entry ∈ closed, entry.1.state =
    updatesIn display plan entry.2 entry.1.windowStartNanos entry.1.windowEndNanos
  increasing : (closed.map (fun entry => entry.1.windowEndNanos)).Pairwise (· < ·)
  width : ∀ entry ∈ closed, entry.1.windowStartNanos < entry.1.windowEndNanos ∧
    entry.1.windowEndNanos - entry.1.windowStartNanos ≤ plan.windowBuckets * plan.slide

/-- A matching event is counted late or goes into the one bucket of its time. -/
def Placed (display : Ipv6Text) (event : FlowEvent) (q q' : LogQuery) : Prop :=
  q.plan.query.filter.matches event →
    ∃ moved, q.advanceToBucket logBackend (q.bucketStartFor event.ts) = .done moved ∧
    if moved.behind event then q' = { moved with lateEvents := wrappingAdd moved.lateEvents 1 }
    else ∃ i bucket, moved.buckets[i]? = some bucket ∧
      q' = { moved with buckets := (moved.buckets.set i
        { bucket with state := updateOf display q.plan event ::ₘ bucket.state }) } ∧
      ∀ j other, moved.buckets[j]? = some other →
        (other.startNanos ≤ event.ts ∧ event.ts < other.startNanos + q.plan.slide ↔ j = i)

/-- The trailing window ends within a word. -/
def FinishInRange {σ : Type} (q : RunningQuery σ) (call : Call) : Prop :=
  call = .finish → ∀ back ∈ q.backStart, back + q.plan.slide < modulus

/-! ## The invariant -/

/-- The query and the notes on it tell of one timeline. -/
structure Told (display : Ipv6Text) (finished : Bool) (q : LogQuery) (h : History (Multiset Update))
    (t : Timeline) : Prop where
  tracks : Tracks q t
  log : t.log = h.applied.map (fun event => (event.ts, updateOf display q.plan event))
  first : h.first = t.span.map Prod.fst
  emissions : EmissionSemantics display q.plan h.closed
  ends : finished = false → ∀ entry ∈ h.closed, ∃ back ∈ t.backOf q.plan,
    entry.1.windowEndNanos ≤ back

theorem within_applied (display : Ipv6Text) (plan : Plan) (events : List FlowEvent) (s e : Nat) :
    within (events.map (fun event => (event.ts, updateOf display plan event))) s e =
      updatesIn display plan events s e := by
  unfold within updatesIn
  rw [List.filter_map, List.map_map]
  rfl

theorem Tracks.frontStart {q : LogQuery} {t : Timeline} (tracks : Tracks q t) :
    q.frontStart = t.span.map (fun opened => opened.2.front) := by
  unfold Tracks at tracks
  unfold RunningQuery.frontStart
  split at tracks
  next none_open => simp [tracks.1, none_open]
  next first s some_open =>
    have on : OnLog q t.log first s := tracks
    obtain ⟨n, count⟩ := Nat.exists_eq_succ_of_ne_zero (Nat.pos_iff_ne_zero.mp on.valid.positive)
    rw [on.buckets, some_open, count]
    rfl

theorem Tracks.ringSemantics {q : LogQuery} {t : Timeline} (tracks : Tracks q t) :
    RingSemantics q (t.span.map Prod.fst) := by
  have front := tracks.frontStart
  have back := tracks.backStart
  unfold Tracks at tracks
  unfold Timeline.backOf at back
  split at tracks
  next none_open =>
    rw [none_open] at front ⊢
    refine ⟨by simp [tracks.1], by simp [tracks.1], ?_, ?_⟩ <;> simp [front]
  next first s some_open =>
    have on : OnLog q t.log first s := tracks
    have length : q.buckets.length = s.count := by rw [on.buckets, ring_length]
    have positive := on.valid.positive
    rw [some_open] at front back ⊢
    refine ⟨?_, ?_, ?_, ?_⟩
    · rw [← List.length_eq_zero_iff, length]
      simp
      omega
    · rw [length]
      exact on.valid.bounded
    · simp only [front, Option.map_some, Option.mem_some_iff, forall_eq', length]
      refine ⟨on.valid.multiple, ?_⟩
      rw [on.buckets, ring_starts]
    · simp only [front, back, Option.map_some, Option.mem_some_iff, forall_eq']
      exact on.valid.front_eq

theorem Tracks.after_back_mono {q : LogQuery} {t : Timeline} (tracks : Tracks q t)
    (display : Ipv6Text) (call : Call) {back : Nat} (opened : back ∈ t.backOf q.plan) :
    ∃ later ∈ (t.after display q.plan call).backOf q.plan, back ≤ later := by
  cases call with
  | process event =>
    simp only [Timeline.after]
    split
    · exact ⟨_, backOf_observe .., tracks.back_mono opened⟩
    · exact ⟨back, opened, Nat.le_refl back⟩
  | advanceTo ts => exact ⟨_, backOf_moveTo .., tracks.back_mono opened⟩
  | drain => exact ⟨back, opened, Nat.le_refl back⟩
  | finish => exact ⟨back, opened, Nat.le_refl back⟩

/-- The first bucket ever opened is the front of the first span. -/
theorem Timeline.after_first (display : Ipv6Text) (plan : Plan) (t : Timeline) (call : Call) :
    (t.after display plan call).span.map Prod.fst =
      (t.span.map Prod.fst).or ((t.after display plan call).span.map (fun opened => opened.2.front)) := by
  have moved : ∀ target, some (t.spanAt plan target).1 =
      (t.span.map Prod.fst).or (some (t.spanAt plan target).2.front) := by
    intro target
    unfold Timeline.spanAt
    cases t.span <;> simp
  have still : t.span.map Prod.fst =
      (t.span.map Prod.fst).or (t.span.map (fun opened => opened.2.front)) := by
    cases t.span <;> simp
  cases call with
  | process event =>
    simp only [Timeline.after]
    split
    · unfold Timeline.observe
      split <;> exact moved _
    · exact still
  | advanceTo ts => exact moved _
  | drain => exact still
  | finish => exact still

/-- The observer's notion of a late event is the timeline's. -/
theorem Called.log {display : Ipv6Text} {q q' : LogQuery} {t : Timeline} {call : Call}
    (called : Called display q t call q') :
    (t.after display q.plan call).log =
      t.log ++ (History.taken q' call).map (fun event => (event.ts, updateOf display q.plan event)) := by
  have front := called.tracks.frontStart
  cases call with
  | process event =>
    simp only [Timeline.after, History.taken, called.plan] at front ⊢
    by_cases matching : q.plan.query.filter.matches event = true
    · rw [if_pos matching] at front ⊢
      have behind : q'.behind event = decide (t.Late q.plan (Timeline.bucketOf q.plan event.ts)) := by
        unfold RunningQuery.behind
        rw [front, observe_span]
        simp only [RunningQuery.bucketStartFor, RunningQuery.slideNanos, called.plan]
        rfl
      by_cases late : t.Late q.plan (Timeline.bucketOf q.plan event.ts)
      · simp [behind, late, Timeline.observe, Timeline.moveTo]
      · simp [behind, late, matching, Timeline.observe]
    · simp [matching]
  | advanceTo ts => simp [Timeline.after, Timeline.moveTo, History.taken]
  | drain => simp [Timeline.after, History.taken]
  | finish => simp [Timeline.after, History.taken]

theorem Called.newlyEmitted {display : Ipv6Text} {q q' : LogQuery} {t : Timeline} {call : Call}
    (called : Called display q t call q') :
    q'.emitted.drop q.emitted.length = t.closes q.plan call := by
  rw [called.emitted]
  cases call <;> simp [Timeline.pending, Timeline.closes]

theorem EmissionSemantics.append {display : Ipv6Text} {q : LogQuery} {t : Timeline}
    {finished : Bool} {h : History (Multiset Update)} (told : Told display finished q h t)
    {call : Call} (open_ended : finished = true → call = .drain)
    (inRange : call = .finish → t.InRange q.plan) :
    EmissionSemantics display q.plan
      (h.closed ++ (t.closes q.plan call).map (fun window => (window, h.applied))) := by
  obtain ⟨merged, increasing, width⟩ := told.emissions
  obtain ⟨ordered, between⟩ := told.tracks.closes_ends display inRange
  refine ⟨?_, ?_, ?_⟩
  · intro entry member
    rcases List.mem_append.mp member with old | new
    · exact merged entry old
    · obtain ⟨window, closed, rfl⟩ := List.mem_map.mp new
      have exact_window := told.tracks.closes_exact inRange closed
      rw [exact_window.state, told.log, within_applied]
  · rw [List.map_append, List.map_map, List.pairwise_append]
    refine ⟨increasing, ordered, ?_⟩
    intro earlier old later new
    obtain ⟨entry, oldMember, rfl⟩ := List.mem_map.mp old
    obtain ⟨window, newMember, rfl⟩ := List.mem_map.mp new
    cases finished with
    | true =>
      rw [open_ended rfl] at newMember
      cases newMember
    | false =>
      obtain ⟨back, opened, before⟩ := told.ends rfl entry oldMember
      exact before.trans_lt ((between window newMember).1 back opened)
  · intro entry member
    rcases List.mem_append.mp member with old | new
    · exact width entry old
    · obtain ⟨window, closed, rfl⟩ := List.mem_map.mp new
      have exact_window := told.tracks.closes_exact inRange closed
      exact ⟨exact_window.nonempty, exact_window.width⟩

/-- Every call keeps the notes telling of the query's timeline. -/
theorem Told.call {display : Ipv6Text} {finished : Bool} {q q' : LogQuery} {t : Timeline}
    {h : History (Multiset Update)} (told : Told display finished q h t) {call : Call}
    (open_ended : finished = true → call = .drain) (inRange : FinishInRange q call)
    (passes : q.check call = .ok ()) (done : q.call logBackend display call = .done q') :
    Told display (finished || call.isFinish) q' (h.after call q q')
      (t.after display q.plan call) := by
  obtain ⟨reached, same, called⟩ := told.tracks.call display passes
  obtain rfl : reached = q' := Run.done.inj (same.symm.trans done)
  have range : call = .finish → t.InRange q.plan := by
    intro last back opened
    exact inRange last back (told.tracks.backStart ▸ opened)
  obtain ⟨_, between⟩ := told.tracks.closes_ends display range
  refine ⟨called.tracks, ?_, ?_, ?_, ?_⟩
  · rw [called.log, told.log, called.plan, History.after, List.map_append]
  · rw [History.after, told.first, called.tracks.frontStart, Timeline.after_first]
  · simp only [History.after, called.newlyEmitted, called.plan]
    exact EmissionSemantics.append told open_ended range
  · intro streaming entry member
    rw [Bool.or_eq_false_iff] at streaming
    rw [called.plan]
    simp only [History.after, called.newlyEmitted, List.mem_append, List.mem_map] at member
    rcases member with old | ⟨window, closed, rfl⟩
    · obtain ⟨back, opened, before⟩ := told.ends streaming.1 entry old
      obtain ⟨later, laterOpened, le⟩ := told.tracks.after_back_mono display call opened
      exact ⟨later, laterOpened, before.trans le⟩
    · refine (between window closed).2 ?_
      rintro rfl
      cases streaming.2

/-! ## The semantics of every run -/

/-- Multiples of the slide are apart by the slide. -/
theorem ring_bucket_of_time {slide front i j ts : Nat}
    (low : front + i * slide ≤ ts) (high : ts < front + i * slide + slide) :
    front + j * slide ≤ ts ∧ ts < front + j * slide + slide ↔ j = i := by
  constructor
  · rintro ⟨left, right⟩
    rcases Nat.lt_trichotomy j i with less | same | more
    · have apart := Nat.mul_le_mul_right slide (Nat.succ_le_of_lt less)
      rw [Nat.succ_mul] at apart
      omega
    · exact same
    · have apart := Nat.mul_le_mul_right slide (Nat.succ_le_of_lt more)
      rw [Nat.succ_mul] at apart
      omega
  · rintro rfl
    exact ⟨low, high⟩

theorem Tracks.placed {q q' : LogQuery} {t : Timeline} (tracks : Tracks q t) (display : Ipv6Text)
    {event : FlowEvent} (passes : q.ensureCanProcess event = .ok ())
    (done : q.process logBackend display event = .done q') : Placed display event q q' := by
  intro matching
  rw [RunningQuery.ensureCanProcess, if_pos matching] at passes
  have multiple := bucketOf_dvd q.plan event.ts
  obtain ⟨low, high⟩ := bucketOf_spec q.plan event.ts
  have reached := tracks.back_ge multiple
  obtain ⟨moved, advancing, ⟨movedTracks, plan, _, _⟩, processing⟩ :=
    tracks.process_eq display matching (check_room passes)
  refine ⟨moved, advancing, ?_⟩
  have front := movedTracks.frontStart
  obtain ⟨movedPlan, movedBuckets, movedEmitted, movedLate⟩ := moved
  obtain rfl : movedPlan = q.plan := plan
  have on : OnLog ⟨q.plan, movedBuckets, movedEmitted, movedLate⟩ t.log
      (t.spanAt q.plan (Timeline.bucketOf q.plan event.ts)).1
      (t.spanAt q.plan (Timeline.bucketOf q.plan event.ts)).2 := movedTracks
  have behind : RunningQuery.behind ⟨q.plan, movedBuckets, movedEmitted, movedLate⟩ event =
      decide (Timeline.bucketOf q.plan event.ts <
        (t.spanAt q.plan (Timeline.bucketOf q.plan event.ts)).2.front) := by
    unfold RunningQuery.behind
    rw [front]
    rfl
  rw [behind]
  rw [processing] at done
  generalize (t.spanAt q.plan (Timeline.bucketOf q.plan event.ts)).2 = span at on reached ⊢
  obtain rfl : movedBuckets = ring q.plan.slide t.log span.front span.count := on.buckets
  by_cases late : Timeline.bucketOf q.plan event.ts < span.front
  · rw [ring_findIdx?_none late] at done
    simp only [late, decide_true, if_true]
    exact (Run.done.inj done).symm
  · obtain ⟨i, inside, place⟩ :=
      Span.Valid.index on.valid q.plan.slide_pos multiple (Nat.le_of_not_lt late) reached
    have found := @ring_findIdx? _ q.plan.slide_pos t.log span.front _ _ inside
    have bucket := @ring_getElem? q.plan.slide t.log span.front _ _ inside
    simp only [late, decide_false, Bool.false_eq_true, if_false]
    rw [place] at done low high
    rw [show q.plan.query.window.slideNanos = q.plan.slide from rfl] at found
    rw [found] at done
    simp only [RunningQuery.applyAt, bucket, logBackend] at done
    refine ⟨i, _, bucket, (Run.done.inj done).symm, ?_⟩
    intro j other present
    have inRing : j < span.count := by
      have bound := (List.getElem?_eq_some_iff.mp present).1
      rwa [ring_length] at bound
    rw [ring_getElem? inRing, Option.some.injEq] at present
    rw [← present]
    exact ring_bucket_of_time low high

/-- The open buckets, where events go, what each window holds and how the windows follow each other,
for every query of a session. -/
structure Session.WindowSemantics (display : Ipv6Text) (plans : List Plan)
    (s : Session (Multiset Update)) : Prop where
  plans : s.engine.queries.map RunningQuery.plan = plans
  rings : List.Forall₂ (fun q h => RingSemantics q h.first) s.engine.queries s.histories
  placed : ∀ event engine, s.engine.process logBackend display event = .done engine →
    List.Forall₂ (Placed display event) s.engine.queries engine.queries
  emissions : List.Forall₂ (fun q h => EmissionSemantics display q.plan h.closed)
    s.engine.queries s.histories

/-- In every session in which `finish` stays within a word, every state reached has the window
semantics. -/
theorem session_window_semantics {display : Ipv6Text} {plans : List Plan}
    {s : Session (Multiset Update)}
    (reached : s.Reached logBackend display plans FinishInRange) :
    s.WindowSemantics display plans := by
  have invariant := Session.Reached.forall_queries
    (P := fun finished q h => ∃ t, Told display finished q h t) ?_ ?_ reached
  · obtain ⟨samePlans, told⟩ := invariant
    refine ⟨samePlans, ?_, ?_, ?_⟩
    · refine told.imp ?_
      rintro q h ⟨t, told⟩
      rw [told.first]
      exact told.tracks.ringSemantics
    · intro event engine done
      have called : s.engine.call logBackend display (.process event) = .done engine := done
      obtain ⟨checks, moves, _⟩ := QueryEngine.call_done.mp called
      refine Session.forall_moves told moves ?_
      rintro q member h q' ⟨t, told⟩ move
      exact told.tracks.placed display (checks q member) move
    · refine told.imp ?_
      rintro q h ⟨t, told⟩
      exact told.emissions
  · intro plan _
    refine ⟨Timeline.start, Tracks.start plan, rfl, rfl, ⟨?_, ?_, ?_⟩, ?_⟩ <;> simp [History.start]
  · rintro finished q h call q' ⟨t, told⟩ open_ended inRange passes done
    have stepped := told.call open_ended inRange passes done
    obtain ⟨reached, same, called⟩ := told.tracks.call display passes
    obtain rfl : reached = q' := Run.done.inj (same.symm.trans done)
    exact ⟨called.plan, _, stepped⟩

/-- Two buckets, a drain, a late event and the end of the stream. -/
theorem two_buckets_window_semantics :
    ∃ s : Session (Multiset Update),
      s.Reached logBackend Ipv6Text.expanded [Plan.slidingCounts] FinishInRange ∧
      s.histories.map (fun h => h.closed.map (fun entry => (entry.1.windowStartNanos,
        entry.1.windowEndNanos, entry.2.length))) = [[(20, 30, 1), (20, 40, 2)]] ∧
      s.WindowSemantics Ipv6Text.expanded [Plan.slidingCounts] := by
  have run : Session.Reached logBackend Ipv6Text.expanded [Plan.slidingCounts] FinishInRange _ :=
    .call .drain (.call .finish (.call (.process (.at 5)) (.call .drain
      (.call (.process (.at 31)) (.call (.process (.at 20)) (.start rfl)
        (fun ended => nomatch ended) (fun _ _ last => nomatch last) rfl)
        (fun ended => nomatch ended) (fun _ _ last => nomatch last) rfl)
        (fun ended => nomatch ended) (fun _ _ last => nomatch last) rfl)
        (fun ended => nomatch ended) (fun _ _ last => nomatch last) rfl)
        (fun ended => nomatch ended) (fun q member _ back opened => by
          obtain rfl := List.mem_singleton.mp member
          obtain rfl : 30 = back := Option.some.inj opened
          decide) rfl)
        (fun _ => rfl) (fun _ _ last => nomatch last) rfl
  exact ⟨_, run, rfl, session_window_semantics run⟩

/-- One event in the last bucket of the clock: `finish` emits the window `[2^64 - 6, 4)`, which holds
an event and covers no time. -/
theorem wrapped_finish_window :
    ¬∀ (display : Ipv6Text) (plans : List Plan) (s : Session (Multiset Update)),
      s.Reached logBackend display plans (fun _ _ => True) → s.WindowSemantics display plans := by
  intro claim
  have run : Session.Reached logBackend Ipv6Text.expanded [Plan.slidingCounts] (fun _ _ => True) _ :=
    .call .finish (.call (.process (.at 18446744073709551615)) (.start rfl)
      (fun ended => nomatch ended) (fun _ _ => trivial) rfl)
      (fun ended => nomatch ended) (fun _ _ => trivial) rfl
  cases (claim _ _ _ run).emissions with
  | cons head _ =>
    have lost := congrArg Multiset.card (head.merged _ (List.mem_singleton.mpr rfl))
    exact absurd lost (by decide)

end FlowSketch.Source.Runtime
