import FlowSketch.Source.Runtime.Windows

/-!
# Every window, emitted or skipped

While the stream is open, the windows of a query are fixed by the first bucket it opened: one ends at
every bucket boundary its last bucket passes. Most of them are emitted; the far-future path skips
some. Either way the window holds the updates of the events taken in before it closed, which for a
skipped window are none.
-/

namespace FlowSketch.Source.Runtime
open Lib.Word64 Lib.SlidingLog Source.Core

/-! ## Windows by their end -/

/-- The start of the window that ends at `stop`. -/
def windowStart (plan : Plan) (first stop : Nat) : Nat :=
  max first (stop - plan.windowBuckets * plan.slide)

theorem Span.Valid.front_windowStart {plan : Plan} {first : Nat} {s : Span}
    (valid : s.Valid plan.slide plan.windowBuckets first) :
    s.front = windowStart plan first (s.stop plan.slide) := by
  have front := valid.front_eq
  have stop : s.stop plan.slide = _ := Span.stop_eq valid.positive
  have split : plan.windowBuckets * plan.slide = (plan.windowBuckets - 1) * plan.slide + plan.slide := by
    rw [← Nat.succ_mul]
    have some_bucket := plan.buckets_pos
    congr 1
    omega
  unfold windowStart
  omega

theorem Tracks.closedBy_start {q : LogQuery} {t : Timeline} (tracks : Tracks q t) {target : Nat}
    {window : WindowState (Multiset Update)} (closed : window ∈ t.closedBy q.plan target) :
    window.windowStartNanos =
      windowStart q.plan (t.spanAt q.plan target).1 window.windowEndNanos := by
  unfold Timeline.closedBy at closed
  unfold Timeline.spanAt
  unfold Tracks at tracks
  split at tracks
  next none_open => simp [none_open] at closed
  next first s opened =>
    have on : OnLog q t.log first s := tracks
    simp only [opened] at closed ⊢
    obtain ⟨i, _, rfl⟩ := mem_closings closed
    exact Span.Valid.front_windowStart (on.valid.after i)

/-- A boundary that is passed without a window leaves nothing in it. -/
theorem Tracks.skips {q : LogQuery} {t : Timeline} (tracks : Tracks q t) {target stop : Nat}
    (multiple : q.plan.slide ∣ stop)
    (passed : stop ≤ (t.spanAt q.plan target).2.back q.plan.slide)
    (beyond : ∀ back ∈ t.backOf q.plan, back < stop)
    (skipped : ∀ window ∈ t.closedBy q.plan target, window.windowEndNanos ≠ stop) :
    within t.log (windowStart q.plan (t.spanAt q.plan target).1 stop) stop = 0 := by
  unfold Timeline.closedBy at skipped
  unfold Timeline.spanAt at passed ⊢
  unfold Timeline.backOf at beyond
  unfold Tracks at tracks
  split at tracks
  next none_open =>
    rw [tracks.2]
    exact within_nil _ _
  next first s opened =>
    have on : OnLog q t.log first s := tracks
    have positive : 0 < q.plan.slide := q.plan.slide_pos
    have stopEq : s.stop q.plan.slide = _ := Span.stop_eq on.valid.positive
    simp only [opened, Option.map_some, Option.mem_some_iff, forall_eq', on.valid.after_back]
      at passed beyond skipped ⊢
    -- the boundary is the end of the span after some number of slides
    obtain ⟨j, gap⟩ := Nat.dvd_sub multiple on.valid.back_dvd
    obtain ⟨i, rfl⟩ : ∃ i, j = i + 1 := by
      refine ⟨j - 1, ?_⟩
      rcases Nat.eq_zero_or_pos j with none_left | some_left
      · rw [none_left, Nat.mul_zero] at gap
        omega
      · omega
    rw [Nat.mul_comm, Nat.add_mul] at gap
    have boundary : stop = (s.after q.plan.slide q.plan.windowBuckets i).stop q.plan.slide := by
      rw [Span.after_stop]
      omega
    have far : q.plan.windowBuckets ≤ i := by
      by_contra near
      have few : i < s.stepsTo q.plan.slide target := by
        have short : (i + 1) * q.plan.slide ≤ s.stepsTo q.plan.slide target * q.plan.slide := by
          rw [Nat.add_mul]
          omega
        exact Nat.le_of_mul_le_mul_right short positive
      have ends := closings_ends q.plan.slide q.plan.windowBuckets t.log
        (min (s.stepsTo q.plan.slide target) q.plan.windowBuckets) s
      have listed : stop ∈ (closings q.plan.slide q.plan.windowBuckets t.log
          (min (s.stepsTo q.plan.slide target) q.plan.windowBuckets) s).map
          WindowState.windowEndNanos := by
        rw [ends, List.mem_range']
        refine ⟨i, by omega, ?_⟩
        rw [boundary, Span.after_stop, Nat.mul_comm]
      obtain ⟨window, member, same⟩ := List.mem_map.mp listed
      exact skipped window member same
    have past := on.valid.front_past far
    rw [boundary, ← Span.Valid.front_windowStart (on.valid.after i)]
    refine within_after (fun entry logged => ?_)
    have early := on.before entry logged
    omega

theorem Tracks.closes_start {q : LogQuery} {t : Timeline} (tracks : Tracks q t) (display : Ipv6Text)
    {call : Call} (streaming : call ≠ .finish) {window : WindowState (Multiset Update)}
    (closed : window ∈ t.closes q.plan call) {first : Nat}
    (opened : first ∈ (t.after display q.plan call).span.map Prod.fst) :
    window.windowStartNanos = windowStart q.plan first window.windowEndNanos := by
  cases call with
  | process event =>
    simp only [Timeline.closes, Timeline.after] at closed opened
    split at closed
    next matching =>
      rw [if_pos matching, observe_span, Option.map_some, Option.mem_some_iff] at opened
      rw [← opened]
      exact tracks.closedBy_start closed
    next => cases closed
  | advanceTo ts =>
    obtain rfl : _ = first := Option.some.inj opened
    exact tracks.closedBy_start closed
  | drain => cases closed
  | finish => exact absurd rfl streaming

theorem Tracks.closes_boundary {q : LogQuery} {t : Timeline} (tracks : Tracks q t) {call : Call}
    (streaming : call ≠ .finish) {window : WindowState (Multiset Update)}
    (closed : window ∈ t.closes q.plan call) : q.plan.slide ∣ window.windowEndNanos := by
  have moved : ∀ target, window ∈ t.closedBy q.plan target →
      q.plan.slide ∣ window.windowEndNanos := by
    intro target member
    unfold Timeline.closedBy at member
    unfold Tracks at tracks
    split at tracks
    next none_open => simp [none_open] at member
    next first s opened =>
      have on : OnLog q t.log first s := tracks
      simp only [opened] at member
      obtain ⟨i, _, rfl⟩ := mem_closings member
      have multiple := (on.valid.after i).multiple
      exact Nat.dvd_add multiple (Nat.dvd_mul_left _ _)
  cases call with
  | process event =>
    simp only [Timeline.closes] at closed
    split at closed
    · exact moved _ closed
    · cases closed
  | advanceTo ts => exact moved _ closed
  | drain => cases closed
  | finish => exact absurd rfl streaming

theorem Tracks.skips_call {q : LogQuery} {t : Timeline} (tracks : Tracks q t) (display : Ipv6Text)
    {call : Call} {stop : Nat} (multiple : q.plan.slide ∣ stop)
    (passed : ∃ back ∈ (t.after display q.plan call).backOf q.plan, stop ≤ back)
    (beyond : ∀ back ∈ t.backOf q.plan, back < stop)
    (skipped : ∀ window ∈ t.closes q.plan call, window.windowEndNanos ≠ stop) {first : Nat}
    (opened : first ∈ (t.after display q.plan call).span.map Prod.fst) :
    within t.log (windowStart q.plan first stop) stop = 0 := by
  obtain ⟨back, reached, le⟩ := passed
  cases call with
  | process event =>
    simp only [Timeline.closes, Timeline.after] at skipped opened reached
    by_cases matching : q.plan.query.filter.matches event = true
    · rw [if_pos matching] at skipped opened reached
      rw [observe_span, Option.map_some, Option.mem_some_iff] at opened
      rw [backOf_observe, Option.mem_some_iff] at reached
      rw [← opened]
      exact tracks.skips multiple (reached ▸ le) beyond skipped
    · rw [if_neg matching] at reached
      have before := beyond back reached
      omega
  | advanceTo ts =>
    obtain rfl : _ = first := Option.some.inj opened
    obtain rfl : _ = back := Option.some.inj reached
    exact tracks.skips multiple le beyond skipped
  | drain =>
    have before := beyond back reached
    omega
  | finish =>
    have before := beyond back reached
    omega

/-! ## Looking up when a window closed -/

section Lookup

variable {σ : Type} {moves : List (Option Nat × List FlowEvent)} {stop : Nat}

/-- Once passed, always passed at the same moment. -/
theorem find_passed (passed : ∃ move ∈ moves, ∃ b ∈ move.1, stop ≤ b)
    (more : List (Option Nat × List FlowEvent)) :
    ∃ move, moves.find? (fun move => move.1.any (stop ≤ ·)) = some move ∧
      (moves ++ more).find? (fun move => move.1.any (stop ≤ ·)) = some move := by
  obtain ⟨move, member, b, inside, le⟩ := passed
  rw [List.find?_append]
  cases found : moves.find? (fun move => move.1.any (stop ≤ ·)) with
  | some first => exact ⟨first, rfl, rfl⟩
  | none =>
    have missing := List.find?_eq_none.mp found move member
    simp only [Option.mem_def] at inside
    simp [inside, le] at missing

theorem find_not_passed (ahead : ∀ move ∈ moves, ∀ b ∈ move.1, b < stop) :
    moves.find? (fun move => move.1.any (stop ≤ ·)) = none := by
  rw [List.find?_eq_none]
  intro move member
  cases back : move.1 with
  | none => simp
  | some b =>
    have before := ahead move member b (by simp [back])
    simp
    omega

end Lookup

/-! ## The invariant of an open stream -/

/-- The notes on a query account for every window passed so far. -/
structure Accounted (display : Ipv6Text) (q : LogQuery) (h : History (Multiset Update))
    (t : Timeline) : Prop where
  told : Told display false q h t
  starts : ∀ entry ∈ h.closed, ∀ first ∈ h.first,
    entry.1.windowStartNanos = windowStart q.plan first entry.1.windowEndNanos
  boundaries : ∀ entry ∈ h.closed, q.plan.slide ∣ entry.1.windowEndNanos
  moved : ∀ move ∈ h.moves, ∀ b ∈ move.1, ∃ back ∈ t.backOf q.plan, b ≤ back
  reached : ∀ back ∈ t.backOf q.plan, ∃ move ∈ h.moves, move.1 = some back
  closing : ∀ entry ∈ h.closed, h.beforeClosing entry.1.windowEndNanos = entry.2
  skipped : ∀ stop, q.plan.slide ∣ stop → (∃ back ∈ t.backOf q.plan, stop ≤ back) →
    (∀ entry ∈ h.closed, entry.1.windowEndNanos ≠ stop) → ∀ first ∈ h.first,
    updatesIn display q.plan (h.beforeClosing stop) (windowStart q.plan first stop) stop = 0

theorem Accounted.start (display : Ipv6Text) (plan : Plan) :
    Accounted display (RunningQuery.new plan) History.start Timeline.start := by
  refine ⟨⟨Tracks.start plan, rfl, rfl, ⟨?_, ?_, ?_⟩, ?_⟩, ?_, ?_, ?_, ?_, ?_, ?_⟩ <;>
    simp [History.start, Timeline.start, Timeline.backOf]

section Step

variable {display : Ipv6Text} {q q' : LogQuery} {t : Timeline} {h : History (Multiset Update)}
  (accounted : Accounted display q h t)
include accounted

theorem Accounted.beforeClosing_passed (call : Call) {stop : Nat}
    (passed : ∃ back ∈ t.backOf q.plan, stop ≤ back) :
    (h.after call q q').beforeClosing stop = h.beforeClosing stop := by
  obtain ⟨back, opened, le⟩ := passed
  obtain ⟨move, member, same⟩ := accounted.reached back opened
  obtain ⟨first, before, after⟩ :=
    find_passed ⟨move, member, back, same, le⟩ [(q'.backStart, h.applied)]
  unfold History.beforeClosing
  simp only [History.after, before, after]

theorem Accounted.beforeClosing_now (call : Call) {stop : Nat}
    (ahead : ∀ back ∈ t.backOf q.plan, back < stop) (passed : ∃ back ∈ q'.backStart, stop ≤ back) :
    (h.after call q q').beforeClosing stop = h.applied := by
  obtain ⟨back, opened, le⟩ := passed
  have none_before : h.moves.find? (fun move => move.1.any (stop ≤ ·)) = none := by
    refine find_not_passed (fun move member b inside => ?_)
    obtain ⟨last, lastOpened, below⟩ := accounted.moved move member b inside
    exact below.trans_lt (ahead last lastOpened)
  simp only [Option.mem_def] at opened
  unfold History.beforeClosing
  simp only [History.after, List.find?_append, none_before, Option.none_or]
  simp [opened, le]

/-- The first bucket is noted once. -/
theorem Accounted.first_kept (call : Call) (opened : ∃ back, back ∈ t.backOf q.plan) :
    (h.after call q q').first = h.first := by
  obtain ⟨back, member⟩ := opened
  unfold Timeline.backOf at member
  have known := accounted.told.first
  cases span : t.span with
  | none => simp [span] at member
  | some first =>
    rw [span] at known
    simp [History.after, known]

end Step

/-- Every call of an open stream keeps the account. -/
theorem Accounted.call {display : Ipv6Text} {q q' : LogQuery} {t : Timeline}
    {h : History (Multiset Update)} (accounted : Accounted display q h t) {call : Call}
    (streaming : call ≠ .finish) (passes : q.check call = .ok ())
    (done : q.call logBackend display call = .done q') :
    Accounted display q' (h.after call q q') (t.after display q.plan call) := by
  have inRange : FinishInRange q call := fun last => absurd last streaming
  have told := accounted.told.call (fun ended => nomatch ended) inRange passes done
  have open_stream : (false || call.isFinish) = false := by
    cases call <;> first | rfl | exact absurd rfl streaming
  rw [open_stream] at told
  obtain ⟨result, same, called⟩ := accounted.told.tracks.call display passes
  obtain rfl : result = q' := Run.done.inj (same.symm.trans done)
  have samePlan := called.plan
  have back : result.backStart = (t.after display q.plan call).backOf q.plan := by
    rw [called.tracks.backStart, samePlan]
  obtain ⟨_, between⟩ := accounted.told.tracks.closes_ends display
    (fun last => absurd last streaming)
  have closed : (h.after call q result).closed =
      h.closed ++ (t.closes q.plan call).map (fun window => (window, h.applied)) := by
    simp only [History.after, called.newlyEmitted]
  have mono : ∀ b ∈ t.backOf q.plan, ∃ later ∈ (t.after display q.plan call).backOf q.plan,
      b ≤ later := fun b opened => accounted.told.tracks.after_back_mono display call opened
  refine ⟨told, ?_, ?_, ?_, ?_, ?_, ?_⟩
  · intro entry member first opened
    rw [closed] at member
    rw [samePlan]
    rcases List.mem_append.mp member with old | new
    · obtain ⟨b, inside, _⟩ := accounted.told.ends rfl entry old
      rw [accounted.first_kept call ⟨b, inside⟩] at opened
      exact accounted.starts entry old first opened
    · obtain ⟨window, emitted, rfl⟩ := List.mem_map.mp new
      rw [told.first] at opened
      exact accounted.told.tracks.closes_start display streaming emitted opened
  · intro entry member
    rw [closed] at member
    rw [samePlan]
    rcases List.mem_append.mp member with old | new
    · exact accounted.boundaries entry old
    · obtain ⟨window, emitted, rfl⟩ := List.mem_map.mp new
      exact accounted.told.tracks.closes_boundary streaming emitted
  · intro move member b inside
    rw [samePlan]
    rcases List.mem_append.mp member with old | new
    · obtain ⟨last, opened, le⟩ := accounted.moved move old b inside
      obtain ⟨later, laterOpened, further⟩ := mono last opened
      exact ⟨later, laterOpened, le.trans further⟩
    · obtain rfl := List.mem_singleton.mp new
      exact ⟨b, back ▸ inside, Nat.le_refl b⟩
  · intro b opened
    rw [samePlan, ← back] at opened
    exact ⟨_, List.mem_append_right _ List.mem_cons_self, opened⟩
  · intro entry member
    rw [closed] at member
    rcases List.mem_append.mp member with old | new
    · rw [accounted.beforeClosing_passed call (accounted.told.ends rfl entry old)]
      exact accounted.closing entry old
    · obtain ⟨window, emitted, rfl⟩ := List.mem_map.mp new
      refine accounted.beforeClosing_now call (between window emitted).1 ?_
      rw [back]
      exact (between window emitted).2 streaming
  · intro stop multiple passed unlisted first opened
    rw [samePlan] at multiple passed ⊢
    rw [closed] at unlisted
    by_cases before : ∃ b ∈ t.backOf q.plan, stop ≤ b
    · obtain ⟨b, inside, le⟩ := before
      rw [accounted.beforeClosing_passed call ⟨b, inside, le⟩]
      rw [accounted.first_kept call ⟨b, inside⟩] at opened
      exact accounted.skipped stop multiple ⟨b, inside, le⟩
        (fun entry old => unlisted entry (List.mem_append_left _ old)) first opened
    · have beyond : ∀ b ∈ t.backOf q.plan, b < stop := fun b inside =>
        Nat.lt_of_not_le (fun le => before ⟨b, inside, le⟩)
      rw [accounted.beforeClosing_now call beyond (back ▸ passed), ← within_applied,
        ← accounted.told.log]
      rw [told.first] at opened
      refine accounted.told.tracks.skips_call display multiple passed beyond ?_ opened
      intro window emitted same
      exact unlisted (window, h.applied)
        (List.mem_append_right _ (List.mem_map.mpr ⟨window, emitted, rfl⟩)) same

end FlowSketch.Source.Runtime
