import FlowSketch.Source.Runtime.Advance
import FlowSketch.Source.Runtime.Calls

/-!
# What a query is for

A `Timeline` is the query without its machinery: the log of the updates it applied, and the span of
buckets still open together with the first bucket it ever opened. Moving it to a later bucket closes
windows; an observation is logged unless its bucket has left the span. The running query over
`logBackend` follows its timeline through every call that has room for the windows it closes.
-/

namespace FlowSketch.Source.Runtime
open Lib.Word64 Lib.SlidingLog Source.Core

structure Timeline where
  log : List (Nat × Update)
  span : Option (Nat × Span)

namespace Timeline

def start : Timeline := { log := [], span := none }

variable (plan : Plan)

/-- The first bucket and the span after time has moved to the bucket at `target`. -/
def spanAt (t : Timeline) (target : Nat) : Nat × Span :=
  match t.span with
  | none => (target, { front := target, count := 1 })
  | some (first, s) => (first, s.after plan.slide plan.windowBuckets (s.stepsTo plan.slide target))

def moveTo (t : Timeline) (target : Nat) : Timeline := { t with span := some (t.spanAt plan target) }

/-- The windows closed by moving to `target`, the empty ones past a whole ring left out. -/
def closedBy (t : Timeline) (target : Nat) : List (WindowState (Multiset Update)) :=
  match t.span with
  | none => []
  | some (_, s) => closings plan.slide plan.windowBuckets t.log
    (min (s.stepsTo plan.slide target) plan.windowBuckets) s

/-- The observation comes too late: its bucket is no longer open. -/
def Late (t : Timeline) (target : Nat) : Prop := target < (t.spanAt plan target).2.front

instance (t : Timeline) (target : Nat) : Decidable (t.Late plan target) :=
  inferInstanceAs (Decidable (_ < _))

def bucketOf (ts : Nat) : Nat := ts - ts % plan.slide

def observe (t : Timeline) (ts : Nat) (update : Update) : Timeline :=
  if t.Late plan (bucketOf plan ts) then t.moveTo plan (bucketOf plan ts)
  else { t.moveTo plan (bucketOf plan ts) with log := t.log ++ [(ts, update)] }

end Timeline

/-- The query's buckets are those of the timeline. -/
def Tracks (q : LogQuery) (t : Timeline) : Prop :=
  match t.span with
  | none => q.buckets = [] ∧ t.log = []
  | some (first, s) => OnLog q t.log first s

theorem Tracks.start (plan : Plan) : Tracks (RunningQuery.new plan) Timeline.start := ⟨rfl, rfl⟩

/-- What was emitted and what was dropped does not matter. -/
theorem Tracks.congr {q q' : LogQuery} {t : Timeline} (tracks : Tracks q t) (plan : q'.plan = q.plan)
    (buckets : q'.buckets = q.buckets) : Tracks q' t := by
  unfold Tracks at tracks ⊢
  split at tracks
  next => exact ⟨buckets.trans tracks.1, tracks.2⟩
  next =>
    obtain ⟨ring, valid, before, back⟩ := tracks
    rw [← plan] at ring valid before back
    exact ⟨buckets.trans ring, valid, before, back⟩

theorem bucketOf_dvd (plan : Plan) (ts : Nat) : plan.slide ∣ Timeline.bucketOf plan ts := by
  have split := Nat.div_add_mod ts plan.slide
  refine ⟨ts / plan.slide, ?_⟩
  unfold Timeline.bucketOf
  omega

theorem bucketOf_spec (plan : Plan) (ts : Nat) :
    Timeline.bucketOf plan ts ≤ ts ∧ ts < Timeline.bucketOf plan ts + plan.slide := by
  have less := Nat.mod_lt ts plan.slide_pos
  have most := Nat.mod_le ts plan.slide
  unfold Timeline.bucketOf Plan.slide at *
  omega

/-- The call left the query on its moved timeline and appended the closed windows. -/
structure MovedTo (q : LogQuery) (t : Timeline) (target : Nat) (q' : LogQuery) : Prop where
  tracks : Tracks q' (t.moveTo q.plan target)
  plan : q'.plan = q.plan
  emitted : q'.emitted = q.emitted ++ t.closedBy q.plan target
  late : q'.lateEvents = q.lateEvents

theorem Tracks.windowsClosed {q : LogQuery} {t : Timeline} (tracks : Tracks q t) (target : Nat) :
    q.windowsClosedByAdvance target = (t.closedBy q.plan target).length := by
  unfold Tracks at tracks
  unfold Timeline.closedBy
  split at tracks
  next =>
    simp [RunningQuery.windowsClosedByAdvance, RunningQuery.backStart, tracks.1]
  next =>
    rw [closings_length]
    exact windowsClosedByAdvance_onLog tracks target

theorem Tracks.advance {q : LogQuery} {t : Timeline} (tracks : Tracks q t) {target : Nat}
    (multiple : q.plan.slide ∣ target) (fits : target < modulus)
    (room : Fits q (q.windowsClosedByAdvance target)) :
    ∃ q', q.advanceToBucket logBackend target = .done q' ∧ MovedTo q t target q' := by
  have some_bucket := q.plan.buckets_pos
  cases span : t.span with
  | none =>
    simp only [Tracks, span] at tracks
    obtain ⟨empty, nothing⟩ := tracks
    have back : q.backStart = none := by simp [RunningQuery.backStart, empty]
    refine ⟨{ q with buckets := [freshBucket target] }, ?_, ?_, rfl, ?_, rfl⟩
    · unfold RunningQuery.advanceToBucket RunningQuery.ensureCanAdvance
      rw [ensureEmitCapacity_eq, if_pos room, Run.attempt_ok, back]
      simp only [newBucket_log, Run.attempt_ok, empty, List.nil_append]
    · simp only [Tracks, Timeline.moveTo, Timeline.spanAt, span]
      refine ⟨?_, ⟨by simp, ?_, multiple, Nat.le_refl _, Or.inr rfl⟩, ?_, ?_⟩
      · simp [ring, nothing, freshBucket]
      · exact some_bucket
      · simp [nothing]
      · simpa [Span.back] using fits
    · simp [Timeline.closedBy, span]
  | some opened =>
    obtain ⟨first, s⟩ := opened
    simp only [Tracks, span] at tracks
    have on : OnLog q t.log first s := tracks
    rw [windowsClosedByAdvance_onLog on] at room
    refine ⟨_, advanceToBucket_onLog on multiple fits room, ?_, rfl, ?_, rfl⟩
    · simp only [Tracks, Timeline.moveTo, Timeline.spanAt, span]
      refine on.advanced _ _ ?_
      rcases Nat.le_total (s.back q.plan.slide) target with ahead | behind
      · rw [← on.valid.stepsTo_reaches multiple ahead]
        exact fits
      · rw [Span.stepsTo_behind behind, Nat.zero_mul, Nat.add_zero]
        exact on.back_lt
    · simp only [advanced, Timeline.closedBy, span]

theorem Tracks.advance_iff {q : LogQuery} {t : Timeline} (tracks : Tracks q t) {target : Nat}
    (multiple : q.plan.slide ∣ target) (fits : target < modulus) :
    Fits q (q.windowsClosedByAdvance target) ↔ ∃ q', q.advanceToBucket logBackend target = .done q' := by
  constructor
  · intro room
    obtain ⟨q', done, _⟩ := tracks.advance multiple fits room
    exact ⟨q', done⟩
  · rintro ⟨q', done⟩
    by_contra full
    rw [advanceToBucket_blocked full] at done
    cases done

/-! ## Observations -/

theorem ring_findIdx? {slide : Nat} (positive : 0 < slide) {log : List (Nat × Update)}
    {front count i : Nat} (inside : i < count) :
    (ring slide log front count).findIdx? (fun bucket => bucket.startNanos = front + i * slide) =
      some i := by
  induction count generalizing front i with
  | zero => exact absurd inside (Nat.not_lt_zero i)
  | succ count ih =>
    rw [ring, List.findIdx?_cons]
    cases i with
    | zero => simp
    | succ i =>
      have shift : front + (i + 1) * slide = front + slide + i * slide := by
        rw [Nat.add_mul]
        omega
      have apart : front ≠ front + slide + i * slide := by omega
      rw [shift]
      simp only [apart, decide_false, Bool.false_eq_true, ↓reduceIte]
      rw [ih (by omega)]
      rfl

theorem ring_findIdx?_none {slide : Nat} {log : List (Nat × Update)} {front count target : Nat}
    (early : target < front) :
    (ring slide log front count).findIdx? (fun bucket => bucket.startNanos = target) = none := by
  induction count generalizing front with
  | zero => rfl
  | succ count ih =>
    have apart : front ≠ target := by omega
    rw [ring, List.findIdx?_cons]
    simp only [apart, decide_false, Bool.false_eq_true, ↓reduceIte]
    rw [ih (by omega)]
    rfl

/-- A bucket of the span holds the observation. -/
theorem OnLog.applyAt {q : LogQuery} {log : List (Nat × Update)} {first : Nat} {s : Span}
    (on : OnLog q log first s) {i ts : Nat} (inside : i < s.count)
    (low : s.front + i * q.plan.slide ≤ ts)
    (high : ts < s.front + i * q.plan.slide + q.plan.slide) (update : Update) :
    q.applyAt logBackend i update = .done { q with
        buckets := ring q.plan.slide (log ++ [(ts, update)]) s.front s.count } ∧
      OnLog { q with buckets := ring q.plan.slide (log ++ [(ts, update)]) s.front s.count }
        (log ++ [(ts, update)]) first s := by
  constructor
  · unfold RunningQuery.applyAt
    rw [on.buckets, ring_getElem? inside]
    simp only [logBackend]
    rw [ring_apply inside low high]
  · refine ⟨rfl, on.valid, ?_, on.back_lt⟩
    intro entry member
    rcases List.mem_append.mp member with old | new
    · exact on.before entry old
    · obtain rfl := List.mem_singleton.mp new
      have within_span : (i + 1) * q.plan.slide ≤ s.count * q.plan.slide :=
        Nat.mul_le_mul_right _ (by omega)
      rw [Nat.add_mul] at within_span
      show ts < s.front + s.count * q.plan.slide
      omega

/-- Where an observation goes: counted late, or logged. -/
structure Observed (q : LogQuery) (t : Timeline) (ts : Nat) (update : Update) (q' : LogQuery) :
    Prop where
  tracks : Tracks q' (t.observe q.plan ts update)
  plan : q'.plan = q.plan
  emitted : q'.emitted = q.emitted ++ t.closedBy q.plan (Timeline.bucketOf q.plan ts)
  late : q'.lateEvents =
    if t.Late q.plan (Timeline.bucketOf q.plan ts) then wrappingAdd q.lateEvents 1
    else q.lateEvents

theorem Span.Valid.index {slide buckets first : Nat} {s : Span} (valid : s.Valid slide buckets first)
    (positive : 0 < slide) {target : Nat} (multiple : slide ∣ target) (low : s.front ≤ target)
    (high : target ≤ s.back slide) : ∃ i, i < s.count ∧ target = s.front + i * slide := by
  obtain ⟨i, gap⟩ := Nat.dvd_sub multiple valid.multiple
  refine ⟨i, ?_, by rw [Nat.mul_comm] at gap; omega⟩
  by_contra outside
  have beyond : s.count * slide ≤ i * slide := Nat.mul_le_mul_right _ (by omega)
  have stop : s.stop slide = _ := Span.stop_eq valid.positive
  unfold Span.stop at stop
  rw [Nat.mul_comm] at gap
  omega

theorem Tracks.back_ge {q : LogQuery} {t : Timeline} (tracks : Tracks q t) {target : Nat}
    (multiple : q.plan.slide ∣ target) :
    target ≤ (t.spanAt q.plan target).2.back q.plan.slide := by
  unfold Timeline.spanAt
  unfold Tracks at tracks
  split at tracks
  next => exact Nat.le_add_right _ _
  next _ first s _ =>
    have on : OnLog q t.log first s := tracks
    show target ≤ Span.back q.plan.slide (s.after _ _ _)
    rw [on.valid.after_back]
    rcases Nat.le_total (s.back q.plan.slide) target with ahead | behind
    · exact (on.valid.stepsTo_reaches multiple ahead).le
    · omega

/-- The lookup after the advance finds the bucket of the observation unless it has left the ring. -/
theorem OnLog.place {q : LogQuery} {log : List (Nat × Update)} {first : Nat} {s : Span}
    (on : OnLog q log first s) {bucket ts : Nat} (multiple : q.plan.slide ∣ bucket)
    (reached : bucket ≤ s.back q.plan.slide) (low : bucket ≤ ts) (high : ts < bucket + q.plan.slide)
    (update : Update) :
    ∃ q', (match q.buckets.findIdx? (fun b => b.startNanos = bucket) with
        | none => Run.done { q with lateEvents := wrappingAdd q.lateEvents 1 }
        | some index => q.applyAt logBackend index update) = .done q' ∧
      q'.plan = q.plan ∧ q'.emitted = q.emitted ∧
      if bucket < s.front then OnLog q' log first s ∧ q'.lateEvents = wrappingAdd q.lateEvents 1
      else OnLog q' (log ++ [(ts, update)]) first s ∧ q'.lateEvents = q.lateEvents := by
  have positive : 0 < q.plan.slide := q.plan.slide_pos
  by_cases late : bucket < s.front
  · have missing : q.buckets.findIdx? (fun b => b.startNanos = bucket) = none := by
      rw [on.buckets]
      exact ring_findIdx?_none late
    rw [missing]
    refine ⟨_, rfl, rfl, rfl, ?_⟩
    rw [if_pos late]
    exact ⟨⟨on.buckets, on.valid, on.before, on.back_lt⟩, rfl⟩
  · obtain ⟨i, inside, rfl⟩ := Span.Valid.index on.valid positive multiple (by omega) reached
    obtain ⟨applied, kept⟩ := on.applyAt inside low high update
    have found : q.buckets.findIdx? (fun b => b.startNanos = s.front + i * q.plan.slide) =
        some i := by
      rw [on.buckets]
      exact ring_findIdx? positive inside
    rw [found]
    refine ⟨_, applied, rfl, rfl, ?_⟩
    rw [if_neg late]
    exact ⟨kept, rfl⟩

/-- At the back of the ring nothing moves, and the lookup would find the last bucket. -/
theorem Tracks.at_back {q : LogQuery} {t : Timeline} (tracks : Tracks q t) {target : Nat}
    (multiple : q.plan.slide ∣ target) (fits : target < modulus)
    (room : Fits q (q.windowsClosedByAdvance target)) (atBack : q.backStart = some target) :
    q.advanceToBucket logBackend target = .done q ∧
      q.buckets.findIdx? (fun b => b.startNanos = target) = some (q.buckets.length - 1) := by
  unfold Tracks at tracks
  split at tracks
  next => simp [RunningQuery.backStart, tracks.1] at atBack
  next _ first s _ =>
    have on : OnLog q t.log first s := tracks
    have positive : 0 < q.plan.slide := q.plan.slide_pos
    have count := on.valid.positive
    rw [on.backStart, Option.some.injEq] at atBack
    have none_left : s.stepsTo q.plan.slide _ = 0 := Span.stepsTo_behind atBack.ge
    rw [windowsClosedByAdvance_onLog on] at room
    constructor
    · rw [advanceToBucket_onLog on multiple fits room, none_left, Nat.zero_min, advanced_zero on]
    · rw [on.buckets, ring_length, ← atBack]
      exact ring_findIdx? positive (by omega)

/-- Both paths of `process` look the observation's bucket up in the moved ring. -/
theorem Tracks.process_eq {q : LogQuery} {t : Timeline} (tracks : Tracks q t) (display : Ipv6Text)
    {event : FlowEvent} (matching : q.plan.query.filter.matches event = true)
    (room : Fits q (q.windowsClosedByAdvance (Timeline.bucketOf q.plan event.ts))) :
    ∃ moved, q.advanceToBucket logBackend (Timeline.bucketOf q.plan event.ts) = .done moved ∧
      MovedTo q t (Timeline.bucketOf q.plan event.ts) moved ∧
      q.process logBackend display event =
        match moved.buckets.findIdx? (fun b => b.startNanos = Timeline.bucketOf q.plan event.ts) with
        | none => Run.done { moved with lateEvents := wrappingAdd moved.lateEvents 1 }
        | some index => moved.applyAt logBackend index (updateOf display q.plan event) := by
  have multiple := bucketOf_dvd q.plan event.ts
  have fits : Timeline.bucketOf q.plan event.ts < modulus :=
    (bucketOf_spec q.plan event.ts).1.trans_lt event.ts_lt
  obtain ⟨moved, advancing, movedTo⟩ := tracks.advance multiple fits room
  refine ⟨moved, advancing, movedTo, ?_⟩
  unfold RunningQuery.process
  rw [if_neg (by simp [matching])]
  have target : q.bucketStartFor event.ts = Timeline.bucketOf q.plan event.ts := rfl
  simp only [target]
  split
  next atBack =>
    obtain ⟨still, last⟩ := tracks.at_back multiple fits room atBack
    obtain rfl : moved = q := Run.done.inj (advancing.symm.trans still)
    rw [last]
  next =>
    rw [advancing]
    rfl

theorem Tracks.process {q : LogQuery} {t : Timeline} (tracks : Tracks q t) (display : Ipv6Text)
    {event : FlowEvent} (matching : q.plan.query.filter.matches event = true)
    (room : Fits q (q.windowsClosedByAdvance (Timeline.bucketOf q.plan event.ts))) :
    ∃ q', q.process logBackend display event = .done q' ∧
      Observed q t event.ts (updateOf display q.plan event) q' := by
  have multiple := bucketOf_dvd q.plan event.ts
  obtain ⟨low, high⟩ := bucketOf_spec q.plan event.ts
  have reached := tracks.back_ge multiple
  obtain ⟨moved, _, ⟨movedTracks, plan, emitted, late⟩, processing⟩ :=
    tracks.process_eq display matching room
  obtain ⟨movedPlan, movedBuckets, movedEmitted, movedLate⟩ := moved
  obtain rfl : movedPlan = q.plan := plan
  have on : OnLog ⟨q.plan, movedBuckets, movedEmitted, movedLate⟩ t.log
      (t.spanAt q.plan (Timeline.bucketOf q.plan event.ts)).1
      (t.spanAt q.plan (Timeline.bucketOf q.plan event.ts)).2 := movedTracks
  obtain ⟨q', placed, samePlan, sameEmitted, outcome⟩ :=
    on.place multiple reached low high (updateOf display q.plan event)
  refine ⟨q', processing.trans placed, ?_⟩
  by_cases isLate : t.Late q.plan (Timeline.bucketOf q.plan event.ts)
  · rw [if_pos (show Timeline.bucketOf q.plan event.ts < _ from isLate)] at outcome
    refine ⟨?_, samePlan, sameEmitted.trans emitted, ?_⟩
    · rw [Timeline.observe, if_pos isLate]
      exact outcome.1
    · rw [if_pos isLate]
      exact outcome.2.trans (congrArg (wrappingAdd · 1) late)
  · rw [if_neg (show ¬ Timeline.bucketOf q.plan event.ts < _ from isLate)] at outcome
    refine ⟨?_, samePlan, sameEmitted.trans emitted, ?_⟩
    · rw [Timeline.observe, if_neg isLate]
      exact outcome.1
    · rw [if_neg isLate]
      exact outcome.2.trans late

/-! ## Calls -/

namespace Timeline

variable (display : Ipv6Text) (plan : Plan)

/-- Time and log after a call. -/
def after (t : Timeline) : Call → Timeline
  | .process event =>
    if plan.query.filter.matches event then t.observe plan event.ts (updateOf display plan event)
    else t
  | .advanceTo ts => t.moveTo plan (bucketOf plan ts.toNat)
  | .drain => t
  | .finish => t

/-- The trailing window of `finish`; its end is where the last bucket's would be, as a word. -/
def trailing (t : Timeline) : List (WindowState (Multiset Update)) :=
  match t.span with
  | none => []
  | some (_, s) => [{ windowOf plan.slide t.log s with
      windowEndNanos := wrappingAdd (s.back plan.slide) plan.slide }]

/-- The windows a call closes. -/
def closes (t : Timeline) : Call → List (WindowState (Multiset Update))
  | .process event =>
    if plan.query.filter.matches event then t.closedBy plan (bucketOf plan event.ts) else []
  | .advanceTo ts => t.closedBy plan (bucketOf plan ts.toNat)
  | .drain => []
  | .finish => t.trailing plan

/-- The windows awaiting a drain after a call. -/
def pending (t : Timeline) (emitted : List (WindowState (Multiset Update))) :
    Call → List (WindowState (Multiset Update))
  | .drain => []
  | call => emitted ++ t.closes plan call

/-- The call brings an observation that is counted late. -/
def Drops (t : Timeline) : Call → Prop
  | .process event => plan.query.filter.matches event ∧ t.Late plan (bucketOf plan event.ts)
  | _ => False

instance (t : Timeline) : (call : Call) → Decidable (t.Drops plan call)
  | .process _ => inferInstanceAs (Decidable (_ ∧ _))
  | .advanceTo _ | .drain | .finish => inferInstanceAs (Decidable False)

end Timeline

/-- What a call that was let through does to a query. -/
structure Called (display : Ipv6Text) (q : LogQuery) (t : Timeline) (call : Call) (q' : LogQuery) :
    Prop where
  tracks : Tracks q' (t.after display q.plan call)
  plan : q'.plan = q.plan
  emitted : q'.emitted = t.pending q.plan q.emitted call
  late : q'.lateEvents = if t.Drops q.plan call then wrappingAdd q.lateEvents 1 else q.lateEvents

theorem Tracks.finish {q : LogQuery} {t : Timeline} (tracks : Tracks q t)
    (room : q.buckets = [] ∨ Fits q 1) :
    q.finish logBackend = .done { q with emitted := q.emitted ++ t.trailing q.plan } := by
  unfold Tracks at tracks
  unfold Timeline.trailing RunningQuery.finish
  split at tracks
  next =>
    have back : q.backStart = none := by simp [RunningQuery.backStart, tracks.1]
    simp [back]
  next _ first s _ =>
    have on : OnLog q t.log first s := tracks
    have some_open : q.buckets ≠ [] := by
      intro empty
      have back := on.backStart
      simp [RunningQuery.backStart, empty] at back
    have room := room.resolve_left some_open
    rw [on.backStart]
    simp only [ensureEmitCapacity_eq, if_pos room, Run.attempt_ok, flushWindow_onLog on room]
    rfl

theorem check_room {q : LogQuery} {additional : Nat}
    (passes : q.ensureEmitCapacity additional = .ok ()) : Fits q additional := by
  by_contra full
  rw [ensureEmitCapacity_eq, if_neg full] at passes
  cases passes

theorem Tracks.call {q : LogQuery} {t : Timeline} (tracks : Tracks q t) (display : Ipv6Text)
    {call : Call} (passes : q.check call = .ok ()) :
    ∃ q', q.call logBackend display call = .done q' ∧ Called display q t call q' := by
  cases call with
  | process event =>
    by_cases matching : q.plan.query.filter.matches event = true
    · simp only [RunningQuery.check, RunningQuery.ensureCanProcess, if_pos matching] at passes
      obtain ⟨q', done, observed⟩ := tracks.process display matching (check_room passes)
      refine ⟨q', done, ?_, observed.plan, ?_, ?_⟩
      · simpa only [Timeline.after, if_pos matching] using observed.tracks
      · simpa [Timeline.pending, Timeline.closes, if_pos matching] using observed.emitted
      · simpa [Timeline.Drops, matching] using observed.late
    · refine ⟨q, ?_, ?_, rfl, ?_, ?_⟩
      · simp [RunningQuery.call, RunningQuery.process, matching]
      · simpa only [Timeline.after, if_neg matching] using tracks
      · simp [Timeline.pending, Timeline.closes, if_neg matching]
      · simp [Timeline.Drops, matching]
  | advanceTo ts =>
    have fits : Timeline.bucketOf q.plan ts.toNat < modulus :=
      (bucketOf_spec q.plan ts.toNat).1.trans_lt ts.toNat_lt
    obtain ⟨q', done, moved⟩ :=
      tracks.advance (bucketOf_dvd q.plan ts.toNat) fits (check_room passes)
    exact ⟨q', done, moved.tracks, moved.plan, moved.emitted, moved.late⟩
  | drain => exact ⟨_, rfl, tracks.congr rfl rfl, rfl, rfl, rfl⟩
  | finish =>
    have room : q.buckets = [] ∨ Fits q 1 := by
      by_cases empty : q.buckets = []
      · exact Or.inl empty
      · simp only [RunningQuery.check, List.isEmpty_iff, if_neg empty] at passes
        exact Or.inr (check_room passes)
    exact ⟨_, tracks.finish room, tracks.congr rfl rfl, rfl, rfl, rfl⟩

end FlowSketch.Source.Runtime
