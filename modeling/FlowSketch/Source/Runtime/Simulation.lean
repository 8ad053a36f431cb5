import FlowSketch.Lib.Lists
import FlowSketch.Source.Runtime.Advance
import FlowSketch.Source.Runtime.Observer

/-!
# From sketches to logs

Whatever sketch a bucket holds, it got there by building it, updating it and merging it with another
one, and the multiset of its updates is known. As long as none of these operations fails, the engine
over the sketch and the engine over `logBackend` make the same steps: same buckets, same windows,
same faults.
-/

namespace FlowSketch.Source.Runtime
open Lib.Word64 Lib.Lists Source.Core

variable {σ : Type}

/-- A state of `sketch` that has seen exactly these updates. -/
inductive Represents (backend : Backend σ) (sketch : PhysicalSketch) : σ → Multiset Update → Prop
  | build {state : σ} (built : backend.build sketch = .ok state) :
      Represents backend sketch state 0
  | apply {state state' : σ} {seen : Multiset Update} {update : Update}
      (before : Represents backend sketch state seen)
      (applied : backend.apply state update = some state') :
      Represents backend sketch state' (update ::ₘ seen)
  | merge {left right merged : σ} {seen other : Multiset Update}
      (first : Represents backend sketch left seen) (second : Represents backend sketch right other)
      (joined : backend.mergeFrom left right = .ok merged) :
      Represents backend sketch merged (seen + other)

/-- A bucket's state is only ever built and updated. -/
inductive Fed (backend : Backend σ) (sketch : PhysicalSketch) : σ → Multiset Update → Prop
  | build {state : σ} (built : backend.build sketch = .ok state) : Fed backend sketch state 0
  | apply {state state' : σ} {seen : Multiset Update} {update : Update}
      (before : Fed backend sketch state seen)
      (applied : backend.apply state update = some state') :
      Fed backend sketch state' (update ::ₘ seen)

theorem Fed.represents {backend : Backend σ} {sketch : PhysicalSketch} {state : σ}
    {seen : Multiset Update} (fed : Fed backend sketch state seen) :
    Represents backend sketch state seen := by
  induction fed with
  | build built => exact .build built
  | apply _ applied ih => exact .apply ih applied

/-- A bucket without updates is as it was built. -/
theorem Fed.fresh {backend : Backend σ} {sketch : PhysicalSketch} {state : σ}
    (fed : Fed backend sketch state 0) : backend.build sketch = .ok state := by
  generalize none_seen : (0 : Multiset Update) = seen at fed
  cases fed with
  | build built => exact built
  | apply => exact absurd none_seen (Multiset.zero_ne_cons)

/-- No operation on a state of `sketch` fails. -/
structure Total (backend : Backend σ) (sketch : PhysicalSketch) : Prop where
  build : ∃ state, backend.build sketch = .ok state
  apply : ∀ {state seen}, Represents backend sketch state seen →
    ∀ update, ∃ state', backend.apply state update = some state'
  merge : ∀ {left seen right other}, Represents backend sketch left seen →
    Represents backend sketch right other → ∃ merged, backend.mergeFrom left right = .ok merged

/-! ## Related states -/

structure Bucket.Follows (backend : Backend σ) (sketch : PhysicalSketch) (b : Bucket σ)
    (l : Bucket (Multiset Update)) : Prop where
  start : b.startNanos = l.startNanos
  state : Fed backend sketch b.state l.state

structure WindowState.Follows (backend : Backend σ) (sketch : PhysicalSketch) (w : WindowState σ)
    (l : WindowState (Multiset Update)) : Prop where
  start : w.windowStartNanos = l.windowStartNanos
  stop : w.windowEndNanos = l.windowEndNanos
  state : Represents backend sketch w.state l.state

structure RunningQuery.Follows (backend : Backend σ) (plan : Plan) (q : RunningQuery σ)
    (l : LogQuery) : Prop where
  ownPlan : q.plan = plan
  logPlan : l.plan = plan
  buckets : List.Forall₂ (Bucket.Follows backend plan.sketch) q.buckets l.buckets
  emitted : List.Forall₂ (WindowState.Follows backend plan.sketch) q.emitted l.emitted
  late : q.lateEvents = l.lateEvents

/-- Both runs end the same way, in related states. -/
inductive Run.Agree {S T : Type} (R : S → T → Prop) : Run S → Run T → Prop
  | done {s : S} {t : T} (related : R s t) : Agree R (.done s) (.done t)
  | failed (fault : Fault) {s : S} {t : T} (related : R s t) :
      Agree R (.failed fault s) (.failed fault t)

namespace Run.Agree

variable {S T : Type} {R : S → T → Prop}

theorem bind {r : Run S} {r' : Run T} (agree : Agree R r r') {next : S → Run S} {next' : T → Run T}
    (step : ∀ s t, R s t → Agree R (next s) (next' t)) : Agree R (r.bind next) (r'.bind next') := by
  cases agree with
  | done related => exact step _ _ related
  | failed fault related => exact .failed fault related

theorem attempt {α : Type} {result : Except SketchError α} {s : S} {t : T} (related : R s t)
    {next : α → Run S} {next' : α → Run T} (step : ∀ value, Agree R (next value) (next' value)) :
    Agree R (Run.attempt result s next) (Run.attempt result t next') := by
  cases result with
  | ok value => exact step value
  | error e => exact .failed _ related

theorem forEach {step : S → Run S} {step' : T → Run T} {items : List S} {items' : List T}
    (related : List.Forall₂ R items items')
    (agree : ∀ s ∈ items, ∀ t, R s t → Agree R (step s) (step' t)) :
    Agree (List.Forall₂ R) (Run.forEach step items) (Run.forEach step' items') := by
  induction related with
  | nil => exact .done .nil
  | @cons s t rest rest' head tail ih =>
    have one := agree s List.mem_cons_self t head
    have others := ih (fun s member => agree s (List.mem_cons_of_mem _ member))
    unfold Run.forEach
    revert one others
    generalize step s = r, step' t = r', Run.forEach step rest = rs, Run.forEach step' rest' = rs'
    intro one others
    cases one with
    | failed fault related => exact .failed fault (.cons related tail)
    | done related =>
      cases others with
      | done more => exact .done (.cons related more)
      | failed fault more => exact .failed fault (.cons related more)

theorem map {S' T' : Type} {R' : S' → T' → Prop} {r : Run S} {r' : Run T} (agree : Agree R r r')
    {f : S → S'} {f' : T → T'} (lift : ∀ s t, R s t → R' (f s) (f' t)) :
    Agree R' (r.map f) (r'.map f') := by
  cases agree with
  | done related => exact .done (lift _ _ related)
  | failed fault related => exact .failed fault (lift _ _ related)

end Run.Agree

/-! ## One query -/

section Query

variable {backend : Backend σ} {plan : Plan} {q : RunningQuery σ} {l : LogQuery}

theorem Bucket.Follows.starts {sketch : PhysicalSketch} {bs : List (Bucket σ)}
    {ls : List (Bucket (Multiset Update))}
    (follows : List.Forall₂ (Bucket.Follows backend sketch) bs ls) :
    bs.map Bucket.startNanos = ls.map Bucket.startNanos := by
  rw [← List.forall₂_eq_eq_eq, List.forall₂_map_left_iff, List.forall₂_map_right_iff]
  exact follows.imp (fun _ _ related => related.start)

theorem RunningQuery.Follows.new (plan : Plan) :
    (RunningQuery.new plan : RunningQuery σ).Follows backend plan (RunningQuery.new plan) :=
  ⟨rfl, rfl, .nil, .nil, rfl⟩

namespace RunningQuery.Follows

section Reads

variable (follows : q.Follows backend plan l)
include follows

theorem samePlan : q.plan = l.plan := follows.ownPlan.trans follows.logPlan.symm

theorem starts : q.buckets.map Bucket.startNanos = l.buckets.map Bucket.startNanos :=
  Bucket.Follows.starts follows.buckets

theorem backStart : q.backStart = l.backStart := by
  rw [RunningQuery.backStart, RunningQuery.backStart, ← List.getLast?_map, ← List.getLast?_map,
    follows.starts]

theorem frontStart : q.frontStart = l.frontStart := by
  rw [RunningQuery.frontStart, RunningQuery.frontStart, ← List.head?_map, ← List.head?_map,
    follows.starts]

theorem findBucket (start : Nat) : q.buckets.findIdx? (fun b => b.startNanos = start) =
    l.buckets.findIdx? (fun b => b.startNanos = start) := by
  have mapped : ∀ {τ : Type} (bs : List (Bucket τ)), bs.findIdx? (fun b => b.startNanos = start) =
      (bs.map Bucket.startNanos).findIdx? (fun s => s = start) := by
    intro τ bs
    rw [List.findIdx?_map]
    rfl
  rw [mapped, mapped, follows.starts]

theorem slideNanos : q.slideNanos = l.slideNanos := by
  rw [RunningQuery.slideNanos, RunningQuery.slideNanos, follows.samePlan]

theorem bucketCount : q.bucketCount = l.bucketCount := by
  rw [RunningQuery.bucketCount, RunningQuery.bucketCount, follows.samePlan]

theorem bucketStartFor (ts : Nat) : q.bucketStartFor ts = l.bucketStartFor ts := by
  rw [RunningQuery.bucketStartFor, RunningQuery.bucketStartFor, follows.slideNanos]

theorem windowsClosedByAdvance (target : Nat) :
    q.windowsClosedByAdvance target = l.windowsClosedByAdvance target := by
  unfold RunningQuery.windowsClosedByAdvance
  rw [follows.backStart, follows.slideNanos, follows.bucketCount]

theorem ensureEmitCapacity (additional : Nat) :
    q.ensureEmitCapacity additional = l.ensureEmitCapacity additional := by
  unfold RunningQuery.ensureEmitCapacity
  rw [follows.samePlan, follows.emitted.length_eq]

theorem fits (additional : Nat) : Fits q additional ↔ Fits l additional := by
  unfold Fits
  rw [follows.samePlan, follows.emitted.length_eq]

theorem ensureCanAdvance (target : Nat) : q.ensureCanAdvance target = l.ensureCanAdvance target := by
  rw [RunningQuery.ensureCanAdvance, RunningQuery.ensureCanAdvance, follows.windowsClosedByAdvance,
    follows.ensureEmitCapacity]

theorem isEmpty : q.buckets.isEmpty = l.buckets.isEmpty := by
  rw [Bool.eq_iff_iff, List.isEmpty_iff_length_eq_zero, List.isEmpty_iff_length_eq_zero,
    follows.buckets.length_eq]

theorem check (call : Call) : q.check call = l.check call := by
  cases call with
  | process event =>
    simp only [RunningQuery.check, RunningQuery.ensureCanProcess, follows.samePlan,
      follows.bucketStartFor, follows.ensureCanAdvance]
  | advanceTo ts =>
    simp only [RunningQuery.check, follows.bucketStartFor, follows.ensureCanAdvance]
  | drain => rfl
  | finish =>
    simp only [RunningQuery.check, follows.isEmpty, follows.ensureEmitCapacity]

end Reads

/-! ## Steps -/

section Steps

variable (total : Total backend plan.sketch)
include total

theorem newBucket (follows : q.Follows backend plan l) (startNanos : Nat) :
    ∃ bucket, q.newBucket backend startNanos = .ok bucket ∧
      bucket.Follows backend plan.sketch { startNanos, state := 0 } := by
  obtain ⟨state, built⟩ := total.build
  refine ⟨{ startNanos, state }, ?_, rfl, .build built⟩
  rw [RunningQuery.newBucket, follows.ownPlan, built]
  rfl

theorem mergeBuckets {bs : List (Bucket σ)} {ls : List (Bucket (Multiset Update))}
    (follows : List.Forall₂ (Bucket.Follows backend plan.sketch) bs ls) {state : σ}
    {seen : Multiset Update} (represents : Represents backend plan.sketch state seen) :
    ∃ merged, RunningQuery.mergeBuckets backend state bs = .ok merged ∧
      ∃ all, RunningQuery.mergeBuckets logBackend seen ls = .ok all ∧
        Represents backend plan.sketch merged all := by
  induction follows generalizing state seen with
  | nil => exact ⟨state, rfl, seen, rfl, represents⟩
  | @cons b l bs ls head _ ih =>
    obtain ⟨joined, joins⟩ := total.merge represents head.state.represents
    obtain ⟨merged, rest, all, logRest, related⟩ := ih (.merge represents head.state.represents joins)
    refine ⟨merged, ?_, all, logRest, related⟩
    rw [RunningQuery.mergeBuckets, List.foldlM_cons, joins]
    exact rest

theorem flushWindow (follows : q.Follows backend plan l) (windowEnd : Nat) :
    Run.Agree (RunningQuery.Follows backend plan) (q.flushWindow backend windowEnd)
      (l.flushWindow logBackend windowEnd) := by
  have capacity := follows.ensureEmitCapacity 1
  obtain ⟨qPlan, qBuckets, qEmitted, qLate⟩ := q
  obtain ⟨lPlan, lBuckets, lEmitted, lLate⟩ := l
  unfold RunningQuery.flushWindow
  rw [capacity]
  cases follows.buckets with
  | nil => exact .done follows
  | @cons b m bs ms head tail =>
    refine .attempt follows (fun _ => ?_)
    obtain ⟨merged, merging, all, logMerging, related⟩ := 
      mergeBuckets total tail head.state.represents
    simp only [merging, logMerging, Run.attempt_ok]
    refine .done ⟨follows.ownPlan, follows.logPlan, follows.buckets, ?_, follows.late⟩
    exact List.rel_append follows.emitted (.cons ⟨head.start, rfl, related⟩ .nil)

theorem slideOnce (follows : q.Follows backend plan l) :
    Run.Agree (RunningQuery.Follows backend plan) (q.slideOnce backend) (l.slideOnce logBackend) := by
  unfold RunningQuery.slideOnce
  rw [follows.backStart, follows.slideNanos]
  cases l.backStart with
  | none => exact .failed .panic follows
  | some back =>
    refine (flushWindow total follows _).bind (fun q' l' flushed => ?_)
    obtain ⟨bucket, opened, related⟩ := newBucket total flushed (wrappingAdd back l.slideNanos)
    have pushed := List.rel_append flushed.buckets (.cons related .nil)
    simp only [opened, newBucket_log, Run.attempt_ok]
    refine .done ⟨flushed.ownPlan, flushed.logPlan, ?_, flushed.emitted, flushed.late⟩
    rw [pushed.length_eq, flushed.bucketCount]
    exact List.forall₂_drop _ pushed

theorem slideTimes (n : Nat) (follows : q.Follows backend plan l) :
    Run.Agree (RunningQuery.Follows backend plan) (RunningQuery.slideTimes backend n q)
      (RunningQuery.slideTimes logBackend n l) := by
  induction n generalizing q l with
  | zero => exact .done follows
  | succ n ih => exact (slideOnce total follows).bind (fun _ _ related => ih related)

theorem slideUntil (target rounds : Nat) (follows : q.Follows backend plan l) :
    Run.Agree (RunningQuery.Follows backend plan) (RunningQuery.slideUntil backend target rounds q)
      (RunningQuery.slideUntil logBackend target rounds l) := by
  induction rounds generalizing q l with
  | zero => exact .done follows
  | succ rounds ih =>
    unfold RunningQuery.slideUntil
    rw [follows.backStart]
    cases l.backStart with
    | none => exact .failed .panic follows
    | some back =>
      simp only
      split
      · exact (slideOnce total follows).bind (fun _ _ related => ih related)
      · exact .done follows

theorem pushRing (target rounds start : Nat) (follows : q.Follows backend plan l) :
    Run.Agree (RunningQuery.Follows backend plan) (RunningQuery.pushRing backend target rounds start q)
      (RunningQuery.pushRing logBackend target rounds start l) := by
  induction rounds generalizing q l start with
  | zero => exact .done follows
  | succ rounds ih =>
    obtain ⟨bucket, opened, related⟩ := newBucket total follows start
    have pushed : RunningQuery.Follows backend plan { q with buckets := q.buckets ++ [bucket] }
        { l with buckets := l.buckets ++ [{ startNanos := start, state := 0 }] } :=
      ⟨follows.ownPlan, follows.logPlan, List.rel_append follows.buckets (.cons related .nil),
        follows.emitted, follows.late⟩
    unfold RunningQuery.pushRing
    simp only [opened, newBucket_log, Run.attempt_ok]
    split
    · exact .done pushed
    · rw [pushed.slideNanos]
      exact ih _ pushed

theorem rebuildTrailingRing (target : Nat) (follows : q.Follows backend plan l) :
    Run.Agree (RunningQuery.Follows backend plan) (q.rebuildTrailingRing backend target)
      (l.rebuildTrailingRing logBackend target) := by
  unfold RunningQuery.rebuildTrailingRing
  rw [follows.slideNanos, follows.bucketCount]
  exact pushRing total _ _ _
    ⟨follows.ownPlan, follows.logPlan, .nil, follows.emitted, follows.late⟩

theorem advanceToBucket (target : Nat) (follows : q.Follows backend plan l) :
    Run.Agree (RunningQuery.Follows backend plan) (q.advanceToBucket backend target)
      (l.advanceToBucket logBackend target) := by
  unfold RunningQuery.advanceToBucket
  rw [follows.ensureCanAdvance, follows.backStart, follows.slideNanos, follows.bucketCount]
  refine .attempt follows (fun _ => ?_)
  cases l.backStart with
  | none =>
    obtain ⟨bucket, opened, related⟩ := newBucket total follows target
    simp only [opened, newBucket_log, Run.attempt_ok]
    exact .done ⟨follows.ownPlan, follows.logPlan,
      List.rel_append follows.buckets (.cons related .nil), follows.emitted, follows.late⟩
  | some back =>
    simp only
    split
    · refine (slideTimes total _ follows).bind (fun _ _ related => ?_)
      exact rebuildTrailingRing total target related
    · exact slideUntil total _ _ follows

theorem applyAt (index : Nat) (update : Update) (follows : q.Follows backend plan l) :
    Run.Agree (RunningQuery.Follows backend plan) (q.applyAt backend index update)
      (l.applyAt logBackend index update) := by
  unfold RunningQuery.applyAt
  have lengths := follows.buckets.length_eq
  rcases Nat.lt_or_ge index q.buckets.length with inside | outside
  · have related := follows.buckets.get inside (by omega)
    obtain ⟨state, applied⟩ := total.apply related.state.represents update
    rw [List.getElem?_eq_getElem inside, List.getElem?_eq_getElem (by omega)]
    simp only [List.get_eq_getElem] at applied related
    simp only [applied, logBackend]
    refine .done ⟨follows.ownPlan, follows.logPlan, ?_, follows.emitted, follows.late⟩
    exact forall₂_set follows.buckets index ⟨related.start, .apply related.state applied⟩
  · rw [List.getElem?_eq_none outside, List.getElem?_eq_none (by omega)]
    exact .failed .panic follows

theorem process (display : Ipv6Text) (event : FlowEvent) (follows : q.Follows backend plan l) :
    Run.Agree (RunningQuery.Follows backend plan) (q.process backend display event)
      (l.process logBackend display event) := by
  unfold RunningQuery.process
  rw [follows.samePlan, follows.backStart, follows.bucketStartFor, follows.buckets.length_eq]
  split
  · exact .done follows
  · simp only
    split
    · exact applyAt total _ _ follows
    · refine (advanceToBucket total _ follows).bind (fun q' l' moved => ?_)
      rw [moved.findBucket]
      split
      · exact .done ⟨moved.ownPlan, moved.logPlan, moved.buckets, moved.emitted,
          congrArg (wrappingAdd · 1) moved.late⟩
      · exact applyAt total _ _ moved

theorem finish (follows : q.Follows backend plan l) :
    Run.Agree (RunningQuery.Follows backend plan) (q.finish backend) (l.finish logBackend) := by
  unfold RunningQuery.finish
  rw [follows.backStart, follows.ensureEmitCapacity, follows.slideNanos]
  cases l.backStart with
  | none => exact .done follows
  | some back => exact .attempt follows (fun _ => flushWindow total follows _)

theorem call (display : Ipv6Text) (call : Call) (follows : q.Follows backend plan l) :
    Run.Agree (RunningQuery.Follows backend plan) (q.call backend display call)
      (l.call logBackend display call) := by
  cases call with
  | process event => exact process total display event follows
  | advanceTo ts =>
    simp only [RunningQuery.call, follows.bucketStartFor]
    exact advanceToBucket total _ follows
  | drain => exact .done ⟨follows.ownPlan, follows.logPlan, follows.buckets, .nil, follows.late⟩
  | finish => exact finish total follows

end Steps

end RunningQuery.Follows

end Query

end FlowSketch.Source.Runtime
