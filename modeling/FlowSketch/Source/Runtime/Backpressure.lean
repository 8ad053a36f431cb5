import FlowSketch.Source.Runtime.Simulation
import FlowSketch.Source.Runtime.Timeline

/-!
# Backpressure

The preflight asks every query whether the windows the call would close still fit among its pending
ones. It counts exactly the windows the advance loops emit, so nothing can fail behind it: a call is
either refused before anything has changed, or goes through on every query. An engine that has been
drained refuses nothing.
-/

namespace FlowSketch.Source.Runtime
open Lib.Word64 Lib.Lists Source.Core

variable {σ : Type}

/-- The query's buckets hold sketches of a timeline. -/
structure Sound (backend : Backend σ) (q : RunningQuery σ) : Prop where
  total : Total backend q.plan.sketch
  shadow : ∃ l t, q.Follows backend q.plan l ∧ Tracks l t

theorem Run.Agree.of_done {S T : Type} {R : S → T → Prop} {r : Run S} {t : T}
    (agree : Run.Agree R r (.done t)) : ∃ s, r = .done s ∧ R s t := by
  cases agree with
  | done related => exact ⟨_, rfl, related⟩

/-- The number of windows a call closes, as the preflight counts them. -/
def RunningQuery.windowsClosedBy (q : RunningQuery σ) : Call → Nat
  | .process event =>
    if q.plan.query.filter.matches event then q.windowsClosedByAdvance (q.bucketStartFor event.ts)
    else 0
  | .advanceTo ts => q.windowsClosedByAdvance (q.bucketStartFor ts.toNat)
  | .drain => 0
  | .finish => if q.buckets.isEmpty then 0 else 1

namespace Sound

variable {backend : Backend σ} {q : RunningQuery σ}

theorem new {plan : Plan} (total : Total backend plan.sketch) :
    Sound backend (RunningQuery.new plan) :=
  ⟨total, RunningQuery.new plan, Timeline.start, RunningQuery.Follows.new plan, Tracks.start plan⟩

theorem drained (sound : Sound backend q) : Sound backend { q with emitted := [] } := by
  obtain ⟨total, l, t, follows, tracks⟩ := sound
  refine ⟨total, { l with emitted := [] }, t, ?_, tracks.congr rfl rfl⟩
  exact ⟨rfl, follows.logPlan, follows.buckets, .nil, follows.late⟩

theorem closes_length {l : LogQuery} {t : Timeline} (tracks : Tracks l t) (call : Call) :
    (t.closes l.plan call).length = l.windowsClosedBy call := by
  cases call with
  | process event =>
    simp only [Timeline.closes, RunningQuery.windowsClosedBy]
    split
    · exact (tracks.windowsClosed _).symm
    · rfl
  | advanceTo ts => exact (tracks.windowsClosed _).symm
  | drain => rfl
  | finish =>
    simp only [Timeline.closes, Timeline.trailing, RunningQuery.windowsClosedBy]
    unfold Tracks at tracks
    split at tracks
    next => simp [tracks.1]
    next first s _ =>
      have on : OnLog l t.log first s := tracks
      have some_bucket : l.buckets.isEmpty = false := by
        rw [List.isEmpty_eq_false_iff, on.buckets, ← List.length_pos_iff, ring_length]
        exact on.valid.positive
      simp [some_bucket]

theorem windowsClosedBy_follows {l : LogQuery} (follows : q.Follows backend q.plan l) (call : Call) :
    q.windowsClosedBy call = l.windowsClosedBy call := by
  cases call <;> simp only [RunningQuery.windowsClosedBy, follows.samePlan, follows.bucketStartFor,
    follows.windowsClosedByAdvance, follows.isEmpty]

/-- A query the preflight lets through takes the call, and emits as many windows as were counted. -/
theorem call (sound : Sound backend q) (display : Ipv6Text) {call : Call}
    (passes : q.check call = .ok ()) :
    ∃ q', q.call backend display call = .done q' ∧ Sound backend q' ∧ q'.plan = q.plan ∧
      q'.emitted.length =
        (if call.isDrain then 0 else q.emitted.length + q.windowsClosedBy call) := by
  obtain ⟨total, l, t, follows, tracks⟩ := sound
  rw [follows.check] at passes
  obtain ⟨l', logDone, called⟩ := tracks.call display passes
  have agree := RunningQuery.Follows.call total display call follows
  rw [logDone] at agree
  obtain ⟨q', done, follows'⟩ := agree.of_done
  refine ⟨q', done, ⟨follows'.ownPlan ▸ total, l', _, follows'.ownPlan ▸ follows', called.tracks⟩,
    follows'.ownPlan, ?_⟩
  rw [follows'.emitted.length_eq, called.emitted, follows.emitted.length_eq,
    windowsClosedBy_follows follows, ← closes_length tracks]
  cases call <;> simp [Timeline.pending, Call.isDrain]

end Sound

/-! ## What the preflight says -/

/-- The error asks the caller to drain and retry. -/
def SketchError.IsBackpressure (e : SketchError) : Prop := ∃ message, e = .backpressure message

theorem ensureEmitCapacity_error {q : RunningQuery σ} {additional : Nat} {e : SketchError}
    (refused : q.ensureEmitCapacity additional = .error e) : SketchError.IsBackpressure e := by
  rw [ensureEmitCapacity_eq] at refused
  split at refused
  · cases refused
  · exact ⟨_, (Except.error.inj refused).symm⟩

/-- The preflight refuses with backpressure and nothing else. -/
theorem check_error {q : RunningQuery σ} {call : Call} {e : SketchError}
    (refused : q.check call = .error e) : SketchError.IsBackpressure e := by
  cases call with
  | process event =>
    simp only [RunningQuery.check, RunningQuery.ensureCanProcess] at refused
    split at refused
    · exact ensureEmitCapacity_error refused
    · cases refused
  | advanceTo ts => exact ensureEmitCapacity_error refused
  | drain => cases refused
  | finish =>
    simp only [RunningQuery.check] at refused
    split at refused
    · cases refused
    · exact ensureEmitCapacity_error refused

theorem preflight_error {e : QueryEngine σ} {check : RunningQuery σ → Except SketchError Unit}
    {error : SketchError} (refused : e.preflight check = .error error) :
    ∃ q ∈ e.queries, check q = .error error := by
  unfold QueryEngine.preflight at refused
  generalize e.queries = queries at refused
  induction queries with
  | nil => cases refused
  | cons q rest ih =>
    have step : (q :: rest).forM check = (check q >>= fun _ => rest.forM check) := List.forM_cons ..
    rw [step] at refused
    cases first : check q with
    | error other =>
      rw [first] at refused
      exact ⟨q, List.mem_cons_self, first.trans refused⟩
    | ok =>
      rw [first] at refused
      obtain ⟨other, member, error⟩ := ih refused
      exact ⟨other, List.mem_cons_of_mem _ member, error⟩

/-! ## The engine -/

namespace QueryEngine

/-- The states of an engine over `plans` under any sequence of calls, refused ones included. -/
inductive Reachable (backend : Backend σ) (display : Ipv6Text) (plans : List Plan) :
    QueryEngine σ → Prop
  | new {e : QueryEngine σ} (built : QueryEngine.new backend plans = .ok e) :
      Reachable backend display plans e
  | call {e : QueryEngine σ} (before : Reachable backend display plans e) (call : Call) :
      Reachable backend display plans (e.call backend display call).state

variable {backend : Backend σ} {display : Ipv6Text} {plans : List Plan}

/-- Refused by the preflight with the state untouched, or done on every query. -/
theorem call_dichotomy (display : Ipv6Text) {e : QueryEngine σ} (sound : ∀ q ∈ e.queries, Sound backend q) (call : Call) :
    (∃ error, SketchError.IsBackpressure error ∧
      e.call backend display call = .failed (.sketch error) e ∧
      ∃ q ∈ e.queries, q.check call = .error error) ∨
    ((∀ q ∈ e.queries, q.check call = .ok ()) ∧
      ∃ e', e.call backend display call = .done e' ∧
        List.Forall₂ (fun q q' => Sound backend q' ∧ q'.plan = q.plan ∧ q'.emitted.length =
          (if call.isDrain then 0 else q.emitted.length + q.windowsClosedBy call))
          e.queries e'.queries) := by
  cases checked : e.preflight (fun q => q.check call) with
  | error error =>
    obtain ⟨q, member, refused⟩ := preflight_error checked
    refine Or.inl ⟨error, check_error refused, ?_, q, member, refused⟩
    rw [call_eq, checked]
    rfl
  | ok =>
    have passes := preflight_ok.mp checked
    have each : ∀ q ∈ e.queries, ∃ q', q.call backend display call = .done q' ∧
        (Sound backend q' ∧ q'.plan = q.plan ∧ q'.emitted.length =
          (if call.isDrain then 0 else q.emitted.length + q.windowsClosedBy call)) :=
      fun q member => (sound q member).call display (passes q member)
    choose! next done spec using each
    refine Or.inr ⟨passes, { queries := e.queries.map next, eventsProcessed := e.tick call }, ?_, ?_⟩
    · refine call_done.mpr ⟨passes, ?_, rfl⟩
      rw [List.forall₂_map_right_iff, List.forall₂_same]
      exact done
    · rw [List.forall₂_map_right_iff, List.forall₂_same]
      exact spec

theorem Reachable.sound (total : ∀ plan ∈ plans, Total backend plan.sketch) {e : QueryEngine σ}
    (reachable : Reachable backend display plans e) : ∀ q ∈ e.queries, Sound backend q := by
  induction reachable with
  | new built =>
    obtain ⟨_, _, rfl⟩ := new_ok.mp built
    intro q member
    obtain ⟨plan, planned, rfl⟩ := List.mem_map.mp member
    exact Sound.new (total plan planned)
  | @call e _ call ih =>
    rcases call_dichotomy display ih call with ⟨error, _, failed, _⟩ | ⟨_, e', done, all⟩
    · rw [failed]
      exact ih
    · rw [done]
      intro q' member
      obtain ⟨q, _, spec⟩ := exists_left_of_mem all member
      exact spec.1

end QueryEngine

end FlowSketch.Source.Runtime
