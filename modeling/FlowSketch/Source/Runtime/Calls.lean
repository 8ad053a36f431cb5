import Mathlib
import FlowSketch.Source.Runtime.Engine

/-!
# Calls

The public operations of the engine as data, so that a run is a list of them. Each one checks every
query first and then acts on the queries one by one; the action on one query does not depend on the
others.
-/

namespace FlowSketch.Source.Runtime
open Lib.Word64 Source.Core

inductive Call where
  | process (event : FlowEvent)
  | advanceTo (ts : UInt64)
  | drain
  | finish

def Call.isFinish : Call → Bool
  | finish => true
  | process _ | advanceTo _ | drain => false

def Call.isDrain : Call → Bool
  | drain => true
  | process _ | advanceTo _ | finish => false

variable {σ : Type}

namespace RunningQuery

/-- The part of the preflight that concerns this query. -/
def check (q : RunningQuery σ) : Call → Except SketchError Unit
  | .process event => q.ensureCanProcess event
  | .advanceTo ts => q.ensureCanAdvance (q.bucketStartFor ts.toNat)
  | .drain => .ok ()
  | .finish => if q.buckets.isEmpty then .ok () else q.ensureEmitCapacity 1

def call (backend : Backend σ) (display : Ipv6Text) (call : Call) (q : RunningQuery σ) :
    Run (RunningQuery σ) :=
  match call with
  | .process event => q.process backend display event
  | .advanceTo ts => q.advanceToBucket backend (q.bucketStartFor ts.toNat)
  | .drain => .done { q with emitted := [] }
  | .finish => q.finish backend

end RunningQuery

/-! ## Runs over a list -/

namespace Run

variable {S T : Type}

theorem forEach_done {step : S → Run S} {items results : List S} :
    Run.forEach step items = .done results ↔
      List.Forall₂ (fun s s' => step s = .done s') items results := by
  induction items generalizing results with
  | nil => cases results <;> simp [forEach]
  | cons s rest ih =>
    rw [forEach]
    cases taken : step s with
    | failed fault s' =>
      constructor
      · intro same
        cases same
      · intro all
        cases all with
        | cons head _ => rw [taken] at head; cases head
    | done s' =>
      simp only
      cases remaining : forEach step rest with
      | failed fault others =>
        constructor
        · intro same
          cases same
        · intro all
          cases all with
          | cons _ tail => rw [ih.mpr tail] at remaining; cases remaining
      | done others =>
        simp only [Run.map, Run.done.injEq]
        constructor
        · rintro rfl
          exact .cons taken (ih.mp remaining)
        · intro all
          cases all with
          | cons head tail =>
            rw [taken, Run.done.injEq] at head
            rw [ih.mpr tail, Run.done.injEq] at remaining
            rw [head, remaining]

theorem forEach_of_done {step : S → Run S} {f : S → S} {items : List S}
    (all : ∀ s ∈ items, step s = .done (f s)) : Run.forEach step items = .done (items.map f) := by
  rw [forEach_done, List.forall₂_map_right_iff, List.forall₂_same]
  exact all

theorem map_done {f : S → T} {run : Run S} {result : T} :
    run.map f = .done result ↔ ∃ s, run = .done s ∧ f s = result := by
  cases run <;> simp [Run.map]

end Run

/-! ## The engine -/

namespace QueryEngine

/-- Only `process` counts events. -/
def tick (e : QueryEngine σ) : Call → Nat
  | .process _ => wrappingAdd e.eventsProcessed 1
  | _ => e.eventsProcessed

def call (backend : Backend σ) (display : Ipv6Text) (e : QueryEngine σ) :
    Call → Run (QueryEngine σ)
  | .process event => e.process backend display event
  | .advanceTo ts => e.advanceTo backend ts.toNat
  | .drain => .done e.drained
  | .finish => e.finish backend

theorem preflight_ok {e : QueryEngine σ} {check : RunningQuery σ → Except SketchError Unit} :
    e.preflight check = .ok () ↔ ∀ q ∈ e.queries, check q = .ok () := by
  unfold preflight
  induction e.queries with
  | nil => simp [pure, Except.pure]
  | cons q rest ih =>
    have step : (q :: rest).forM check = (check q >>= fun _ => rest.forM check) := List.forM_cons ..
    rw [step, List.forall_mem_cons, ← ih]
    cases check q <;> simp [bind, Except.bind]

/-- Every call is a check of all queries followed by an action on each. -/
theorem call_eq (backend : Backend σ) (display : Ipv6Text) (e : QueryEngine σ) (call : Call) :
    e.call backend display call =
      .attempt (e.preflight (fun q => q.check call)) e fun _ =>
      (Run.forEach (RunningQuery.call backend display call) e.queries).map
        (fun queries => { queries, eventsProcessed := e.tick call }) := by
  cases call with
  | process event => rfl
  | advanceTo ts => rfl
  | finish => rfl
  | drain =>
    have passes : e.preflight (fun q => q.check .drain) = .ok () :=
      preflight_ok.mpr (fun _ _ => rfl)
    have emptied : Run.forEach (RunningQuery.call backend display .drain) e.queries =
        .done (e.queries.map (fun q => { q with emitted := [] })) :=
      Run.forEach_of_done (fun _ _ => rfl)
    rw [passes, emptied]
    rfl

theorem call_done {backend : Backend σ} {display : Ipv6Text} {e e' : QueryEngine σ} {call : Call} :
    e.call backend display call = .done e' ↔
      (∀ q ∈ e.queries, q.check call = .ok ()) ∧
      List.Forall₂ (fun q q' => q.call backend display call = .done q') e.queries e'.queries ∧
      e'.eventsProcessed = e.tick call := by
  rw [call_eq, ← preflight_ok]
  cases e.preflight (fun q => q.check call) with
  | error error => simp
  | ok =>
    rw [Run.attempt_ok, Run.map_done]
    constructor
    · rintro ⟨queries, all, rfl⟩
      exact ⟨rfl, Run.forEach_done.mp all, rfl⟩
    · rintro ⟨_, all, count⟩
      exact ⟨e'.queries, Run.forEach_done.mpr all, by rw [← count]⟩

theorem addQuery_ok {backend : Backend σ} {queries result : List (RunningQuery σ)} {plan : Plan} :
    addQuery backend queries plan = .ok result ↔
      plan.query.name ∉ queries.map (fun q => q.plan.query.name) ∧
      (∃ state, backend.build plan.sketch = .ok state) ∧
      queries ++ [RunningQuery.new plan] = result := by
  unfold addQuery
  by_cases used : plan.query.name ∈ queries.map (fun q => q.plan.query.name)
  · simp only [if_pos used, reduceCtorEq, false_iff]
    exact fun fresh => fresh.1 used
  · rw [if_neg used]
    cases backend.build plan.sketch <;> simp [Except.map, used]

theorem addQuery_all {backend : Backend σ} (plans : List Plan) (queries result : List (RunningQuery σ)) :
    plans.foldlM (addQuery backend) queries = .ok result ↔
      (∀ plan ∈ plans, plan.query.name ∉ queries.map (fun q => q.plan.query.name)) ∧
      (plans.map (fun plan => plan.query.name)).Nodup ∧
      (∀ plan ∈ plans, ∃ state, backend.build plan.sketch = .ok state) ∧
      queries ++ plans.map RunningQuery.new = result := by
  induction plans generalizing queries with
  | nil => simp [pure, Except.pure]
  | cons plan rest ih =>
    have step : ∀ first : Except SketchError (List (RunningQuery σ)),
        (first >>= fun queries => rest.foldlM (addQuery backend) queries) = .ok result ↔
          ∃ queries, first = .ok queries ∧ rest.foldlM (addQuery backend) queries = .ok result := by
      intro first
      cases first <;> simp [bind, Except.bind]
    rw [List.foldlM_cons, step]
    simp only [addQuery_ok, ih, List.map_cons, List.nodup_cons, List.forall_mem_cons]
    constructor
    · rintro ⟨_, ⟨fresh, built, rfl⟩, apart, distinct, all, rfl⟩
      refine ⟨⟨fresh, fun other member used => apart other member ?_⟩, ⟨?_, distinct⟩,
        ⟨built, all⟩, by simp⟩
      · simp only [List.map_append, List.mem_append]
        exact Or.inl used
      · intro again
        obtain ⟨other, member, same⟩ := List.mem_map.mp again
        exact apart other member (by simp [same, RunningQuery.new])
    · rintro ⟨⟨fresh, apart⟩, ⟨new, distinct⟩, ⟨built, all⟩, rfl⟩
      refine ⟨_, ⟨fresh, built, rfl⟩, ?_, distinct, all, by simp⟩
      intro other member used
      simp only [List.map_append, List.mem_append, List.map_cons, List.map_nil,
        List.mem_singleton, RunningQuery.new] at used
      rcases used with old | same
      · exact apart other member old
      · exact new (List.mem_map.mpr ⟨other, member, same⟩)

/-- A fresh engine holds one idle query per plan; it exists when the names differ and every plan's
sketch can be built. -/
theorem new_ok {backend : Backend σ} {plans : List Plan} {e : QueryEngine σ} :
    QueryEngine.new backend plans = .ok e ↔
      (plans.map (fun plan => plan.query.name)).Nodup ∧
      (∀ plan ∈ plans, ∃ state, backend.build plan.sketch = .ok state) ∧
      e = { queries := plans.map RunningQuery.new, eventsProcessed := 0 } := by
  have loop := @addQuery_all σ backend plans []
  simp only [List.map_nil, List.not_mem_nil, not_false_eq_true, implies_true, true_and,
    List.nil_append] at loop
  unfold new
  cases folded : plans.foldlM (addQuery backend) [] with
  | error error =>
    simp only [Except.map, reduceCtorEq, false_iff]
    rintro ⟨distinct, all, _⟩
    have succeeds := (loop _).mpr ⟨distinct, all, rfl⟩
    rw [folded] at succeeds
    cases succeeds
  | ok queries =>
    obtain ⟨distinct, all, same⟩ := (loop queries).mp folded
    simp only [Except.map, Except.ok.injEq, same]
    exact ⟨fun eq => ⟨distinct, all, eq.symm⟩, fun both => both.2.2.symm⟩

end QueryEngine

end FlowSketch.Source.Runtime
