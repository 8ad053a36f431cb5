import FlowSketch.Lib.Lists
import FlowSketch.Source.Runtime.Calls

/-!
# Runs, as seen from outside

An observer sees the engine before and after every call and takes notes on each query: where its
first bucket was opened, which events it took in, every window it emitted together with the events
taken in before that window closed, and how far each call moved its last bucket. A session is a run of error-free calls with these notes;
`finish` ends the stream, after it the windows can only be drained.
-/

namespace FlowSketch.Source.Runtime
open Lib.Lists Source.Core

variable {σ : Type}

structure History (σ : Type) where
  first : Option Nat
  applied : List FlowEvent
  closed : List (WindowState σ × List FlowEvent)
  moves : List (Option Nat × List FlowEvent)

namespace RunningQuery

def frontStart (q : RunningQuery σ) : Option Nat := q.buckets.head?.map Bucket.startNanos

/-- The event's bucket starts below the first open bucket. -/
def behind (q : RunningQuery σ) (event : FlowEvent) : Bool :=
  q.frontStart.any (fun front => q.bucketStartFor event.ts < front)

end RunningQuery

namespace History

def start : History σ := { first := none, applied := [], closed := [], moves := [] }

/-- The events a call adds: one that matches and whose bucket is open once the query has advanced. -/
def taken (q' : RunningQuery σ) : Call → List FlowEvent
  | .process event =>
    if q'.plan.query.filter.matches event && !q'.behind event then [event] else []
  | .advanceTo _ | .drain | .finish => []

/-- The notes after a call that led from `q` to `q'`. -/
def after (h : History σ) (call : Call) (q q' : RunningQuery σ) : History σ where
  first := h.first.or q'.frontStart
  applied := h.applied ++ taken q' call
  closed := h.closed ++ (q'.emitted.drop q.emitted.length).map (fun window => (window, h.applied))
  moves := h.moves ++ [(q'.backStart, h.applied)]

/-- The events taken in before the query's last bucket first reached `stop`, where a window that ends
there closes. -/
def beforeClosing (h : History σ) (stop : Nat) : List FlowEvent :=
  match h.moves.find? (fun move => move.1.any (stop ≤ ·)) with
  | some move => move.2
  | none => h.applied

end History

structure Session (σ : Type) where
  engine : QueryEngine σ
  histories : List (History σ)
  finished : Bool

namespace Session

def after (s : Session σ) (call : Call) (engine : QueryEngine σ) : Session σ where
  engine
  histories := List.zipWith3 (fun h q q' => h.after call q q') s.histories s.engine.queries
    engine.queries
  finished := s.finished || call.isFinish

def start (engine : QueryEngine σ) : Session σ where
  engine
  histories := engine.queries.map (fun _ => History.start)
  finished := false

/-- The calls one after the other, up to the first fault. -/
def calls (backend : Backend σ) (display : Ipv6Text) : List Call → Session σ → Run (Session σ)
  | [], s => .done s
  | call :: rest, s =>
    match s.engine.call backend display call with
    | .done engine => calls backend display rest (s.after call engine)
    | .failed fault engine => .failed fault { s with engine }

/-- The sessions of an engine over `plans` in which every call meets `guard`. -/
inductive Reached (backend : Backend σ) (display : Ipv6Text) (plans : List Plan)
    (guard : RunningQuery σ → Call → Prop) : Session σ → Prop
  | start {engine : QueryEngine σ} (built : QueryEngine.new backend plans = .ok engine) :
      Reached backend display plans guard (start engine)
  | call {s : Session σ} (call : Call) {engine : QueryEngine σ}
      (before : Reached backend display plans guard s)
      (open_ended : s.finished = true → call = .drain)
      (meets : ∀ q ∈ s.engine.queries, guard q call)
      (done : s.engine.call backend display call = .done engine) :
      Reached backend display plans guard (s.after call engine)

variable {backend : Backend σ} {display : Ipv6Text} {plans : List Plan}
  {guard : RunningQuery σ → Call → Prop} {P Q : RunningQuery σ → History σ → Prop}

/-- Queries before a call, their notes and the queries after it, side by side. -/
theorem exists_moves {hs : List (History σ)} {qs qs' : List (RunningQuery σ)}
    {D : RunningQuery σ → RunningQuery σ → Prop} (before : List.Forall₂ P qs hs)
    (moves : List.Forall₂ D qs qs') :
    ∃ ts : List (RunningQuery σ × History σ × RunningQuery σ), qs = ts.map (fun t => t.1) ∧
      hs = ts.map (fun t => t.2.1) ∧ qs' = ts.map (fun t => t.2.2) ∧
      (∀ call, List.zipWith3 (fun h q q' => h.after call q q') hs qs qs' =
        ts.map (fun t => t.2.1.after call t.1 t.2.2)) ∧
      ∀ t ∈ ts, t.1 ∈ qs ∧ P t.1 t.2.1 ∧ D t.1 t.2.2 := by
  obtain ⟨ts, rfl, rfl, rfl, all⟩ := exists_triples before moves
  refine ⟨ts, rfl, rfl, rfl, fun call => zipWith3_map .., fun t member => ?_⟩
  exact ⟨List.mem_map_of_mem member, all t member⟩

theorem forall_moves {hs : List (History σ)} {qs qs' : List (RunningQuery σ)}
    {D E : RunningQuery σ → RunningQuery σ → Prop} (before : List.Forall₂ P qs hs)
    (moves : List.Forall₂ D qs qs') (step : ∀ q ∈ qs, ∀ h q', P q h → D q q' → E q q') :
    List.Forall₂ E qs qs' := by
  obtain ⟨ts, rfl, rfl, rfl, _, all⟩ := exists_moves before moves
  rw [List.forall₂_map_left_iff, List.forall₂_map_right_iff, List.forall₂_same]
  intro t member
  obtain ⟨inside, holds, moved⟩ := all t member
  exact step t.1 inside t.2.1 t.2.2 holds moved

theorem after_forall {call : Call} {hs : List (History σ)} {qs qs' : List (RunningQuery σ)}
    {D : RunningQuery σ → RunningQuery σ → Prop} (before : List.Forall₂ P qs hs)
    (moves : List.Forall₂ D qs qs')
    (step : ∀ q ∈ qs, ∀ h q', P q h → D q q' → Q q' (h.after call q q')) :
    List.Forall₂ Q qs' (List.zipWith3 (fun h q q' => h.after call q q') hs qs qs') := by
  obtain ⟨ts, rfl, rfl, rfl, notes, all⟩ := exists_moves before moves
  rw [notes, List.forall₂_map_left_iff, List.forall₂_map_right_iff, List.forall₂_same]
  intro t member
  obtain ⟨inside, holds, moved⟩ := all t member
  exact step t.1 inside t.2.1 t.2.2 holds moved

/-- A property of a query and its notes that every call preserves holds throughout a session. -/
theorem Reached.forall_queries {P : Bool → RunningQuery σ → History σ → Prop}
    (start : ∀ plan ∈ plans, P false (RunningQuery.new plan) History.start)
    (step : ∀ finished q h call q', P finished q h → (finished = true → call = .drain) →
      guard q call → q.check call = .ok () → q.call backend display call = .done q' →
      q'.plan = q.plan ∧ P (finished || call.isFinish) q' (h.after call q q'))
    {s : Session σ} (reached : Reached backend display plans guard s) :
    s.engine.queries.map RunningQuery.plan = plans ∧
      List.Forall₂ (P s.finished) s.engine.queries s.histories := by
  induction reached with
  | start built =>
    obtain ⟨_, _, rfl⟩ := QueryEngine.new_ok.mp built
    refine ⟨by simp [Session.start, Function.comp_def, RunningQuery.new], ?_⟩
    simp only [Session.start, List.map_map]
    rw [List.forall₂_map_left_iff, List.forall₂_map_right_iff, List.forall₂_same]
    exact start
  | call call _ open_ended meets done ih =>
    obtain ⟨samePlans, holds⟩ := ih
    obtain ⟨checks, moves, _⟩ := QueryEngine.call_done.mp done
    have stepped := fun q member h q' before move =>
      step _ q h call q' before open_ended (meets q member) (checks q member) move
    refine ⟨?_, after_forall holds moves (fun q member h q' before move =>
      (stepped q member h q' before move).2)⟩
    have kept := forall_moves holds moves (fun q member h q' before move =>
      (stepped q member h q' before move).1)
    rw [← samePlans, eq_comm, ← List.forall₂_eq_eq_eq, List.forall₂_map_left_iff,
      List.forall₂_map_right_iff]
    exact kept.imp (fun _ _ same => same.symm)

end Session

end FlowSketch.Source.Runtime
