import FlowSketch.Source.Core.Snapshot
import FlowSketch.Source.Runtime.Backpressure

/-!
# What the states of an engine have in common

Every state an engine holds or has emitted was built for its query, updated with events and merged
with others of the query. What these operations keep, all of them have.
-/

namespace FlowSketch.Source.Runtime
open Lib.Word64 Source.Core

variable {σ : Type}

theorem extractValue_lt (field : Field) (event : FlowEvent) : field.extractValue event < modulus := by
  have wide : ∀ {n m : Nat}, n < 2 ^ m → m ≤ 64 → n < modulus := fun small fits =>
    small.trans_le (Nat.pow_le_pow_right (by decide) fits)
  cases field with
  | bytes => exact wide event.bytes.toNat_lt (by decide)
  | packets => exact wide event.packets.toNat_lt (by decide)
  | srcPort => exact wide event.srcPort.toNat_lt (by decide)
  | dstPort => exact wide event.dstPort.toNat_lt (by decide)
  | protocol => exact wide event.protocol.toNat_lt (by decide)
  | tcpFlags => exact wide event.tcpFlags.toNat_lt (by decide)
  | interfaceIndex => exact wide event.interfaceIndex.toNat_lt (by decide)
  | nodeId => exact wide event.nodeId.toNat_lt (by decide)
  | srcIp | dstIp | direction => exact modulus_pos

theorem updateOf_weight_lt (display : Ipv6Text) (plan : Plan) (event : FlowEvent) :
    (updateOf display plan event).weight < modulus := by
  show weightOf plan event < modulus
  unfold weightOf
  split
  · exact extractValue_lt _ event
  · decide

/-- Kept by every operation on the states of `sketch`. The weights of updates are words. -/
structure Kept (backend : Backend σ) (sketch : PhysicalSketch) (P : σ → Prop) : Prop where
  build : ∀ {state}, backend.build sketch = .ok state → P state
  apply : ∀ {state update state'}, P state → update.weight < modulus →
    backend.apply state update = some state' → P state'
  merge : ∀ {left right merged}, P left → P right → backend.mergeFrom left right = .ok merged →
    P merged

namespace Run

variable {S : Type} {P : S → Prop}

theorem state_bind {first : Run S} {next : S → Run S} (start : P first.state)
    (step : ∀ s, P s → P (next s).state) : P (first.bind next).state := by
  cases first with
  | done s => exact step s start
  | failed fault s => exact start

theorem state_attempt {α : Type} {result : Except SketchError α} {s : S} {next : α → Run S}
    (start : P s) (step : ∀ value, result = .ok value → P (next value).state) :
    P (Run.attempt result s next).state := by
  cases result with
  | ok value => exact step value rfl
  | error e => exact start

theorem state_forEach {step : S → Run S} {items : List S}
    (start : ∀ s ∈ items, P s) (each : ∀ s ∈ items, P s → P (step s).state) :
    ∀ s ∈ (Run.forEach step items).state, P s := by
  induction items with
  | nil => simp [Run.forEach, Run.state]
  | cons s rest ih =>
    rw [List.forall_mem_cons] at start each
    have here := each.1 start.1
    rw [Run.forEach]
    cases taken : step s with
    | failed fault s' =>
      rw [taken] at here
      exact List.forall_mem_cons.mpr ⟨here, start.2⟩
    | done s' =>
      rw [taken] at here
      have later := ih start.2 each.2
      cases remaining : Run.forEach step rest <;>
        exact List.forall_mem_cons.mpr ⟨here, by rw [remaining] at later; exact later⟩

end Run

/-- `P` of every state the query holds, and words for the bounds of its buckets and windows. -/
structure RunningQuery.Holds (plan : Plan) (P : σ → Prop) (q : RunningQuery σ) : Prop where
  plan : q.plan = plan
  buckets : ∀ bucket ∈ q.buckets, P bucket.state ∧ bucket.startNanos < modulus
  emitted : ∀ window ∈ q.emitted, P window.state ∧ window.windowStartNanos < modulus ∧
    window.windowEndNanos < modulus

namespace RunningQuery.Holds

variable {backend : Backend σ} {plan : Plan} {P : σ → Prop} (kept : Kept backend plan.sketch P)
variable {q : RunningQuery σ}

include kept

theorem newBucket (holds : q.Holds plan P) {start : Nat} (word : start < modulus) {bucket : Bucket σ}
    (built : q.newBucket backend start = .ok bucket) :
    P bucket.state ∧ bucket.startNanos < modulus := by
  obtain ⟨state, created, rfl⟩ := map_ok built
  rw [holds.plan] at created
  exact ⟨kept.build created, word⟩

theorem mergeBuckets {front merged : σ} {rest : List (Bucket σ)} (first : P front)
    (others : ∀ bucket ∈ rest, P bucket.state)
    (joined : RunningQuery.mergeBuckets backend front rest = .ok merged) : P merged := by
  induction rest generalizing front with
  | nil =>
    cases joined
    exact first
  | cons bucket rest ih =>
    rw [List.forall_mem_cons] at others
    obtain ⟨next, step, joined⟩ := bind_ok joined
    exact ih (kept.merge first others.1 step) others.2 joined

theorem flushWindow (holds : q.Holds plan P) {windowEnd : Nat} (word : windowEnd < modulus) :
    (q.flushWindow backend windowEnd).state.Holds plan P := by
  unfold RunningQuery.flushWindow
  split
  · exact holds
  next front rest shape =>
    have all := holds.buckets
    rw [shape, List.forall_mem_cons] at all
    refine Run.state_attempt holds fun _ _ => ?_
    refine Run.state_attempt holds fun merged joined => ?_
    refine ⟨holds.plan, holds.buckets, fun window member => ?_⟩
    rcases List.mem_append.mp member with old | new
    · exact holds.emitted window old
    · rw [List.mem_singleton.mp new]
      exact ⟨mergeBuckets kept all.1.1 (fun bucket inside => (all.2 bucket inside).1) joined,
        all.1.2, word⟩

omit kept in
theorem push (holds : q.Holds plan P) {bucket : Bucket σ}
    (new : P bucket.state ∧ bucket.startNanos < modulus) (k : Nat) :
    RunningQuery.Holds plan P { q with buckets := (q.buckets ++ [bucket]).drop k } := by
  refine ⟨holds.plan, fun other member => ?_, holds.emitted⟩
  rcases List.mem_append.mp (List.mem_of_mem_drop member) with old | last
  · exact holds.buckets other old
  · rw [List.mem_singleton.mp last]
    exact new

theorem slideOnce (holds : q.Holds plan P) : (q.slideOnce backend).state.Holds plan P := by
  unfold RunningQuery.slideOnce
  split
  · exact holds
  next back _ =>
    refine Run.state_bind (flushWindow kept holds (wrappingAdd_lt _ _)) fun flushed later => ?_
    refine Run.state_attempt later fun bucket built => ?_
    exact push later (newBucket kept later (wrappingAdd_lt _ _) built) _

theorem slideTimes (n : Nat) (holds : q.Holds plan P) :
    (RunningQuery.slideTimes backend n q).state.Holds plan P := by
  induction n generalizing q with
  | zero => exact holds
  | succ n ih => exact Run.state_bind (slideOnce kept holds) fun _ later => ih later

theorem slideUntil (target rounds : Nat) (holds : q.Holds plan P) :
    (RunningQuery.slideUntil backend target rounds q).state.Holds plan P := by
  induction rounds generalizing q with
  | zero => exact holds
  | succ rounds ih =>
    rw [RunningQuery.slideUntil]
    split
    · exact holds
    · split
      · exact Run.state_bind (slideOnce kept holds) fun _ later => ih later
      · exact holds

theorem pushRing (target rounds : Nat) {start : Nat} (word : start < modulus)
    (holds : q.Holds plan P) :
    (RunningQuery.pushRing backend target rounds start q).state.Holds plan P := by
  induction rounds generalizing q start with
  | zero => exact holds
  | succ rounds ih =>
    rw [RunningQuery.pushRing]
    refine Run.state_attempt holds fun bucket built => ?_
    have longer := push holds (newBucket kept holds word built) 0
    rw [List.drop_zero] at longer
    dsimp only
    split
    · exact longer
    · exact ih (wrappingAdd_lt _ _) longer

theorem advanceToBucket {target : Nat} (word : target < modulus) (holds : q.Holds plan P) :
    (q.advanceToBucket backend target).state.Holds plan P := by
  unfold RunningQuery.advanceToBucket
  refine Run.state_attempt holds fun _ _ => ?_
  split
  · refine Run.state_attempt holds fun bucket built => ?_
    have longer := push holds (newBucket kept holds word built) 0
    rw [List.drop_zero] at longer
    exact longer
  · split
    · refine Run.state_bind (slideTimes kept _ holds) fun slid later => ?_
      refine pushRing kept _ _ ((Nat.sub_le _ _).trans_lt word) ?_
      exact ⟨later.plan, by simp, later.emitted⟩
    · exact slideUntil kept _ _ holds

theorem applyAt (index : Nat) {update : Update} (word : update.weight < modulus)
    (holds : q.Holds plan P) : (q.applyAt backend index update).state.Holds plan P := by
  unfold RunningQuery.applyAt
  split
  · exact holds
  next bucket present =>
    split
    · exact holds
    next state applied =>
      have old := holds.buckets bucket (List.mem_of_getElem? present)
      refine ⟨holds.plan, fun other member => ?_, holds.emitted⟩
      rcases List.mem_or_eq_of_mem_set member with before | rfl
      · exact holds.buckets other before
      · exact ⟨kept.apply old.1 word applied, old.2⟩

theorem process (display : Ipv6Text) (event : FlowEvent) (holds : q.Holds plan P) :
    (q.process backend display event).state.Holds plan P := by
  have word := updateOf_weight_lt display q.plan event
  have start : q.bucketStartFor event.ts < modulus :=
    (Nat.sub_le _ _).trans_lt event.ts_lt
  unfold RunningQuery.process
  split
  · exact holds
  · dsimp only
    split
    · exact applyAt kept _ word holds
    · refine Run.state_bind (advanceToBucket kept start holds) fun advanced later => ?_
      split
      · exact ⟨later.plan, later.buckets, later.emitted⟩
      · exact applyAt kept _ word later

theorem call (display : Ipv6Text) (call : Call) (holds : q.Holds plan P) :
    (q.call backend display call).state.Holds plan P := by
  cases call with
  | process event => exact process kept display event holds
  | advanceTo ts => exact advanceToBucket kept ((Nat.sub_le _ _).trans_lt ts.toNat_lt) holds
  | drain => exact ⟨holds.plan, holds.buckets, by simp [RunningQuery.call, Run.state]⟩
  | finish =>
    show (q.finish backend).state.Holds plan P
    unfold RunningQuery.finish
    split
    · exact holds
    · refine Run.state_attempt holds fun _ _ => ?_
      exact flushWindow kept holds (wrappingAdd_lt _ _)

end RunningQuery.Holds

/-- Every query of a reachable engine belongs to a plan, and its states have what the plan's
operations keep. -/
theorem QueryEngine.Reachable.holds {backend : Backend σ} {display : Ipv6Text} {plans : List Plan}
    {P : Plan → σ → Prop} (kept : ∀ plan ∈ plans, Kept backend plan.sketch (P plan))
    {e : QueryEngine σ} (reachable : QueryEngine.Reachable backend display plans e) :
    ∀ q ∈ e.queries, ∃ plan ∈ plans, q.Holds plan (P plan) := by
  induction reachable with
  | new built =>
    obtain ⟨_, _, rfl⟩ := QueryEngine.new_ok.mp built
    intro q member
    obtain ⟨plan, planned, rfl⟩ := List.mem_map.mp member
    exact ⟨plan, planned, rfl, by simp [RunningQuery.new], by simp [RunningQuery.new]⟩
  | @call e _ call ih =>
    have step : ∀ q ∈ e.queries, (∃ plan ∈ plans, q.Holds plan (P plan)) →
        ∃ plan ∈ plans, (q.call backend display call).state.Holds plan (P plan) := by
      rintro q _ ⟨plan, planned, holds⟩
      exact ⟨plan, planned, holds.call (kept plan planned) display call⟩
    have all := Run.state_forEach ih step
    rw [QueryEngine.call_eq]
    cases e.preflight (fun q => q.check call) with
    | error error => exact ih
    | ok =>
      rw [Run.attempt_ok]
      cases ran : Run.forEach (RunningQuery.call backend display call) e.queries <;>
        exact fun q member => all q (by rw [ran]; exact member)

end FlowSketch.Source.Runtime
