import FlowSketch.Source.Runtime.StateInvariant

/-!
# The engine over the sketches

Backpressure and the far-future path, for the sketches the runtime builds.
-/

namespace FlowSketch.Source.Runtime
open Lib.Octets Lib.Word64 Source.Core

variable {F : Type} [LinearOrder F] {cardinality : Cardinality F} {hashing : Hashing} {hash : HashSpec}
variable {display : Ipv6Text} {plans : List Plan}

theorem QueryEngine.Reachable.total {e : QueryEngine (QueryState F)}
    (reachable : QueryEngine.Reachable (queryBackend cardinality hashing hash) display plans e) :
    ∀ plan ∈ plans, Total (queryBackend cardinality hashing hash) plan.sketch := by
  induction reachable with
  | new built =>
    obtain ⟨_, builds, _⟩ := QueryEngine.new_ok.mp built
    intro plan member
    obtain ⟨state, build⟩ := builds plan member
    exact queryBackend_total build
  | call _ _ ih => exact ih

/-- The last bucket is more than the ring's length behind the target, and the call is not refused:
the fast path and the loop leave the same query but for the empty windows the loop goes on to emit. -/
theorem far_future_agrees {e : QueryEngine (QueryState F)}
    (reachable : QueryEngine.Reachable (queryBackend cardinality hashing hash) display plans e)
    {q : RunningQuery (QueryState F)} (member : q ∈ e.queries) {back target : Nat}
    (last : q.backStart = some back) (multiple : q.plan.slide ∣ target) (word : target < modulus)
    (far : q.plan.windowBuckets < (target - back) / q.plan.slide) {fast : RunningQuery (QueryState F)}
    (taken : q.advanceToBucket (queryBackend cardinality hashing hash) target = .done fast) :
    ∃ slow, RunningQuery.slowLoop (queryBackend cardinality hashing hash) target (target - back) q =
        .done slow ∧
      FastForwards (queryBackend cardinality hashing hash) q fast slow target :=
  (reachable.sound reachable.total q member).fastForward queryBackend_counts last multiple word far
    taken

/-! ## A run -/

/-- Cardinalities that count updates. -/
def updatesCardinality : Cardinality Nat := { of := HyperLogLog.updates, one := 1 }

def sampleBackend : Backend (QueryState Nat) := queryBackend updatesCardinality fsk1 (HashSpec.new 0)

/-- Three buckets of ten nanoseconds. -/
def sampleWindow : WindowSpec := { sizeNanos := 30, slideNanos := 10 }

def distinctSources : Plan where
  query := { name := "sources", filter := Predicate.all, groupBy := [], measure := .distinctCount .srcIp
             window := sampleWindow, alert := { gt := none, lt := none }, maxSeries := 100 }
  sketch := .hyperLogLog 4
  windowBuckets := sampleWindow.bucketCount
  pendingWindowCapacity := sampleWindow.bucketCount
  exportSeriesUpperBound := 1
  slide_pos := by decide
  slide_word := by decide
  size_word := by decide
  buckets_eq := rfl
  pending_eq := rfl
  serves := .distinctGlobal .srcIp 4

/-- The engine over one plan, before any event. -/
def sampleEngine : QueryEngine (QueryState Nat) :=
  { queries := [RunningQuery.new distinctSources], eventsProcessed := 0 }

theorem sampleEngine_reachable :
    QueryEngine.Reachable sampleBackend Ipv6Text.expanded [distinctSources] sampleEngine :=
  .new rfl

/-- The engine after its watermark has moved to zero. -/
def startedEngine : QueryEngine (QueryState Nat) :=
  (sampleEngine.call sampleBackend Ipv6Text.expanded (.advanceTo 0)).state

def startedQuery : RunningQuery (QueryState Nat) :=
  ((RunningQuery.new distinctSources).advanceToBucket sampleBackend 0).state

theorem startedQuery_member : startedQuery ∈ startedEngine.queries := by
  show startedQuery ∈ [startedQuery]
  exact List.mem_singleton.mpr rfl

theorem startedEngine_agrees :
    ∃ fast slow, startedQuery.advanceToBucket sampleBackend 100 = .done fast ∧
      RunningQuery.slowLoop sampleBackend 100 100 startedQuery = .done slow ∧
      FastForwards sampleBackend startedQuery fast slow 100 := by
  have taken : startedQuery.advanceToBucket sampleBackend 100 =
      .done (startedQuery.advanceToBucket sampleBackend 100).state := rfl
  have last : startedQuery.backStart = some 0 := rfl
  obtain ⟨slow, looped, agrees⟩ := far_future_agrees
    (.call sampleEngine_reachable (.advanceTo 0)) startedQuery_member last (by decide) (by decide)
    (by decide) taken
  exact ⟨_, slow, taken, looped, agrees⟩

/-- A gap after nothing at all: the fast path emits a ring's worth of windows without updates, where
the loop emits none with updates. -/
theorem gap_emits_empty_windows :
    QueryEngine.Reachable sampleBackend Ipv6Text.expanded [distinctSources] startedEngine ∧
      startedQuery ∈ startedEngine.queries ∧
      ∃ fast slow, startedQuery.advanceToBucket sampleBackend 100 = .done fast ∧
        RunningQuery.slowLoop sampleBackend 100 100 startedQuery = .done slow ∧
        fast.emitted.map (fun window => sampleBackend.updateCount window.state) = [0, 0, 0] ∧
        slow.emitted.filter (fun window => sampleBackend.updateCount window.state ≠ 0) = [] :=
  ⟨.call sampleEngine_reachable (.advanceTo 0), startedQuery_member, _, _, rfl, rfl, rfl, rfl⟩

end FlowSketch.Source.Runtime
