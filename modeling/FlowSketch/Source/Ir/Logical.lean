import FlowSketch.Source.Core.Event
import FlowSketch.Lib.Word64

/-!
# Logical and physical queries

`crates/flowsketch-ir/src/{logical,physical}.rs` and the planner's output type. The requested error
and memory budget only steer the choice of the physical sketch and are left out; `Plan` keeps what
the runtime reads, with the facts every planned query has.
-/

namespace FlowSketch.Source
open Lib.Word64 Source.Core

structure WindowSpec where
  sizeNanos : Nat
  slideNanos : Nat
  deriving DecidableEq, Repr

def WindowSpec.bucketCount (window : WindowSpec) : Nat := max (window.sizeNanos / window.slideNanos) 1

inductive Measure where
  | count
  | sum (value : Field)
  | heavyHitters (value : Field) (limit : Nat)
  | distinctCount (field : Field)
  | entropy (field : Field)
  | quantile (field : Field) (q : Float)

/-- Conjunctive filter over flow events. -/
structure Predicate where
  protocol : Option UInt8
  dstPorts : List UInt16
  srcPorts : List UInt16
  interfaces : List UInt32
  deriving DecidableEq, Repr

def Predicate.matches (p : Predicate) (e : FlowEvent) : Bool :=
  if p.protocol.any (fun protocol => e.protocol ≠ protocol) then false
  else if ¬p.dstPorts.isEmpty ∧ ¬p.dstPorts.contains e.dstPort then false
  else if ¬p.srcPorts.isEmpty ∧ ¬p.srcPorts.contains e.srcPort then false
  else if ¬p.interfaces.isEmpty ∧ ¬p.interfaces.contains e.interfaceIndex then false
  else true

def Predicate.all : Predicate := { protocol := none, dstPorts := [], srcPorts := [], interfaces := [] }

structure AlertSpec where
  gt : Option Float
  lt : Option Float

def AlertSpec.fires (alert : AlertSpec) (value : Float) : Bool :=
  (alert.gt.map (fun t => decide (value > t))).getD false ||
    (alert.lt.map (fun t => decide (value < t))).getD false

def AlertSpec.isEmpty (alert : AlertSpec) : Bool := alert.gt.isNone && alert.lt.isNone

structure LogicalQuery where
  name : String
  filter : Predicate
  groupBy : List Field
  measure : Measure
  window : WindowSpec
  alert : AlertSpec
  maxSeries : Nat

inductive PhysicalSketch where
  | countMin (width depth : Nat) (conservativeUpdate : Bool)
  | countSketch (width depth : Nat)
  | spaceSaving (capacity : Nat)
  | misraGries (capacity : Nat)
  | hyperLogLog (precision : Nat)
  | hllMap (maxKeys precision : Nat)
  | kll (k : Nat)
  | composite (stages : List PhysicalSketch)

/-- The planner's decision table: which sketch serves which measure. -/
inductive PhysicalSketch.Serves : Measure → PhysicalSketch → Prop
  | count (capacity width depth : Nat) :
      Serves .count (.composite [.spaceSaving capacity, .countMin width depth true])
  | sum (value : Field) (capacity width depth : Nat) :
      Serves (.sum value) (.composite [.spaceSaving capacity, .countMin width depth true])
  | heavyHitters (value : Field) (limit capacity : Nat) :
      Serves (.heavyHitters value limit) (.spaceSaving capacity)
  | distinctGlobal (field : Field) (precision : Nat) :
      Serves (.distinctCount field) (.hyperLogLog precision)
  | distinctPerKey (field : Field) (maxKeys precision : Nat) :
      Serves (.distinctCount field) (.hllMap maxKeys precision)
  | entropy (field : Field) (capacity precision : Nat) :
      Serves (.entropy field) (.composite [.spaceSaving capacity, .hyperLogLog precision])
  | quantile (field : Field) (q : Float) (k : Nat) : Serves (.quantile field q) (.kll k)

/-- A planned query. A plan can only exist for a positive slide, since the bucket count divides by
it, and its pending capacity is its bucket count. -/
structure Plan where
  query : LogicalQuery
  sketch : PhysicalSketch
  windowBuckets : Nat
  pendingWindowCapacity : Nat
  exportSeriesUpperBound : Nat
  slide_pos : 0 < query.window.slideNanos
  slide_word : query.window.slideNanos < modulus
  size_word : query.window.sizeNanos < modulus
  buckets_eq : windowBuckets = query.window.bucketCount
  pending_eq : pendingWindowCapacity = windowBuckets
  serves : sketch.Serves query.measure

namespace Plan

def slide (plan : Plan) : Nat := plan.query.window.slideNanos

theorem buckets_pos (plan : Plan) : 0 < plan.windowBuckets := by
  rw [plan.buckets_eq, WindowSpec.bucketCount]
  omega

/-- The whole window fits a word. -/
theorem span_lt (plan : Plan) : plan.windowBuckets * plan.slide < modulus := by
  rw [plan.buckets_eq, WindowSpec.bucketCount, slide]
  rcases Nat.le_total (plan.query.window.sizeNanos / plan.query.window.slideNanos) 1 with few | many
  · rw [Nat.max_eq_right few, Nat.one_mul]
    exact plan.slide_word
  · rw [Nat.max_eq_left many]
    exact (Nat.div_mul_le_self _ _).trans_lt plan.size_word

/-- Flows per destination port over three buckets of ten nanoseconds; the plan of concrete runs. -/
def slidingCounts : Plan where
  query := { name := "flows", filter := Predicate.all, groupBy := [.dstPort], measure := .count,
             window := { sizeNanos := 30, slideNanos := 10 }, alert := { gt := none, lt := none },
             maxSeries := 100 }
  sketch := .composite [.spaceSaving 4, .countMin 8 2 true]
  windowBuckets := 3
  pendingWindowCapacity := 3
  exportSeriesUpperBound := 4
  slide_pos := by decide
  slide_word := by decide
  size_word := by decide
  buckets_eq := by decide
  pending_eq := rfl
  serves := .count 4 8 2

end Plan

end FlowSketch.Source
