import FlowSketch.Source.Runtime.State

/-!
# Estimates of a window

`emit_estimates` in `crates/flowsketch-runtime/src/lib.rs`, with the queries on the sketches that it
makes. `asFloat` is the `f64` of a cardinality and `lossy` is `String::from_utf8_lossy`. The memory
figure of an estimate counts allocated capacity, which the model does not have, and is left out.
-/

namespace FlowSketch.Source
open Lib.Octets Lib.Word64 Lib.CounterSummary Source.Core

/-- `split_group_key`, before the parts are read as text. -/
def splitGroupKey (key : Bytes) : List Bytes :=
  if key.isEmpty then [] else key.splitOn groupKeySep

namespace CountMinSketch

def hashFailureFloor : Float := 1.0 / 18446744073709551616.0

def epsilon (s : CountMinSketch) : Float := Float.exp 1.0 / Float.ofNat s.width

def delta (s : CountMinSketch) : Float := Float.exp (-(Float.ofNat s.depth)) + hashFailureFloor

end CountMinSketch

/-- `1.04 / sqrt(2^precision)`. -/
def relativeError (precision : Nat) : Float := 1.04 / (Float.ofNat (2 ^ precision)).sqrt

/-- All tracked keys with estimated cardinality, sorted descending, then by key. -/
def HllMap.entries {F : Type} [LinearOrder F] (cardinality : Cardinality F) (s : HllMap F) :
    List (Bytes × F) :=
  (s.map.map (fun (key, slot) => (key, cardinality.of slot.hll))).mergeSort
    (fun left right => right.2 < left.2 ∨ right.2 = left.2 ∧ left.1 ≤ right.1)

namespace PhysicalSketch

mutual
/-- Short algorithm name for labels and explain output. -/
def algorithmName : PhysicalSketch → String
  | .countMin _ _ _ => "count-min"
  | .countSketch _ _ => "count-sketch"
  | .spaceSaving _ => "spacesaving"
  | .misraGries _ => "misra-gries"
  | .hyperLogLog _ => "hll"
  | .hllMap _ _ => "hllmap"
  | .kll _ => "kll"
  | .composite stages => "+".intercalate (algorithmNames stages)

def algorithmNames : List PhysicalSketch → List String
  | [] => []
  | stage :: rest => stage.algorithmName :: algorithmNames rest
end

end PhysicalSketch

namespace Runtime

structure SketchEstimate where
  queryName : String
  windowStartNanos : Nat
  windowEndNanos : Nat
  group : List (String × String)
  estimate : Float
  lowerBound : Option Float
  upperBound : Option Float
  confidence : Option Float
  algorithm : String
  updateCount : Nat

variable {F : Type} [LinearOrder F] (cardinality : Cardinality F) (asFloat : F → Float)

/-- One tracked key of the head: its mass and its exact entropy term. -/
def addHeadTerm (n : Float) (head : Float × Float) (tracked : Bytes × Entry) : Float × Float :=
  let g := Float.ofNat (guaranteed tracked.2)
  if g > 0.0 then
    let p := g / n
    (head.1 + g, head.2 - p * Float.log2 p)
  else head

def estimateEntropyBits (ss : SpaceSaving) (hll : HyperLogLog) : Option Float :=
  let n := Float.ofNat ss.totalWeight
  if n ≤ 0.0 then none
  else
    let tracked := ss.topK ss.capacity
    let (headMass, entropy) := tracked.foldl (addHeadTerm n) (0.0, 0.0)
    let tailMass := max (n - headMass) 0.0
    let entropy :=
      if tailMass > 0.0 then
        let tailSupport := max (asFloat (cardinality.of hll) - Float.ofNat tracked.length) 1.0
        -- Uniform tail: support * (m/support/n) * log2(n*support/m).
        let pEach := tailMass / tailSupport / n
        if pEach > 0.0 then entropy - tailMass / n * Float.log2 pEach else entropy
      else entropy
    some (max entropy 0.0)

/-- `f64` bounds around a cardinality. -/
def cardinalityBounds (precision : Nat) (card : Float) (base : SketchEstimate) : SketchEstimate :=
  let rel := relativeError precision
  { base with lowerBound := some (card * (1.0 - 2.0 * rel))
              upperBound := some (card * (1.0 + 2.0 * rel)), confidence := some 0.95 }

variable (hashing : Hashing) (lossy : Bytes → String)

def emitEstimates (plan : Plan) (state : QueryState F) (windowStart windowEnd : Nat) :
    List SketchEstimate :=
  if state.updateCount = 0 then []
  else
    let q := plan.query
    let cap := min plan.exportSeriesUpperBound q.maxSeries
    let labels := q.groupBy.map Field.name
    let makeGroup (key : Bytes) := labels.zip ((splitGroupKey key).map lossy)
    let base (group : List (String × String)) (estimate : Float) : SketchEstimate :=
      { queryName := q.name, windowStartNanos := windowStart, windowEndNanos := windowEnd, group
        estimate, lowerBound := none, upperBound := none, confidence := none
        algorithm := plan.sketch.algorithmName, updateCount := state.updateCount }
    let out : List SketchEstimate :=
      match state with
      | .heavyHitters ss =>
        (ss.topK cap).map (fun (key, entry) =>
          { base (makeGroup key) (Float.ofNat entry.count) with
            upperBound := some (Float.ofNat entry.count)
            lowerBound := some (Float.ofNat (guaranteed entry)) })
      | .counter cm keys =>
        (keys.topK cap).map (fun (key, _) =>
          let est := Float.ofNat (cm.estimateU64 hashing key)
          let slack := cm.epsilon * Float.ofNat cm.totalWeight
          { base (makeGroup key) est with
            upperBound := some est, lowerBound := some (max (est - slack) 0.0)
            confidence := some (1.0 - cm.delta) })
      | .distinctPerKey map =>
        ((map.entries cardinality).take cap).map (fun (key, card) =>
          cardinalityBounds map.precision (asFloat card) (base (makeGroup key) (asFloat card)))
      | .distinctGlobal hll =>
        let card := asFloat (cardinality.of hll)
        [cardinalityBounds hll.precision card (base [] card)]
      | .quantile kll =>
        match q.measure with
        | .quantile _ quantile =>
          match kll.quantile quantile with
          | some value =>
            let eps := kll.rankError
            [{ base [] (Float.ofNat value) with
               lowerBound := (kll.quantile (max (quantile - eps) 0.0)).map Float.ofNat
               upperBound := (kll.quantile (min (quantile + eps) 1.0)).map Float.ofNat
               confidence := some 0.99 }]
          | none => []
        | _ => []
      | .entropy ss hll =>
        match estimateEntropyBits cardinality asFloat ss hll with
        | some bits => [base [] bits]
        | none => []
    if q.alert.isEmpty then out else out.filter (fun e => q.alert.fires e.estimate)

def WindowState.estimates (plan : Plan) (w : WindowState (QueryState F)) : List SketchEstimate :=
  emitEstimates cardinality asFloat hashing lossy plan w.state w.windowStartNanos w.windowEndNanos

end Runtime

end FlowSketch.Source
