import FlowSketch.Source.Ir.Logical

/-!
# The query planner

`crates/flowsketch-planner/src/lib.rs` and the memory estimate of `crates/flowsketch-ir/src/physical.rs`.
What the planner computes in floating point enters through `FloatSteps`: sizes come out of it as the
words the casts give, and the clamps behind the casts are written here. `1u64 << precision` is a power of
two, since a precision is at most 18.
-/

namespace FlowSketch.Source
open Lib.Word64 Source.Core

/-! ## Memory of a sketch -/

section

variable (add mul : Nat → Nat → Nat) (keyBytes : Nat)

mutual

/-- The memory formula over an addition and a multiplication. -/
def PhysicalSketch.memoryBytes : PhysicalSketch → Nat
  | .countMin width depth _ => add (mul (mul width depth) 8) 64
  | .countSketch width depth => add (mul (mul width depth) 8) 64
  | .spaceSaving capacity => add (mul capacity (add keyBytes 192)) 128
  | .misraGries capacity => add (mul capacity (add (add keyBytes 16) 48)) 64
  | .hyperLogLog precision => add (2 ^ precision) 64
  | .hllMap maxKeys precision =>
    add (mul maxKeys (add (add (add (2 ^ precision) (mul 2 keyBytes)) 48) 32)) 64
  | .kll k => add (mul (mul k 3) 8) 64
  | .composite stages => stagesMemoryBytes stages

def stagesMemoryBytes : List PhysicalSketch → Nat
  | [] => 0
  | stage :: rest => add stage.memoryBytes (stagesMemoryBytes rest)

end

end

/-- `estimated_memory_bytes`, in words. -/
def PhysicalSketch.estimatedMemoryBytes (sketch : PhysicalSketch) (keyBytes : Nat) : Nat :=
  sketch.memoryBytes wrappingAdd wrappingMul keyBytes

namespace Planner

/-! ## Requests and choices -/

inductive PlanError where
  | rejected (name reason : String)
  deriving DecidableEq, Repr

inductive ErrorKind where
  | additiveOverestimate
  | relative
  | candidateUpperBound
  | rankError
  | heuristic
  deriving DecidableEq, Repr

structure ErrorSpec where
  epsilon : Float
  delta : Float

/-- A logical query, with the error and the memory budget that only the planner reads. -/
structure Request extends LogicalQuery where
  error : ErrorSpec
  maxMemoryBytes : Nat
  slide_pos : 0 < window.slideNanos
  slide_word : window.slideNanos < modulus
  size_word : window.sizeNanos < modulus
  memory_word : maxMemoryBytes < modulus

/-- The steps the planner takes in `f64`, with the casts that end them, and the texts of floats. -/
structure FloatSteps where
  /-- `(E / epsilon).ceil() as usize` -/
  width : Float → UInt64
  /-- `(1.0 / (delta - HASH_FAILURE_FLOOR)).ln().ceil().max(1.0) as usize` -/
  depth : Float → UInt64
  /-- `(1.0 / epsilon).ceil() as usize` -/
  capacity : Float → UInt64
  /-- `(1.04 / epsilon).powi(2).log2().ceil() as i64` -/
  registerBits : Float → Int64
  /-- `(2.3 / epsilon).ceil() as usize` -/
  k : Float → UInt64
  display : Float → String
  /-- `{:.digits}` -/
  fixed : Nat → Float → String

def hashFailureFloor : Float := 1.0 / 18446744073709551616.0

/-- The steps as the code computes them. -/
def FloatSteps.f64 (display : Float → String) (fixed : Nat → Float → String) : FloatSteps where
  width epsilon := (2.718281828459045 / epsilon).ceil.toUInt64
  depth delta := (max (1.0 / (delta - hashFailureFloor)).log.ceil 1.0).toUInt64
  capacity epsilon := (1.0 / epsilon).ceil.toUInt64
  registerBits epsilon := (1.04 / epsilon * (1.04 / epsilon)).log2.ceil.toInt64
  k epsilon := (2.3 / epsilon).ceil.toUInt64
  display
  fixed

/-- `Ord::clamp`. -/
def clamp (value low high : Nat) : Nat := min (max value low) high

section

variable (floats : FloatSteps)

def countMinDimensions (epsilon delta : Float) : Except String (Nat × Nat) :=
  if ¬(epsilon > 0.0 ∧ epsilon < 1.0 ∧ delta > 0.0 ∧ delta < 1.0) then
    .error "epsilon and delta must be in (0, 1)"
  else if delta ≤ hashFailureFloor then
    .error ("delta must exceed the fsk1 hash confidence floor " ++ floats.display hashFailureFloor)
  else .ok ((floats.width epsilon).toNat, (floats.depth delta).toNat)

def hllPrecisionForError (epsilon : Float) : Nat :=
  (min (max (floats.registerBits epsilon).toInt 4) 18).toNat

def kllKForError (epsilon : Float) : Nat := clamp (floats.k epsilon).toNat 8 (2 ^ 16)

/-- The loop of `format_bytes`, over the units that are left. -/
def scaleBytes : List String → Float → String → Float × String
  | [], value, unit => (value, unit)
  | next :: rest, value, unit =>
    if value ≥ 1024.0 then scaleBytes rest (value / 1024.0) next else (value, unit)

def formatBytes (bytes : Nat) : String :=
  let (value, unit) := scaleBytes ["KiB", "MiB", "GiB"] (Float.ofNat bytes) "B"
  if unit = "B" then toString bytes ++ " B" else floats.fixed 1 value ++ " " ++ unit

/-- The fields whose values a sketch of the query stores. -/
def storedFields (query : LogicalQuery) : List Field :=
  match query.measure with
  | .entropy field => [field]
  | .quantile _ _ => []
  | .distinctCount _ | .count | .sum _ | .heavyHitters _ _ => query.groupBy

def maximumStoredKeyBytes (query : LogicalQuery) : Nat :=
  let fields := storedFields query
  saturatingAdd ((fields.map Field.maxEncodedLen).foldl wrappingAdd 0) (fields.length - 1)

/-- What the decision table gives for a measure. -/
structure Choice where
  sketch : PhysicalSketch
  errorKind : ErrorKind
  errorContract : String
  seriesBound : Nat
  warnings : List String

variable (query : Request)

def Request.reject (reason : String) : PlanError := .rejected query.name reason

/-- Open buckets, completed windows, and one copy to merge into. -/
def residentSketches : Nat :=
  wrappingAdd (wrappingAdd query.window.bucketCount query.window.bucketCount) 1

def chooseCounter : Except PlanError Choice :=
  match countMinDimensions floats query.error.epsilon query.error.delta with
  | .error reason => .error (query.reject reason)
  | .ok (width, depth) =>
    let trackerCapacity := clamp (wrappingMul query.maxSeries 4) 256 65536
    .ok
      { sketch := .composite [.spaceSaving trackerCapacity, .countMin width depth true]
        errorKind := .additiveOverestimate
        errorContract := "estimates never underestimate; overestimate exceeds " ++
          floats.display query.error.epsilon ++ " * N with probability <= " ++
          floats.display query.error.delta ++ "; only the top " ++ toString trackerCapacity ++
          " groups by weight are enumerated"
        seriesBound := query.maxSeries
        warnings := [] }

def chooseHeavyHitters (limit : Nat) : Except PlanError Choice :=
  let capacity := clamp (max (floats.capacity query.error.epsilon).toNat (wrappingMul limit 4)) 256
    (2 ^ 20)
  .ok
    { sketch := .spaceSaving capacity
      errorKind := .candidateUpperBound
      errorContract := "tracked counts are upper bounds, overestimating by at most N/" ++
        toString capacity ++ "; every group with weight share > " ++
        floats.display (1.0 / Float.ofNat capacity) ++ " of total is guaranteed present"
      seriesBound := min limit query.maxSeries
      warnings :=
        if limit > query.maxSeries then
          ["heavy_hitters limit " ++ toString limit ++ " exceeds export.maxSeries " ++
            toString query.maxSeries ++ "; export cap wins"]
        else [] }

/-- `1.04 / ((1u64 << precision) as f64).sqrt()` -/
def relativeError (precision : Nat) : Float := 1.04 / (Float.ofNat (2 ^ precision)).sqrt

def precisionWarnings (epsilon : Float) (precision : Nat) : List String :=
  if relativeError precision > epsilon then
    ["requested epsilon " ++ floats.display epsilon ++
      " is tighter than the best supported HLL precision (" ++ toString precision ++
      ") can deliver; plan achieves ~" ++ floats.fixed 3 (relativeError precision * 100.0) ++
      "% relative standard error"]
  else []

def preferredMaxKeys : Nat := clamp (wrappingMul query.maxSeries 4) 1024 65536

/-- Registers, two copies of the key, a hash entry and a heap entry. -/
def perKeyBytes (precision : Nat) : Nat :=
  wrappingAdd (wrappingAdd (wrappingAdd (2 ^ precision)
    (wrappingMul 2 (maximumStoredKeyBytes query.toLogicalQuery))) 48) 32

def budgetedMaxKeys (precision : Nat) : Nat :=
  (query.maxMemoryBytes / residentSketches query - 64) / perKeyBytes query precision

def minimumMaxKeys : Nat := min query.maxSeries (preferredMaxKeys query)

def chooseDistinct : Except PlanError Choice :=
  let precision := hllPrecisionForError floats query.error.epsilon
  let warnings := precisionWarnings floats query.error.epsilon precision
  let percent := floats.fixed 2 (relativeError precision * 100.0)
  if query.groupBy.isEmpty then
    .ok
      { sketch := .hyperLogLog precision
        errorKind := .relative
        errorContract := "relative standard error ~ " ++ percent ++ "% (precision " ++
          toString precision ++ ")"
        seriesBound := 1
        warnings }
  else
    let budgeted := budgetedMaxKeys query precision
    if budgeted < minimumMaxKeys query then
      .error (query.reject ("resources.maxMemory can retain only " ++ toString budgeted ++
        " grouped HLL keys across " ++ toString query.window.bucketCount ++
        " window buckets and bounded output, below the configured export.maxSeries requirement of " ++
        toString (minimumMaxKeys query)))
    else
      let maxKeys := min (preferredMaxKeys query) budgeted
      .ok
        { sketch := .hllMap maxKeys precision
          errorKind := .relative
          errorContract := "per-group relative standard error ~ " ++ percent ++ "% (precision " ++
            toString precision ++ "); key retention bounded at " ++ toString maxKeys ++
            " groups — low-cardinality groups may be evicted under pressure (evictions are exported " ++
            "as a health metric)"
          seriesBound := min query.maxSeries maxKeys
          warnings := warnings ++
            (if maxKeys < preferredMaxKeys query then
              ["HLLMap key retention reduced from preferred " ++ toString (preferredMaxKeys query) ++
                " to " ++ toString maxKeys ++ " groups to stay within resources.maxMemory; raise the " ++
                "budget for more low-cardinality retention headroom"]
            else []) }

def chooseEntropy : Except PlanError Choice :=
  if ¬query.groupBy.isEmpty then
    .error (query.reject ("grouped entropy is not supported yet (it needs a bounded keyed " ++
      "distribution sketch); drop groupBy to measure the field's global entropy per window"))
  else
    let capacity := clamp (floats.capacity query.error.epsilon).toNat 256 (2 ^ 16)
    let precision := hllPrecisionForError floats 0.0163
    .ok
      { sketch := .composite [.spaceSaving capacity, .hyperLogLog precision]
        errorKind := .heuristic
        errorContract := "heuristic: exact head entropy over the top " ++ toString capacity ++
          " values plus a uniform-tail correction sized by an HLL distinct count (precision " ++
          toString precision ++ "); no formal single-number bound — validate against " ++
          "`flowsketch bench` for your traffic shape"
        seriesBound := 1
        warnings := [] }

def chooseQuantile (q : Float) : Except PlanError Choice :=
  if ¬query.groupBy.isEmpty then
    .error (query.reject ("grouped quantile is not supported yet (it needs a bounded keyed KLL map); " ++
      "drop groupBy to measure the field's global distribution per window"))
  else if ¬(0.0 ≤ q ∧ q ≤ 1.0) then
    .error (query.reject ("quantile q must be in [0, 1], got " ++ floats.display q))
  else
    let epsilon := query.error.epsilon
    let k := kllKForError floats epsilon
    let achieved := 2.3 / Float.ofNat k
    .ok
      { sketch := .kll k
        errorKind := .rankError
        errorContract := "returned value's true rank is within ~" ++ floats.fixed 4 achieved ++
          " * n of the requested quantile with high probability (KLL, k=" ++ toString k ++ ")"
        seriesBound := 1
        warnings :=
          if achieved > epsilon then
            ["requested rank error " ++ floats.display epsilon ++
              " is tighter than the largest supported KLL (k=" ++ toString k ++
              ") delivers; plan achieves ~" ++ floats.fixed 5 achieved]
          else [] }

/-- The decision table. -/
def choose : Except PlanError Choice :=
  match query.measure with
  | .count | .sum _ => chooseCounter floats query
  | .heavyHitters _ limit => chooseHeavyHitters floats query limit
  | .distinctCount _ => chooseDistinct floats query
  | .entropy _ => chooseEntropy floats query
  | .quantile _ q => chooseQuantile floats query q

structure PhysicalPlan where
  sketch : PhysicalSketch
  windowBuckets : Nat
  pendingWindowCapacity : Nat
  estimatedMemoryBytes : Nat
  estimatedStateMemoryBytes : Nat
  exportSeriesUpperBound : Nat
  errorKind : ErrorKind
  errorContract : String
  warnings : List String

def unsoundAlert : String :=
  "alertIf.lt is not sound for grouped queries: bounded top-k/key-retention plans cannot enumerate " ++
    "every low-valued or absent group; use alertIf.gt, remove groupBy, or alert on an explicitly " ++
    "enumerated downstream series"

/-- Compile a logical query into a physical plan, or reject it. -/
def plan : Except PlanError PhysicalPlan :=
  let buckets := query.window.bucketCount
  if ¬query.groupBy.isEmpty ∧ query.alert.lt.isSome then
    .error (query.reject unsoundAlert)
  else
    match choose floats query with
    | .error rejected => .error rejected
    | .ok choice =>
      let perBucket :=
        choice.sketch.estimatedMemoryBytes (maximumStoredKeyBytes query.toLogicalQuery)
      let estimatedMemoryBytes := wrappingMul perBucket (residentSketches query)
      if estimatedMemoryBytes > query.maxMemoryBytes then
        .error (query.reject ("plan needs ~" ++ formatBytes floats estimatedMemoryBytes ++ " across " ++
          toString buckets ++ " window buckets but resources.maxMemory is " ++
          formatBytes floats query.maxMemoryBytes ++
          "; loosen error.epsilon, shrink the window, or raise the budget"))
      else
        .ok
          { sketch := choice.sketch
            windowBuckets := buckets
            pendingWindowCapacity := buckets
            estimatedMemoryBytes
            estimatedStateMemoryBytes := perBucket
            exportSeriesUpperBound := choice.seriesBound
            errorKind := choice.errorKind
            errorContract := choice.errorContract
            warnings := choice.warnings ++
              (if query.groupBy.any (fun field => field = .srcIp ∨ field = .dstIp) then
                ["raw IP labels can create high series cardinality in Prometheus; export.maxSeries " ++
                  "caps this query's output"]
              else []) }

end

end Planner

end FlowSketch.Source
