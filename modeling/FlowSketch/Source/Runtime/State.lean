import FlowSketch.Source.CountMin
import FlowSketch.Source.HllMap
import FlowSketch.Source.Kll
import FlowSketch.Source.Snapshots.Summaries
import FlowSketch.Source.Runtime.Sharded

/-!
# Query states

`crates/flowsketch-runtime/src/lib.rs`: the sketches behind one bucket of one query, and the window
states that agents ship to the gateway as named component snapshots. `queryBackend` is what the engine
runs on.
-/

namespace FlowSketch.Source

mutual
/-- The derived `Debug` form, as error messages print it. -/
def PhysicalSketch.debug : PhysicalSketch → String
  | .countMin width depth conservativeUpdate =>
    "CountMin \x7b width: " ++ toString width ++ ", depth: " ++ toString depth ++
      ", conservative_update: " ++ toString conservativeUpdate ++ " \x7d"
  | .countSketch width depth =>
    "CountSketch \x7b width: " ++ toString width ++ ", depth: " ++ toString depth ++ " \x7d"
  | .spaceSaving capacity => "SpaceSaving \x7b capacity: " ++ toString capacity ++ " \x7d"
  | .misraGries capacity => "MisraGries \x7b capacity: " ++ toString capacity ++ " \x7d"
  | .hyperLogLog precision => "HyperLogLog \x7b precision: " ++ toString precision ++ " \x7d"
  | .hllMap maxKeys precision =>
    "HllMap \x7b max_keys: " ++ toString maxKeys ++ ", precision: " ++ toString precision ++ " \x7d"
  | .kll k => "Kll \x7b k: " ++ toString k ++ " \x7d"
  | .composite stages => "Composite \x7b stages: [" ++ PhysicalSketch.debugStages stages ++ "] \x7d"

def PhysicalSketch.debugStages : List PhysicalSketch → String
  | [] => ""
  | [stage] => stage.debug
  | stage :: next :: rest => stage.debug ++ ", " ++ PhysicalSketch.debugStages (next :: rest)
end

end FlowSketch.Source

namespace FlowSketch.Source.Runtime
open Lib.Octets Lib.Word64 Source.Core

namespace Component

def spaceSaving : String := "spacesaving"
def countMin : String := "count-min"
def keysSpaceSaving : String := "keys-spacesaving"
def hllMap : String := "hllmap"
def hll : String := "hll"
def kll : String := "kll"
def headSpaceSaving : String := "head-spacesaving"
def tailHll : String := "tail-hll"

end Component

/-- Sketch state for one window bucket of one query. -/
inductive QueryState (F : Type) where
  | heavyHitters (ss : SpaceSaving)
  | counter (cm : CountMinSketch) (keys : SpaceSaving)
  | distinctPerKey (map : HllMap F)
  | distinctGlobal (hll : HyperLogLog)
  | quantile (kll : KllSketch)
  | entropy (ss : SpaceSaving) (hll : HyperLogLog)

namespace QueryState

variable {F : Type}

def cannotExecute {α : Type} (sketch : PhysicalSketch) : Except SketchError α :=
  match sketch with
  | .composite stages =>
    .error (.invalidParam ("runtime cannot execute composite plan [" ++
      PhysicalSketch.debugStages stages ++ "]"))
  | other => .error (.invalidParam ("runtime cannot execute plan " ++ other.debug))

def build (sketch : PhysicalSketch) (hash : HashSpec) : Except SketchError (QueryState F) :=
  match sketch with
  | .spaceSaving capacity => (SpaceSaving.new capacity hash).map .heavyHitters
  | .hllMap maxKeys precision => (HllMap.new maxKeys precision hash).map .distinctPerKey
  | .hyperLogLog precision => (HyperLogLog.new precision hash).map .distinctGlobal
  | .kll k => (KllSketch.new k hash).map .quantile
  | .composite [.spaceSaving capacity, .countMin width depth conservativeUpdate] => do
    let cm ← CountMinSketch.new width depth conservativeUpdate hash
    let keys ← SpaceSaving.new capacity hash
    return .counter cm keys
  | .composite [.spaceSaving capacity, .hyperLogLog precision] => do
    let ss ← SpaceSaving.new capacity hash
    let hll ← HyperLogLog.new precision hash
    return .entropy ss hll
  | other => cannotExecute other

def updateCount : QueryState F → Nat
  | .heavyHitters ss => ss.updateCount
  | .counter cm _ => cm.updateCount
  | .distinctPerKey map => map.updateCount
  | .distinctGlobal hll => hll.updateCount
  | .quantile kll => kll.updateCount
  | .entropy ss _ => ss.updateCount

section

variable [LinearOrder F] (cardinality : Cardinality F) (hashing : Hashing)

/-- `update`, with the buffer-stealing path `process` takes for heavy hitters. `none` is a panic. -/
def apply (state : QueryState F) (update : Update) : Option (QueryState F) :=
  match state with
  | .heavyHitters ss =>
    (ss.addKeyBuf hashing update.key update.weight).map (fun result => .heavyHitters result.1)
  | .counter cm keys =>
    (keys.add hashing update.key update.weight).map
      (.counter (cm.update hashing update.key update.weight))
  | .distinctPerKey map => (map.insert cardinality hashing update.key update.distinct).map .distinctPerKey
  | .distinctGlobal hll => some (.distinctGlobal (hll.insert hashing update.distinct))
  | .quantile kll => some (.quantile (kll.insert update.weight))
  | .entropy ss hll =>
    (ss.add hashing update.distinct 1).map (fun ss => .entropy ss (hll.insert hashing update.distinct))

/-- The text of the panic in `evict_smallest`. -/
def noCandidate : SketchError := .invalidParam "a full HLLMap has an eviction candidate per slot"

/-- `merge_from` on a fresh copy. An eviction without a candidate would panic; it is an error here,
and maps with a candidate for each key never meet it. -/
def mergeFrom (self other : QueryState F) : Except SketchError (QueryState F) :=
  match self, other with
  | .heavyHitters a, .heavyHitters b => (a.mergeFrom hashing b).map .heavyHitters
  | .counter a ka, .counter b kb => do
    let cm ← a.mergeFrom hashing b
    let keys ← ka.mergeFrom hashing kb
    return .counter cm keys
  | .distinctPerKey a, .distinctPerKey b =>
    match a.mergeInto cardinality hashing b with
    | some (.ok (), map) => .ok (.distinctPerKey map)
    | some (.error e, _) => .error e
    | none => .error noCandidate
  | .distinctGlobal a, .distinctGlobal b => (a.mergeFrom hashing b).map .distinctGlobal
  | .quantile a, .quantile b => (a.mergeFrom hashing b).map .quantile
  | .entropy a ha, .entropy b hb => do
    let ss ← a.mergeFrom hashing b
    let hll ← ha.mergeFrom hashing hb
    return .entropy ss hll
  | _, _ => .error (.incompatibleMerge "mismatched query state kinds")

/-! ## Components -/

def toSnapshots (state : QueryState F) (windowStart windowEnd : Nat) : List (String × Bytes) :=
  match state with
  | .heavyHitters ss => [(Component.spaceSaving, ss.toSnapshot hashing windowStart windowEnd)]
  | .counter cm keys =>
    [(Component.countMin, cm.toSnapshot hashing windowStart windowEnd),
     (Component.keysSpaceSaving, keys.toSnapshot hashing windowStart windowEnd)]
  | .distinctPerKey map => [(Component.hllMap, map.toSnapshot hashing windowStart windowEnd)]
  | .distinctGlobal hll => [(Component.hll, hll.toSnapshot hashing windowStart windowEnd)]
  | .quantile kll => [(Component.kll, kll.toSnapshot hashing windowStart windowEnd)]
  | .entropy ss hll =>
    [(Component.headSpaceSaving, ss.toSnapshot hashing windowStart windowEnd),
     (Component.tailHll, hll.toSnapshot hashing windowStart windowEnd)]

/-- The component names this physical plan's state serializes to. -/
def componentNames (sketch : PhysicalSketch) : Except SketchError (List String) :=
  match sketch with
  | .spaceSaving _ => .ok [Component.spaceSaving]
  | .hllMap _ _ => .ok [Component.hllMap]
  | .hyperLogLog _ => .ok [Component.hll]
  | .kll _ => .ok [Component.kll]
  | .composite [.spaceSaving _, .countMin _ _ _] => .ok [Component.countMin, Component.keysSpaceSaving]
  | .composite [.spaceSaving _, .hyperLogLog _] => .ok [Component.headSpaceSaving, Component.tailHll]
  | other => cannotExecute other

def getComponent (components : List (String × Bytes)) (name : String) : Except SketchError Bytes :=
  match components.lookup name with
  | some octets => .ok octets
  | none => .error (.snapshot ("missing component snapshot " ++ name.quote))

/-- Rebuild a state from named component snapshots; parameters come from the snapshots. -/
def fromSnapshots (sketch : PhysicalSketch) (components : List (String × Bytes)) :
    Except SketchError (QueryState F) :=
  match sketch with
  | .spaceSaving _ => do
    let octets ← getComponent components Component.spaceSaving
    let ss ← SpaceSaving.fromSnapshot hashing octets
    return .heavyHitters ss
  | .hllMap _ _ => do
    let octets ← getComponent components Component.hllMap
    let map ← HllMap.fromSnapshot cardinality hashing octets
    return .distinctPerKey map
  | .hyperLogLog _ => do
    let octets ← getComponent components Component.hll
    let hll ← HyperLogLog.fromSnapshot hashing octets
    return .distinctGlobal hll
  | .kll _ => do
    let octets ← getComponent components Component.kll
    let kll ← KllSketch.fromSnapshot hashing octets
    return .quantile kll
  | .composite [.spaceSaving _, .countMin _ _ _] => do
    let table ← getComponent components Component.countMin
    let cm ← CountMinSketch.fromSnapshot hashing table
    let octets ← getComponent components Component.keysSpaceSaving
    let keys ← SpaceSaving.fromSnapshot hashing octets
    return .counter cm keys
  | .composite [.spaceSaving _, .hyperLogLog _] => do
    let head ← getComponent components Component.headSpaceSaving
    let ss ← SpaceSaving.fromSnapshot hashing head
    let tail ← getComponent components Component.tailHll
    let hll ← HyperLogLog.fromSnapshot hashing tail
    return .entropy ss hll
  | other => cannotExecute other

end

end QueryState

/-- The sketches as the engine uses them, all under one hash specification. -/
def queryBackend {F : Type} [LinearOrder F] (cardinality : Cardinality F) (hashing : Hashing)
    (hash : HashSpec) : Backend (QueryState F) where
  build sketch := QueryState.build sketch hash
  apply := QueryState.apply cardinality hashing
  mergeFrom := QueryState.mergeFrom cardinality hashing
  updateCount := QueryState.updateCount

/-! ## Window states on the wire -/

namespace WindowState

variable {F : Type}

def snapshotExports (hashing : Hashing) (w : WindowState (QueryState F)) : List (String × Bytes) :=
  w.state.toSnapshots hashing w.windowStartNanos w.windowEndNanos

def updateCount (w : WindowState (QueryState F)) : Nat := w.state.updateCount

/-- What the loop of `from_components` has gathered: the window of the components so far, and the
components by name. -/
structure Gathered where
  window : Option (Nat × Nat)
  byName : List (String × Bytes)

/-- One round of the loop. -/
def gather (hashing : Hashing) (expected : List String) (so : Gathered) (component : String × Bytes) :
    Except SketchError Gathered := do
  let (name, octets) := component
  if name ∉ expected then
    throw (.snapshot ("unexpected component snapshot " ++ name.quote ++ " (plan expects [" ++
      ", ".intercalate (expected.map String.quote) ++ "])"))
  if name ∈ so.byName.map Prod.fst then
    throw (.snapshot ("duplicate component snapshot " ++ name.quote))
  let (header, _, _) ← readSnapshot hashing octets
  let window := (header.windowStartNanos, header.windowEndNanos)
  let byName := so.byName ++ [(name, octets)]
  match so.window with
  | none => return { window := some window, byName }
  | some previous =>
    if previous ≠ window then
      throw (.incompatibleMerge ("component " ++ name.quote ++ " covers window [" ++
        toString window.1 ++ ", " ++ toString window.2 ++ ") but its siblings cover [" ++
        toString previous.1 ++ ", " ++ toString previous.2 ++ ")"))
    return { window := some previous, byName }

/-- Parse component snapshots for one query and validate them against the plan's sketch, the only
part of the plan it reads. -/
def fromComponents [LinearOrder F] (cardinality : Cardinality F) (hashing : Hashing)
    (sketch : PhysicalSketch) (hash : HashSpec) (components : List (String × Bytes)) :
    Except SketchError (WindowState (QueryState F)) := do
  let expected ← QueryState.componentNames sketch
  let gathered ← components.foldlM (gather hashing expected) { window := none, byName := [] }
  match gathered.window with
  | none => throw (.snapshot "no component snapshots given")
  | some (windowStartNanos, windowEndNanos) =>
    let parsed ← QueryState.fromSnapshots cardinality hashing sketch gathered.byName
    let empty ← QueryState.build sketch hash
    let state ← empty.mergeFrom cardinality hashing parsed
    return { state, windowStartNanos, windowEndNanos }

end WindowState

end FlowSketch.Source.Runtime
