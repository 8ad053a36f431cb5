import FlowSketch.Source.SpaceSaving.Decode

/-!
# Runs of SpaceSaving operations

A summary is reached from an empty one by any sequence of operations; the argument of a merge is
itself such a summary. The redundant structures agree in every run. The heap order, and with it the
textbook meaning of every step, holds in every run in which no count or error is pushed past a word:
a wrapped count moves a slot up, and `add` only ever sifts down.
-/

namespace FlowSketch.Source.SpaceSaving
open Lib.Octets Lib.Word64 Lib.BinaryHeap Lib.CounterSummary Source.Core

inductive Op where
  | add (key : Bytes) (weight : Nat)
  | addKeyBuf (key : Bytes) (weight : Nat)
  | mergeFrom (other : SpaceSaving)
  | fromSnapshot (bytes : Bytes)
  | reset

/-- `none` is a panic. A failed merge or decode leaves the summary as it was. -/
def Op.run (hashing : Hashing) (s : SpaceSaving) : Op → Option (Except SketchError SpaceSaving)
  | .add key weight => (s.add hashing key weight).map .ok
  | .addKeyBuf key weight => (s.addKeyBuf hashing key weight).map (fun result => .ok result.1)
  | .mergeFrom other => some (s.mergeFrom hashing other)
  | .fromSnapshot bytes => some (SpaceSaving.fromSnapshot hashing bytes)
  | .reset => some (.ok s.reset)

/-- Every count and error addition of the step stays within a word. -/
def Op.Fits (hashing : Hashing) (s : SpaceSaving) : Op → Prop
  | .add key weight => AddFits hashing s key weight
  | .addKeyBuf key weight => AddFits hashing s key weight
  | .mergeFrom other => MergeFits hashing s other
  | .fromSnapshot _ => True
  | .reset => True

/-- Summaries built by steps that `allowed` admits. -/
inductive Reachable (hashing : Hashing) (allowed : SpaceSaving → Op → Prop) : SpaceSaving → Prop
  | new {capacity : Nat} {hash : HashSpec} {s : SpaceSaving}
      (created : SpaceSaving.new capacity hash = .ok s) : Reachable hashing allowed s
  | step {s t : SpaceSaving} {op : Op} (before : Reachable hashing allowed s)
      (argument : ∀ other, op = .mergeFrom other → Reachable hashing allowed other)
      (admitted : allowed s op) (result : op.run hashing s = some (.ok t)) :
      Reachable hashing allowed t

/-- The textbook step on the abstract summary. -/
def Op.Textbook (hashing : Hashing) (s t : SpaceSaving) : Op → Prop
  | .add key weight | .addKeyBuf key weight =>
    t.capacity = s.capacity ∧ t.hash = s.hash ∧
      t.abs = s.abs.add s.capacity (evictionDigest hashing s.hash) key weight
  | .mergeFrom other =>
    t.capacity = s.capacity ∧ t.hash = s.hash ∧
      t.abs = Summary.merge s.capacity other.capacity s.abs other.abs
  | .fromSnapshot bytes =>
    ∃ items, entriesOf hashing bytes = .ok items ∧ (items.map Prod.fst).Nodup ∧
      t.abs = items.foldl (fun summary item => summary.insert item.1 item.2) Summary.empty
  | .reset => t.capacity = s.capacity ∧ t.hash = s.hash ∧ t.abs = Summary.empty

/-- A weight the source's `u64` can hold. -/
def Op.WordSized : Op → Prop
  | .add _ weight => weight < modulus
  | .addKeyBuf _ weight => weight < modulus
  | _ => True

/-! ## One step -/

theorem run_addKeyBuf (hashing : Hashing) (s : SpaceSaving) (key : Bytes) (weight : Nat) :
    (Op.addKeyBuf key weight).run hashing s = (Op.add key weight).run hashing s := by
  show (s.addKeyBuf hashing key weight).map _ = (s.add hashing key weight).map _
  rw [addKeyBuf_eq_add, Option.map_map]
  rfl

theorem run_never_panics {hashing : Hashing} {s : SpaceSaving} (wf : Wf hashing s) (op : Op) :
    ∃ result, op.run hashing s = some result := by
  cases op with
  | add key weight =>
    obtain ⟨t, added, _⟩ := add_spec wf key weight
    exact ⟨.ok t, by simp [Op.run, added]⟩
  | addKeyBuf key weight =>
    obtain ⟨t, added, _⟩ := add_spec wf key weight
    exact ⟨.ok t, by rw [run_addKeyBuf, Op.run, added]; rfl⟩
  | mergeFrom other => exact ⟨_, rfl⟩
  | fromSnapshot bytes => exact ⟨_, rfl⟩
  | reset => exact ⟨_, rfl⟩

/-- Both spellings of `add` take the same step. -/
theorem addStep_of_run {hashing : Hashing} {s t : SpaceSaving} (wf : Wf hashing s) {key : Bytes}
    {weight : Nat} {op : Op} (either : op = .add key weight ∨ op = .addKeyBuf key weight)
    (result : op.run hashing s = some (.ok t)) : AddStep hashing s key weight t := by
  obtain ⟨u, added, step⟩ := add_spec wf key weight
  have same : op.run hashing s = some (.ok u) := by
    rcases either with rfl | rfl
    · simp [Op.run, added]
    · rw [run_addKeyBuf, Op.run, added]
      rfl
  rw [same, Option.some.injEq, Except.ok.injEq] at result
  exact result ▸ step

theorem run_wf {hashing : Hashing} {s t : SpaceSaving} (wf : Wf hashing s) {op : Op}
    (argument : ∀ other, op = .mergeFrom other → Wf hashing other)
    (result : op.run hashing s = some (.ok t)) : Wf hashing t := by
  cases op with
  | add key weight => exact (addStep_of_run wf (Or.inl rfl) result).wf
  | addKeyBuf key weight => exact (addStep_of_run wf (Or.inr rfl) result).wf
  | mergeFrom other =>
    exact (mergeFrom_inv wf (argument other rfl) (Option.some.inj result)).2.wf
  | fromSnapshot bytes => exact (fromSnapshot_spec (Option.some.inj result)).1
  | reset =>
    cases result
    exact Wf.clear (s := { s with totalWeight := 0, updates := 0 }) wf.indexed.positive

theorem run_refines {hashing : Hashing} {s t : SpaceSaving} (wf : Wf hashing s)
    (ordered : HeapOrdered s) {op : Op} (fits : op.Fits hashing s)
    (argument : ∀ other, op = .mergeFrom other → Wf hashing other ∧ HeapOrdered other)
    (result : op.run hashing s = some (.ok t)) : HeapOrdered t ∧ op.Textbook hashing s t := by
  cases op with
  | add key weight =>
    have step := addStep_of_run wf (Or.inl rfl) result
    obtain ⟨order, summary⟩ := step.refines ordered fits
    exact ⟨order, step.capacity, step.hash, summary⟩
  | addKeyBuf key weight =>
    have step := addStep_of_run wf (Or.inr rfl) result
    obtain ⟨order, summary⟩ := step.refines ordered fits
    exact ⟨order, step.capacity, step.hash, summary⟩
  | mergeFrom other =>
    obtain ⟨wfOther, orderedOther⟩ := argument other rfl
    have step := (mergeFrom_inv wf wfOther (Option.some.inj result)).2
    exact ⟨step.ordered, step.capacity, step.hash, step.refines ordered orderedOther fits⟩
  | fromSnapshot bytes =>
    obtain ⟨_, order, items, listed, distinct, _, summary⟩ :=
      fromSnapshot_spec (Option.some.inj result)
    exact ⟨order, items, listed, distinct, summary⟩
  | reset =>
    cases result
    exact ⟨clear_heapOrdered { s with totalWeight := 0, updates := 0 }, rfl, rfl, rfl⟩

/-! ## Runs -/

theorem Reachable.wf {hashing : Hashing} {allowed : SpaceSaving → Op → Prop} {s : SpaceSaving}
    (run : Reachable hashing allowed s) : Wf hashing s := by
  induction run with
  | new created =>
    obtain ⟨positive, rfl⟩ := new_ok created
    exact Wf.clear (s := fresh _ _ 0 0) positive
  | step before argument admitted result wf wfArgument => exact run_wf wf wfArgument result

theorem Reachable.ordered {hashing : Hashing} {s : SpaceSaving}
    (run : Reachable hashing (fun s op => op.Fits hashing s) s) : HeapOrdered s := by
  induction run with
  | new created =>
    obtain ⟨_, rfl⟩ := new_ok created
    exact clear_heapOrdered (fresh _ _ 0 0)
  | step before argument fits result ordered orderedArgument =>
    exact (run_refines before.wf ordered fits
      (fun other same => ⟨(argument other same).wf, orderedArgument other same⟩) result).1

/-! ## Layouts -/

/-- Equal parameters and equal abstract maps; slots, buckets and heap may differ. -/
structure SameView (s t : SpaceSaving) : Prop where
  capacity : s.capacity = t.capacity
  hash : s.hash = t.hash
  abs : s.abs = t.abs

/-- The same operation, where a merge may bring another layout of the same summary. -/
inductive Op.Alike : Op → Op → Prop
  | same (op : Op) : Op.Alike op op
  | merge {mine theirs : SpaceSaving} (view : SameView mine theirs) :
      Op.Alike (.mergeFrom mine) (.mergeFrom theirs)

def Op.after (hashing : Hashing) (s : SpaceSaving) (op : Op) : SpaceSaving :=
  match op.run hashing s with
  | some (.ok t) => t
  | _ => s

def runAll (hashing : Hashing) (s : SpaceSaving) (ops : List Op) : SpaceSaving :=
  ops.foldl (fun s op => op.after hashing s) s

/-- Every step of the run fits, and every merged summary comes from such a run. -/
def FitsAll (hashing : Hashing) : SpaceSaving → List Op → Prop
  | _, [] => True
  | s, op :: ops => op.Fits hashing s ∧
    (∀ other, op = .mergeFrom other →
      Reachable hashing (fun s op => op.Fits hashing s) other) ∧ FitsAll hashing (op.after hashing s) ops

theorem addFits_iff {hashing : Hashing} {s : SpaceSaving} (wf : Wf hashing s)
    (ordered : HeapOrdered s) (key : Bytes) (weight : Nat) :
    AddFits hashing s key weight ↔
      match s.abs.entry key with
      | some e => e.count + weight < modulus
      | none => s.abs.keys.card < s.capacity ∨ s.abs.minCount + weight < modulus := by
  rw [← get_eq_entry wf.indexed, AddFits, get, keys_card wf.indexed, minimumCount_eq wf ordered]
  cases s.findSlot hashing key <;> rfl

theorem mergeFits_iff {hashing : Hashing} {s other : SpaceSaving} (wf : Wf hashing s)
    (ordered : HeapOrdered s) (wfOther : Wf hashing other) (orderedOther : HeapOrdered other) :
    MergeFits hashing s other ↔ ∀ key, key ∈ s.abs.keys ∨ key ∈ other.abs.keys →
      (s.abs.charged s.capacity key).count + (other.abs.charged other.capacity key).count < modulus ∧
        (s.abs.charged s.capacity key).error + (other.abs.charged other.capacity key).error <
          modulus := by
  unfold MergeFits
  simp only [mem_mergedKeys wf.indexed, charge_eq wf ordered, charge_eq wfOther orderedOther]

/-- Summaries reached without overflowing any count. -/
abbrev Fitting (hashing : Hashing) : SpaceSaving → Prop :=
  Reachable hashing (fun s op => op.Fits hashing s)

theorem Reachable.after {hashing : Hashing} {allowed : SpaceSaving → Op → Prop} {s : SpaceSaving}
    (run : Reachable hashing allowed s) {op : Op} (admitted : allowed s op)
    (argument : ∀ other, op = .mergeFrom other → Reachable hashing allowed other) :
    Reachable hashing allowed (op.after hashing s) := by
  unfold Op.after
  split
  next t result => exact .step run argument admitted result
  next => exact run

theorem fits_of_sameView {hashing : Hashing} {s t : SpaceSaving} (left : Fitting hashing s)
    (right : Fitting hashing t) (view : SameView s t) {op op' : Op} (alike : op.Alike op')
    (argument : ∀ other, op = .mergeFrom other → Fitting hashing other)
    (argument' : ∀ other, op' = .mergeFrom other → Fitting hashing other)
    (fits : op.Fits hashing s) : op'.Fits hashing t := by
  have merges : ∀ mine theirs, SameView mine theirs → Fitting hashing mine →
      Fitting hashing theirs → MergeFits hashing s mine → MergeFits hashing t theirs := by
    intro mine theirs same runMine runTheirs fits
    rw [mergeFits_iff left.wf left.ordered runMine.wf runMine.ordered] at fits
    rw [mergeFits_iff right.wf right.ordered runTheirs.wf runTheirs.ordered, ← view.abs,
      ← view.capacity, ← same.abs, ← same.capacity]
    exact fits
  have adds : ∀ key weight, AddFits hashing s key weight → AddFits hashing t key weight := by
    intro key weight fits
    rw [addFits_iff left.wf left.ordered] at fits
    rw [addFits_iff right.wf right.ordered, ← view.abs, ← view.capacity]
    exact fits
  cases alike with
  | merge same => exact merges _ _ same (argument _ rfl) (argument' _ rfl) fits
  | same op =>
    cases op with
    | add key weight => exact adds key weight fits
    | addKeyBuf key weight => exact adds key weight fits
    | mergeFrom other =>
      exact merges other other ⟨rfl, rfl, rfl⟩ (argument other rfl) (argument' other rfl) fits
    | fromSnapshot bytes => trivial
    | reset => trivial

theorem after_of_run {hashing : Hashing} {s t : SpaceSaving} {op : Op}
    (result : op.run hashing s = some (.ok t)) : op.after hashing s = t := by
  rw [Op.after, result]

theorem compatibility_of_sameView {s t : SpaceSaving} (hashing : Hashing) (view : SameView s t) :
    s.compatibility hashing = t.compatibility hashing := by
  rw [compatibility, compatibility, paramsHash, paramsHash, view.capacity, view.hash]

theorem mergeFrom_fails {hashing : Hashing} {s other : SpaceSaving}
    (incompatible : s.compatibility hashing ≠ other.compatibility hashing) :
    (Op.mergeFrom other).after hashing s = s := by
  have stops : ∃ e, s.mergeFrom hashing other = .error e := by
    unfold mergeFrom SketchCompatibility.ensureMatches
    rw [if_pos incompatible]
    exact ⟨_, rfl⟩
  obtain ⟨e, failed⟩ := stops
  rw [Op.after, Op.run, failed]

section Layout

variable {hashing : Hashing} {s t : SpaceSaving} (left : Fitting hashing s)
  (right : Fitting hashing t) (view : SameView s t)
include left right view

theorem SameView.afterAdd {key : Bytes} {weight : Nat} (fits : AddFits hashing s key weight)
    (fits' : AddFits hashing t key weight) :
    SameView ((Op.add key weight).after hashing s) ((Op.add key weight).after hashing t) := by
  obtain ⟨a, addedS, stepS⟩ := add_spec left.wf key weight
  obtain ⟨b, addedT, stepT⟩ := add_spec right.wf key weight
  rw [after_of_run (t := a) (by rw [Op.run, addedS]; rfl),
    after_of_run (t := b) (by rw [Op.run, addedT]; rfl)]
  refine ⟨?_, ?_, ?_⟩
  · rw [stepS.capacity, stepT.capacity, view.capacity]
  · rw [stepS.hash, stepT.hash, view.hash]
  · rw [(stepS.refines left.ordered fits).2, (stepT.refines right.ordered fits').2, view.capacity,
      view.hash, view.abs]

theorem SameView.afterMerge {mine theirs : SpaceSaving} (same : SameView mine theirs)
    (runMine : Fitting hashing mine) (runTheirs : Fitting hashing theirs)
    (fits : MergeFits hashing s mine) (fits' : MergeFits hashing t theirs) :
    SameView ((Op.mergeFrom mine).after hashing s) ((Op.mergeFrom theirs).after hashing t) := by
  have sameS := compatibility_of_sameView hashing view
  have sameM := compatibility_of_sameView hashing same
  by_cases compatible : s.compatibility hashing = mine.compatibility hashing
  · obtain ⟨a, mergedS, stepS⟩ := mergeFrom_spec left.wf runMine.wf compatible
    obtain ⟨b, mergedT, stepT⟩ := mergeFrom_spec right.wf runTheirs.wf
      (sameS.symm.trans (compatible.trans sameM))
    rw [after_of_run (t := a) (by rw [Op.run, mergedS]),
      after_of_run (t := b) (by rw [Op.run, mergedT])]
    refine ⟨?_, ?_, ?_⟩
    · rw [stepS.capacity, stepT.capacity, view.capacity]
    · rw [stepS.hash, stepT.hash, view.hash]
    · rw [stepS.refines left.ordered runMine.ordered fits,
        stepT.refines right.ordered runTheirs.ordered fits', view.capacity, view.abs,
        same.capacity, same.abs]
  · rw [mergeFrom_fails compatible, mergeFrom_fails (by rw [← sameS, ← sameM]; exact compatible)]
    exact view

/-- A step keeps two layouts of one summary equal. -/
theorem SameView.after {op op' : Op} (alike : op.Alike op')
    (argument : ∀ other, op = .mergeFrom other → Fitting hashing other)
    (argument' : ∀ other, op' = .mergeFrom other → Fitting hashing other)
    (fits : op.Fits hashing s) : SameView (op.after hashing s) (op'.after hashing t) := by
  have fits' := fits_of_sameView left right view alike argument argument' fits
  cases alike with
  | merge same =>
    exact view.afterMerge left right same (argument _ rfl) (argument' _ rfl) fits fits'
  | same op =>
    cases op with
    | add key weight => exact view.afterAdd left right fits fits'
    | addKeyBuf key weight =>
      have buffered : ∀ u : SpaceSaving, (Op.addKeyBuf key weight).after hashing u =
          (Op.add key weight).after hashing u := by
        intro u
        rw [Op.after, Op.after, run_addKeyBuf]
      rw [buffered, buffered]
      exact view.afterAdd left right fits fits'
    | mergeFrom other =>
      exact view.afterMerge left right ⟨rfl, rfl, rfl⟩ (argument other rfl) (argument' other rfl)
        fits fits'
    | fromSnapshot bytes =>
      cases decoded : SpaceSaving.fromSnapshot hashing bytes with
      | ok built =>
        rw [after_of_run (t := built) (by rw [Op.run, decoded]),
          after_of_run (t := built) (by rw [Op.run, decoded])]
        exact ⟨rfl, rfl, rfl⟩
      | error e =>
        rw [Op.after, Op.after, Op.run, Op.run, decoded]
        exact view
    | reset => exact ⟨view.capacity, view.hash, rfl⟩

end Layout

/-- Two layouts of one summary stay equal along any fitting sequence of operations. -/
theorem SameView.runAll {hashing : Hashing} {ops ops' : List Op}
    (alike : List.Forall₂ Op.Alike ops ops') {s t : SpaceSaving} (left : Fitting hashing s)
    (right : Fitting hashing t) (view : SameView s t) (fits : FitsAll hashing s ops)
    (argument : ∀ other, .mergeFrom other ∈ ops' → Fitting hashing other) :
    SameView (runAll hashing s ops) (runAll hashing t ops') := by
  induction alike generalizing s t with
  | nil => exact view
  | @cons op op' ops ops' same rest ih =>
    obtain ⟨fitsHere, argumentHere, later⟩ := fits
    have argument' : ∀ other, op' = .mergeFrom other → Fitting hashing other :=
      fun other isOp => argument other (by simp [isOp])
    have fits' := fits_of_sameView left right view same argumentHere argument' fitsHere
    exact ih (left.after fitsHere argumentHere) (right.after fits' argument')
      (view.after left right same argumentHere argument' fitsHere) later
      (fun other listed => argument other (by simp [listed]))

/-! ## Refinement along runs -/

/-- The redundant structures of one summary agree. -/
structure Consistent (hashing : Hashing) (s : SpaceSaving) : Prop where
  perm : s.minHeap.Perm (List.range s.slots.length)
  back : ∀ i, i < s.minHeap.length → (s.slotAt (s.heapAt i)).heapIndex = i
  lookup : ∀ key i, s.findSlot hashing key = some i ↔
    i < s.slots.length ∧ (s.slotAt i).key = key
  distinct : (s.slots.map Slot.key).Nodup
  safe : ∀ op : Op, (op.run hashing s).isSome

theorem Wf.consistent {hashing : Hashing} {s : SpaceSaving} (wf : Wf hashing s) :
    Consistent hashing s where
  perm := wf.heap.perm
  back := wf.heap.back
  lookup := by
    intro key i
    rw [wf.indexed.find_iff]
    constructor
    · rintro ⟨c, found, rfl⟩
      exact ⟨(slotAt_content found).1, congrArg Content.key (slotAt_content found).2⟩
    · rintro ⟨inside, rfl⟩
      exact ⟨_, contents_getElem? inside, rfl⟩
  distinct := by
    simpa [contents, List.map_map, Function.comp_def, Slot.content] using wf.indexed.distinct
  safe := by
    intro op
    obtain ⟨result, ran⟩ := run_never_panics wf op
    simp [ran]

/-- The arena, the index and the heap agree after every run, whatever the digest, and no `expect`
is reached. As long as no count or error addition passes a word, the heap is ordered, every
operation is the textbook step that evicts the first key of the eviction order, and the layout of
equal summaries is never observable. -/
theorem arena_refines_textbook (hashing : Hashing) :
    (∀ s, Reachable hashing (fun _ op => op.WordSized) s → Consistent hashing s ∧
      ∀ key weight, s.addKeyBuf hashing key weight =
        (s.add hashing key weight).map (fun t => (t, []))) ∧
    (∀ s, Fitting hashing s → HeapOrdered s ∧
      ∀ (op : Op) t, op.Fits hashing s → (∀ other, op = .mergeFrom other → Fitting hashing other) →
        op.run hashing s = some (.ok t) → op.Textbook hashing s t) ∧
    (∀ s t ops ops', Fitting hashing s → Fitting hashing t → SameView s t →
      List.Forall₂ Op.Alike ops ops' → FitsAll hashing s ops →
      (∀ other, .mergeFrom other ∈ ops' → Fitting hashing other) →
        SameView (runAll hashing s ops) (runAll hashing t ops')) := by
  refine ⟨?_, ?_, ?_⟩
  · intro s run
    exact ⟨run.wf.consistent, addKeyBuf_eq_add hashing s⟩
  · intro s run
    refine ⟨run.ordered, fun op t fits argument result => ?_⟩
    exact (run_refines run.wf run.ordered fits
      (fun other same => ⟨(argument other same).wf, (argument other same).ordered⟩) result).2
  · intro s t ops ops' left right view alike fits argument
    exact view.runAll alike left right fits argument

/-- A digest under which all keys collide. -/
def constantHashing : Hashing :=
  { hash64 := fun _ _ => 0, rowHash := fun _ _ _ => 0, signHash := fun _ _ _ => 0 }

theorem Reachable.fresh {hashing : Hashing} {allowed : SpaceSaving → Op → Prop} {capacity : Nat}
    (positive : 0 < capacity) (hash : HashSpec) :
    Reachable hashing allowed (fresh capacity hash 0 0) :=
  .new (if_neg (Nat.pos_iff_ne_zero.mp positive))

theorem Fitting.adds {hashing : Hashing} {s : SpaceSaving} (run : Fitting hashing s) {key : Bytes}
    {weight : Nat} (fits : AddFits hashing s key weight) :
    Fitting hashing ((Op.add key weight).after hashing s) :=
  run.after fits (fun _ same => nomatch same)

/-- Two colliding keys fill a summary of capacity two. -/
def fullSummary : SpaceSaving :=
  runAll constantHashing (fresh 2 (HashSpec.new 0) 0 0) [.add [1] 3, .add [2] 5]

theorem fullSummary_fitting : Fitting constantHashing fullSummary := by
  have start : Fitting constantHashing (fresh 2 (HashSpec.new 0) 0 0) := .fresh (by decide) _
  have one : AddFits constantHashing (fresh 2 (HashSpec.new 0) 0 0) [1] 3 := by decide +kernel
  have two : AddFits constantHashing
      ((Op.add [1] 3).after constantHashing (fresh 2 (HashSpec.new 0) 0 0)) [2] 5 := by
    decide +kernel
  exact (start.adds one).adds two

theorem fullSummary_evicts :
    HeapOrdered fullSummary ∧
      ((Op.add [3] 1).after constantHashing fullSummary).abs =
        fullSummary.abs.add 2 (evictionDigest constantHashing fullSummary.hash) [3] 1 := by
  obtain ⟨ordered, refines⟩ := (arena_refines_textbook constantHashing).2.1 fullSummary
    fullSummary_fitting
  obtain ⟨t, added, _⟩ := add_spec fullSummary_fitting.wf [3] 1
  have ran : (Op.add [3] 1).run constantHashing fullSummary = some (.ok t) := by
    rw [Op.run, added]
    rfl
  have fits : AddFits constantHashing fullSummary [3] 1 := by decide +kernel
  rw [after_of_run ran]
  exact ⟨ordered, (refines (.add [3] 1) t fits (fun _ same => nomatch same) ran).2.2⟩

/-- Two keys, one count at the top of the word, one step that wraps it. -/
def wrappedSummary : SpaceSaving :=
  runAll constantHashing (fresh 2 (HashSpec.new 0) 0 0)
    [.add [1] (2 ^ 64 - 1), .add [2] 5, .add [1] 3]

theorem wrappedSummary_not_ordered :
    Reachable constantHashing (fun _ op => op.WordSized) wrappedSummary ∧
      ¬HeapOrdered wrappedSummary := by
  constructor
  · have start : Reachable constantHashing (fun _ op => op.WordSized)
      (fresh 2 (HashSpec.new 0) 0 0) := .fresh (by decide) _
    have words : ∀ key weight, weight < modulus → (Op.add key weight).WordSized :=
      fun _ _ fits => fits
    exact ((start.after (words [1] (2 ^ 64 - 1) (by decide)) (fun _ same => nomatch same)).after
      (words [2] 5 (by decide)) (fun _ same => nomatch same)).after
      (words [1] 3 (by decide)) (fun _ same => nomatch same)
  · intro ordered
    have above := ordered 1 (by decide) (by decide +kernel)
    have counts : (wrappedSummary.slotAt (wrappedSummary.heapAt 0)).entry.count ≤
        (wrappedSummary.slotAt (wrappedSummary.heapAt 1)).entry.count := by
      rcases Prod.Lex.toLex_le_toLex.mp above with less | same
      · exact less.le
      · exact same.1.le
    exact absurd counts (by decide +kernel)

end FlowSketch.Source.SpaceSaving
