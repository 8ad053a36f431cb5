import FlowSketch.Lib.Restart
import FlowSketch.Source.HllMap.Layout
import FlowSketch.Source.HllMap.Runs
import FlowSketch.Source.HyperLogLog.Forms
import FlowSketch.Source.Kll.Levels
import FlowSketch.Source.MisraGries.Guarantee
import FlowSketch.Source.Snapshots.Counters
import FlowSketch.Source.Snapshots.Summaries
import FlowSketch.Source.Snapshots.Tables

/-!
# `Sketch::reset`

Each sketch is a machine that takes updates and merges; what it shows is its content, its estimates
and its snapshot of any window. A reset sketch is compared with a new one of the same parameters
under every sequence that may follow. Five sketches always restart. A KLL sketch keeps the state of
its generator through a reset, and a HyperLogLog its dense form.
-/

namespace FlowSketch.Source
open Lib.Octets Lib.Word64 Lib.AssocMap Lib.Restart Source.Core

inductive SketchOp (U S : Type) where
  | update (arguments : U)
  | merge (other : S)

structure Shown (C E : Type) where
  content : C
  estimates : E
  snapshot : Nat → Nat → Bytes

/-- A merge that fails leaves the sketch as it was. -/
def mergeOrKeep {S : Type} (mergeFrom : S → S → Except SketchError S) (s other : S) : Option S :=
  match mergeFrom s other with
  | .ok t => some t
  | .error _ => some s

/-- A sketch that nothing iterates over in an order of its own. -/
def sketchMachine {S U C E : Type} (update : S → U → Option S)
    (mergeFrom : S → S → Except SketchError S) (reset : S → S) (shown : S → Shown C E) :
    Machine S (SketchOp U S) (Shown C E) where
  layout := Eq
  apply s
    | .update arguments => update s arguments
    | .merge other => mergeOrKeep mergeFrom s other
  reset := reset
  view := shown
  kept _ := rfl

theorem mergeOrKeep_forgets {S : Type} {mergeFrom : S → S → Except SketchError S} {reset : S → S}
    (forgets : ∀ s other t, mergeFrom s other = .ok t → reset t = reset s) {s other t : S}
    (merged : mergeOrKeep mergeFrom s other = some t) : reset t = reset s := by
  unfold mergeOrKeep at merged
  cases result : mergeFrom s other with
  | ok u =>
    rw [result] at merged
    cases merged
    exact forgets s other t result
  | error e =>
    rw [result] at merged
    cases merged
    rfl

/-- What holds of a sketch whose updates and merges a reset forgets. -/
theorem sketchMachine_restarts {S U C E : Type} {update : S → U → Option S}
    {mergeFrom : S → S → Except SketchError S} {reset : S → S} {shown : S → Shown C E}
    (updates : ∀ s arguments t, update s arguments = some t → reset t = reset s)
    (merges : ∀ s other t, mergeFrom s other = .ok t → reset t = reset s) {first s : S}
    (start : reset first = first)
    (reached : (sketchMachine update mergeFrom reset shown).Reached first s) :
    (sketchMachine update mergeFrom reset shown).Restarts first s := by
  refine Machine.restarts_of_eq (fun _ _ same => same) ?_
  refine Machine.reset_eq_of_forgets start ?_ ?_ reached
  · rintro s _ rfl
    rfl
  · intro s op t applied
    cases op with
    | update arguments => exact updates s arguments t applied
    | merge other => exact mergeOrKeep_forgets merges applied

/-! ## Tables of counters -/

namespace CountMinSketch

def machine (hashing : Hashing) :=
  sketchMachine (fun (s : CountMinSketch) (arguments : Bytes × Nat) =>
      some (s.update hashing arguments.1 arguments.2))
    (mergeFrom hashing) reset
    (fun s => (⟨(s.table, s.totalWeight, s.updates), s.estimateU64 hashing, s.toSnapshot hashing⟩ :
      Shown (List Nat × Nat × Nat) (Bytes → Nat)))

theorem update_forgotten (hashing : Hashing) (s : CountMinSketch) (key : Bytes) (value : Nat) :
    (s.update hashing key value).reset = s.reset := by
  have length : (s.update hashing key value).table.length = s.table.length := by
    unfold update raiseRows addRows
    dsimp only
    split <;> exact Lib.Lists.foldl_modify_length _ _ _ _
  unfold reset
  rw [List.map_const', List.map_const', length]
  rfl

theorem merge_forgotten {hashing : Hashing} {s other t : CountMinSketch}
    (merged : s.mergeFrom hashing other = .ok t) : t.reset = s.reset := by
  obtain ⟨_, _, result⟩ := bind_ok merged
  cases result
  unfold reset
  rw [List.map_const', List.map_const', addCells_length]

theorem restarts {hashing : Hashing} {width depth : Nat} {conservative : Bool} {hash : HashSpec}
    {first s : CountMinSketch} (created : new width depth conservative hash = .ok first)
    (reached : (machine hashing).Reached first s) : (machine hashing).Restarts first s := by
  refine sketchMachine_restarts ?_ (fun _ _ _ => merge_forgotten) ?_ reached
  · intro s arguments t updated
    cases updated
    exact update_forgotten hashing s _ _
  · unfold new at created
    split at created
    · cases created
    · cases created
      unfold reset
      rw [List.map_const', List.length_replicate]

end CountMinSketch

namespace CountSketch

def machine (hashing : Hashing) :=
  sketchMachine (fun (s : CountSketch) (arguments : Bytes × Int) =>
      some (s.updateSigned hashing arguments.1 arguments.2))
    (mergeFrom hashing) reset
    (fun s => (⟨(s.table, s.updates), s.estimateSigned hashing, s.toSnapshot hashing⟩ :
      Shown (List Int × Nat) (Bytes → Int)))

theorem restarts {hashing : Hashing} {width depth : Nat} {hash : HashSpec} {first s : CountSketch}
    (created : new width depth hash = .ok first) (reached : (machine hashing).Reached first s) :
    (machine hashing).Restarts first s := by
  refine sketchMachine_restarts ?_ ?_ ?_ reached
  · intro s arguments t updated
    cases updated
    unfold reset updateSigned
    dsimp only
    rw [List.map_const', List.map_const', Lib.Lists.foldl_modify_length]
  · intro s other t merged
    obtain ⟨_, _, result⟩ := bind_ok merged
    cases result
    unfold reset
    rw [List.map_const', List.map_const', addCells_length]
  · unfold new at created
    split at created
    · cases created
    · cases created
      unfold reset
      rw [List.map_const', List.length_replicate]

end CountSketch

/-! ## SpaceSaving -/

namespace SpaceSaving
open Lib.CounterSummary (Entry)

def machine (hashing : Hashing) :=
  sketchMachine (fun (s : SpaceSaving) (arguments : Bytes × Nat) =>
      s.add hashing arguments.1 arguments.2)
    (mergeFrom hashing) reset
    (fun s => (⟨(s.topK, s.totalWeight, s.updates), s.get hashing, s.toSnapshot hashing⟩ :
      Shown ((Nat → List (Bytes × Entry)) × Nat × Nat) (Bytes → Option Entry)))

theorem siftUp_forgotten (s : SpaceSaving) (index : Nat) : (s.siftUp index).reset = s.reset :=
  heapOps.siftUp_kept (P := fun t => t.reset = s.reset) (fun _ _ _ kept => kept) rfl index

theorem siftDown_forgotten (s : SpaceSaving) (index : Nat) : (s.siftDown index).reset = s.reset :=
  heapOps.siftDown_kept (P := fun t => t.reset = s.reset) (fun _ _ _ kept => kept) rfl index

theorem insertEntryWithDigest_forgotten (s : SpaceSaving) (key : Bytes) (digest : UInt64)
    (count error : Nat) : (s.insertEntryWithDigest key digest count error).reset = s.reset :=
  siftUp_forgotten _ _

theorem removeFromIndex_forgotten {s t : SpaceSaving} {digest : UInt64} {slotIndex : Nat}
    (removed : s.removeFromIndex digest slotIndex = some t) : t.reset = s.reset := by
  unfold removeFromIndex at removed
  split at removed
  · cases removed
  · cases removed
    rfl
  · split at removed
    · cases removed
    · cases removed
      rfl

theorem replaceMin_forgotten {s t : SpaceSaving} {key old : Bytes} {digest : UInt64}
    {count error : Nat} (replaced : s.replaceMin key digest count error = some (t, old)) :
    t.reset = s.reset := by
  obtain ⟨slotIndex, _, replaced⟩ := Option.bind_eq_some_iff.mp replaced
  obtain ⟨u, removed, replaced⟩ := Option.bind_eq_some_iff.mp replaced
  cases replaced
  have kept : u.reset = s.reset := removeFromIndex_forgotten removed
  exact (siftDown_forgotten _ _).trans kept

theorem add_forgotten {hashing : Hashing} {s t : SpaceSaving} {key : Bytes} {weight : Nat}
    (added : s.add hashing key weight = some t) : t.reset = s.reset := by
  unfold add at added
  dsimp only at added
  split at added
  · cases added
    exact siftDown_forgotten _ _
  · split at added
    · cases added
      exact insertEntryWithDigest_forgotten _ _ _ _ _
    · obtain ⟨⟨u, old⟩, replaced, rfl⟩ := Option.map_eq_some_iff.mp added
      have kept : u.reset = (s.tally weight).reset := replaceMin_forgotten replaced
      exact kept

theorem insertAll_forgotten (hashing : Hashing) (items : List (Bytes × Entry)) (s : SpaceSaving) :
    (items.foldl (fun s (key, entry) =>
      s.insertEntry hashing key entry.count entry.error) s).reset = s.reset := by
  induction items generalizing s with
  | nil => rfl
  | cons item rest ih => exact (ih _).trans (insertEntryWithDigest_forgotten _ _ _ _ _)

theorem merge_forgotten {hashing : Hashing} {s other t : SpaceSaving}
    (merged : s.mergeFrom hashing other = .ok t) : t.reset = s.reset := by
  obtain ⟨_, _, result⟩ := bind_ok merged
  cases result
  exact insertAll_forgotten hashing _ s.clear

theorem restarts {hashing : Hashing} {capacity : Nat} {hash : HashSpec} {first s : SpaceSaving}
    (created : new capacity hash = .ok first) (reached : (machine hashing).Reached first s) :
    (machine hashing).Restarts first s := by
  refine sketchMachine_restarts (fun _ _ _ => add_forgotten) (fun _ _ _ => merge_forgotten) ?_
    reached
  unfold new at created
  split at created
  · cases created
  · cases created
    rfl

end SpaceSaving

/-! ## Snapshots tell payloads apart -/

theorem payload_of_writeSnapshot {hashing : Hashing} {header : SnapshotHeader}
    {params payload payload' : Bytes}
    (same : writeSnapshot hashing header params payload =
      writeSnapshot hashing header params payload') : payload = payload' := by
  unfold writeSnapshot at same
  have bodies := (List.append_inj' same (by rw [leBytes_length, leBytes_length])).1
  unfold snapshotBody at bodies
  rw [List.append_assoc, List.append_assoc _ (leBytes 4 payload'.length)] at bodies
  have tails := List.append_cancel_left bodies
  exact (List.append_inj tails (by rw [leBytes_length, leBytes_length])).2

/-! ## KLL -/

namespace KllSketch

def machine (hashing : Hashing) :=
  sketchMachine (fun (s : KllSketch) (value : Nat) => some (s.insert value)) (mergeFrom hashing)
    reset
    (fun s => (⟨(s.levels, s.n, s.updates), (s.quantile, s.rank), s.toSnapshot hashing⟩ :
      Shown (List (List Nat) × Nat × Nat) ((Float → Option Nat) × (Nat → Float))))

/-- A reached sketch has the parameters of the first. -/
theorem reached_setup {hashing : Hashing} {first s : KllSketch}
    (reached : (machine hashing).Reached first s) : s.k = first.k ∧ s.hash = first.hash := by
  refine Machine.reached_induction (P := fun s => s.k = first.k ∧ s.hash = first.hash) reached
    ⟨rfl, rfl⟩ ?_ ?_
  · rintro s _ rfl kept
    exact kept
  · intro s op t applied kept
    cases op with
    | update value =>
      cases applied
      have setup := compress_setup { s with
        n := wrappingAdd s.n 1, updates := wrappingAdd s.updates 1,
        levels := s.levels.modify 0 (fun items => items ++ [value]) }
      exact ⟨setup.k.trans kept.1, setup.hash.trans kept.2⟩
    | merge other =>
      change mergeOrKeep (mergeFrom hashing) s other = some t at applied
      unfold mergeOrKeep at applied
      split at applied
      next u merged =>
        cases applied
        obtain ⟨_, _, result⟩ := bind_ok merged
        cases result
        have setup := compress_setup { s with
          levels := joinLevels s.levels other.levels, n := wrappingAdd s.n other.n,
          updates := wrappingAdd s.updates other.updates,
          rngState := splitmix64 (s.rngState ^^^ other.rngState) }
        exact ⟨setup.k.trans kept.1, setup.hash.trans kept.2⟩
      · cases applied
        exact kept

/-- The snapshot holds the state of the generator. -/
theorem rngState_of_payload {s t : KllSketch} (counts : s.n = t.n) (same : s.payload = t.payload) :
    s.rngState = t.rngState := by
  unfold payload at same
  rw [counts] at same
  simp only [List.append_assoc] at same
  have words := (List.append_inj (List.append_cancel_left same)
    (by rw [leBytes_length, leBytes_length])).1
  have values := congrArg leValue words
  rw [leValue_leBytes s.rngState.toNat_lt, leValue_leBytes t.rngState.toNat_lt] at values
  exact UInt64.toNat_inj.mp values

theorem payload_of_toSnapshot {hashing : Hashing} {s t : KllSketch} (k : s.k = t.k)
    (hash : s.hash = t.hash) (same : s.toSnapshot hashing 0 0 = t.toSnapshot hashing 0 0) :
    s.payload = t.payload := by
  unfold toSnapshot at same
  rw [k, hash] at same
  exact payload_of_writeSnapshot same

theorem restarts_iff {hashing : Hashing} {k : Nat} {hash : HashSpec} {first s : KllSketch}
    (created : new k hash = .ok first) (reached : (machine hashing).Reached first s) :
    (machine hashing).Restarts first s ↔ s.rngState = first.rngState := by
  obtain ⟨sameK, sameHash⟩ := reached_setup reached
  have back : s.reset = { first with rngState := s.rngState } := by
    unfold new at created
    split at created
    · cases created
    · cases created
      unfold reset
      rw [sameK, sameHash]
  constructor
  · intro alike
    have snapshots : s.reset.toSnapshot hashing 0 0 = first.toSnapshot hashing 0 0 :=
      congrFun (congrFun (congrArg Shown.snapshot alike.view_eq) 0) 0
    rw [back] at snapshots
    exact @rngState_of_payload { first with rngState := s.rngState } first rfl
      (@payload_of_toSnapshot hashing { first with rngState := s.rngState } first rfl rfl snapshots)
  · intro same
    refine Machine.restarts_of_eq (fun _ _ same => same) ?_
    show s.reset = first
    rw [back, same]

end KllSketch

/-! ## HyperLogLog -/

namespace HyperLogLog

def Dense (s : HyperLogLog) : Prop := ∃ registers, s.storage = .dense registers

def machine {E : Type} (estimator : Estimator E) (hashing : Hashing) :=
  sketchMachine (fun (s : HyperLogLog) (key : Bytes) => some (s.insert hashing key))
    (mergeFrom hashing) reset
    (fun s => (⟨(s.ensureDense, s.updates), s.cardinality estimator, s.toSnapshot hashing⟩ :
      Shown (List Nat × Nat) E))

variable {E : Type} {estimator : Estimator E} {hashing : Hashing}

theorem reached_setup {first s : HyperLogLog}
    (reached : (machine estimator hashing).Reached first s) :
    s.precision = first.precision ∧ s.hash = first.hash := by
  refine Machine.reached_induction
    (P := fun s => s.precision = first.precision ∧ s.hash = first.hash) reached ⟨rfl, rfl⟩ ?_ ?_
  · rintro s _ rfl kept
    exact kept
  · intro s op t applied kept
    cases op with
    | update key =>
      cases applied
      have setup := insertHash_setup { s with updates := wrappingAdd s.updates 1 }
        (hashing.hash64 key s.hash.seed)
      exact ⟨setup.precision.trans kept.1, setup.hash.trans kept.2⟩
    | merge other =>
      change mergeOrKeep (mergeFrom hashing) s other = some t at applied
      unfold mergeOrKeep at applied
      split at applied
      next u merged =>
        cases applied
        obtain ⟨precision, hash⟩ := mergeFrom_setup merged
        exact ⟨precision.trans kept.1, hash.trans kept.2⟩
      · cases applied
        exact kept

theorem alike_of_reformed {s t : HyperLogLog} (reformed : Reformed s t) :
    (machine estimator hashing).Alike s t := by
  refine Machine.alike_of_simulation (R := Reformed) ?_ ?_ ?_ reformed
  · rintro s _ t _ rfl rfl reformed
    exact reformed
  · intro s t op reformed
    cases op with
    | update key => exact .some (insert_reformed hashing reformed key)
    | merge other =>
      show Option.Rel Reformed (mergeOrKeep (mergeFrom hashing) s other)
        (mergeOrKeep (mergeFrom hashing) t other)
      unfold mergeOrKeep
      rcases mergeFrom_reformed hashing reformed other with
        ⟨e, left, right⟩ | ⟨s', t', left, right, merged⟩
      · rw [left, right]
        exact .some reformed
      · rw [left, right]
        exact .some merged
  · intro s t reformed
    have shown : t.ensureDense = s.ensureDense ∧ t.updates = s.updates ∧
        t.cardinality estimator = s.cardinality estimator ∧
        t.toSnapshot hashing = s.toSnapshot hashing := by
      refine ⟨ensureDense_reformed reformed, ?_, cardinality_reformed estimator reformed, ?_⟩
      · obtain ⟨_⟩ := reformed
        rfl
      · have payloads := payload_reformed reformed
        obtain ⟨_⟩ := reformed
        unfold toSnapshot
        rw [payloads]
    show Shown.mk _ _ _ = Shown.mk _ _ _
    rw [shown.1, shown.2.1, shown.2.2.1, shown.2.2.2]

/-- The byte after the update count is the kind of the storage. -/
theorem payload_kind {s t : HyperLogLog} {registers : List Nat} {hashes : List UInt64}
    (left : s.storage.held = .inr registers) (right : t.storage.held = .inl hashes) :
    s.payload ≠ t.payload := by
  intro same
  rw [payload_held, payload_held, left, right] at same
  have kinds := (List.append_inj same (by rw [leBytes_length, leBytes_length])).2
  have kindsApart : (1 : UInt8) = 0 := Option.some.inj (congrArg List.head? kinds)
  exact absurd kindsApart (by decide)

theorem restarts_iff {precision : Nat} {hash : HashSpec} {first s : HyperLogLog}
    (created : new precision hash = .ok first)
    (reached : (machine estimator hashing).Reached first s) :
    (machine estimator hashing).Restarts first s ↔ ¬s.Dense := by
  obtain ⟨samePrecision, sameHash⟩ := reached_setup reached
  have emptied : first = { s.reset with storage := .empty } := by
    unfold new at created
    split at created
    · cases created
    · cases created
      unfold reset
      rw [samePrecision, sameHash]
  constructor
  · rintro alike ⟨registers, dense⟩
    have snapshots : s.reset.toSnapshot hashing 0 0 = first.toSnapshot hashing 0 0 :=
      congrFun (congrFun (congrArg Shown.snapshot alike.view_eq) 0) 0
    have kept : s.reset.storage.held = .inr (registers.map (fun _ => 0)) := by
      unfold reset
      rw [dense]
      rfl
    rw [emptied] at snapshots
    exact @payload_kind s.reset { s.reset with storage := .empty } _ [] kept rfl
      (payload_of_writeSnapshot snapshots)
  · intro sparse
    have kept : s.reset.storage.held = .inl [] := by
      unfold reset
      cases form : s.storage with
      | dense registers => exact absurd ⟨registers, form⟩ sparse
      | empty => rfl
      | singleton hash => rfl
      | sparse hashes => rfl
    refine alike_of_reformed (t := first) ?_
    rw [emptied]
    exact .of kept.symm

end HyperLogLog

/-! ## Misra-Gries -/

namespace MisraGries

def machine (hashing : Hashing) :=
  { sketchMachine (fun (s : MisraGries) (arguments : Bytes × Nat) => s.add arguments.1 arguments.2)
      (mergeFrom hashing) reset
      (fun s => (⟨(s.get, s.totalWeight, s.updates), fun key => (s.get key).getD 0,
        s.toSnapshot hashing⟩ : Shown ((Bytes → Option Nat) × Nat × Nat) (Bytes → Nat))) with
    layout := fun (s t : MisraGries) =>
      ∃ counters, s.counters.Perm counters ∧ t = { s with counters }
    kept := fun s => ⟨s.counters, .refl _, rfl⟩ }

/-- `t` is `s` with its counters in another order. -/
inductive Laid (s : MisraGries) : MisraGries → Prop
  | of {counters : List (Bytes × Nat)} (same : s.counters.Perm counters)
      (distinct : (keys s.counters).Nodup) : Laid s { s with counters }

theorem Laid.symm {s t : MisraGries} (laid : Laid s t) : Laid t s := by
  obtain ⟨same, distinct⟩ := laid
  exact @Laid.of { s with counters := _ } s.counters same.symm
    ((same.map Prod.fst).nodup_iff.mp distinct)

/-- An addition keeps the parameters and one counter for each key. -/
theorem add_kept {s t : MisraGries} {key : Bytes} {weight : Nat}
    (added : s.add key weight = some t) :
    t.reset = s.reset ∧ ((keys s.counters).Nodup → (keys t.counters).Nodup) := by
  unfold MisraGries.add at added
  cases known : s.counters.lookup key with
  | some count =>
    simp only [known] at added
    cases added
    exact ⟨rfl, insert_nodup⟩
  | none =>
    simp only [known] at added
    split at added
    · cases added
      exact ⟨rfl, insert_nodup⟩
    · obtain ⟨counters, displaced, result⟩ := Option.bind_eq_some_iff.mp added
      cases result
      obtain ⟨least, _, displaced⟩ := Option.bind_eq_some_iff.mp displaced
      refine ⟨rfl, fun distinct => ?_⟩
      have kept := (keys_decrement (min least weight) s.counters).nodup distinct
      simp only at displaced
      split at displaced
      · cases displaced
        exact insert_nodup kept
      · cases displaced
        exact kept

theorem add_laid {s t : MisraGries} (laid : Laid s t) (key : Bytes) (weight : Nat) :
    Option.Rel Laid (s.add key weight) (t.add key weight) := by
  cases added : s.add key weight with
  | some u =>
    obtain ⟨same, distinct⟩ := laid
    obtain ⟨after, again, order⟩ := add_perm distinct same added
    rw [again]
    exact .some (.of order ((add_kept added).2 distinct))
  | none =>
    cases again : t.add key weight with
    | none => exact .none
    | some u =>
      have back := laid.symm
      obtain ⟨same, distinct⟩ := back
      obtain ⟨_, first, _⟩ := add_perm distinct same again
      rw [first] at added
      cases added

theorem addAll_laid (theirs : List (Bytes × Nat)) {mine mine' : List (Bytes × Nat)}
    (same : mine.Perm mine') (distinct : (keys mine).Nodup) :
    (addAll mine theirs).Perm (addAll mine' theirs) := by
  induction theirs generalizing mine mine' with
  | nil => exact same
  | cons entry rest ih =>
    obtain ⟨key, count⟩ := entry
    refine ih ?_ (insert_nodup distinct)
    dsimp only
    rw [← lookup_perm same distinct key]
    exact insert_perm same distinct _ _

theorem trimToCapacity_nodup (capacity rounds : Nat) {counters : List (Bytes × Nat)}
    (distinct : (keys counters).Nodup) : (keys (trimToCapacity capacity rounds counters)).Nodup := by
  induction rounds generalizing counters with
  | zero => exact distinct
  | succ rounds ih =>
    rw [trimToCapacity]
    split
    · exact ih ((keys_decrement _ _).nodup distinct)
    · exact distinct

theorem merge_laid (hashing : Hashing) {s t : MisraGries} (laid : Laid s t) (other : MisraGries) :
    Option.Rel Laid (mergeOrKeep (mergeFrom hashing) s other)
      (mergeOrKeep (mergeFrom hashing) t other) := by
  have compatible : t.compatibility hashing = s.compatibility hashing := by
    obtain ⟨_, _⟩ := laid
    rfl
  unfold mergeOrKeep mergeFrom
  rw [compatible]
  cases (s.compatibility hashing).ensureMatches (other.compatibility hashing) with
  | error e => exact .some laid
  | ok passed =>
    obtain ⟨same, distinct⟩ := laid
    have summed := addAll_laid other.counters same distinct
    exact .some (.of (trimToCapacity_perm summed)
      (trimToCapacity_nodup _ _ (addAll_nodup other.counters distinct)))

theorem shown_laid (hashing : Hashing) {s t : MisraGries} (laid : Laid s t) :
    (machine hashing).view s = (machine hashing).view t := by
  obtain @⟨counters, same, distinct⟩ := laid
  have gets : s.get = get { s with counters } := funext (lookup_perm same distinct)
  have payloads : s.payload = payload { s with counters } := by
    have sorted : s.sorted = MisraGries.sorted { s with counters } := sort_by_key_perm same distinct
    unfold payload
    rw [sorted, same.length_eq]
  have snapshots : s.toSnapshot hashing = toSnapshot hashing { s with counters } := by
    unfold toSnapshot
    rw [payloads]
  show Shown.mk _ _ _ = Shown.mk _ _ _
  rw [gets, snapshots]

theorem restarts {hashing : Hashing} {capacity : Nat} {hash : HashSpec} {first s : MisraGries}
    (created : new capacity hash = .ok first) (reached : (machine hashing).Reached first s) :
    (machine hashing).Restarts first s := by
  have emptied : first = { capacity, hash, counters := [], totalWeight := 0, updates := 0 } := by
    unfold new at created
    split at created
    · cases created
    · cases created
      rfl
  have back : s.reset = first := by
    refine Machine.reset_eq_of_forgets (m := machine hashing) ?_ ?_ ?_ reached
    · rw [emptied]
      rfl
    · rintro s _ ⟨counters, _, rfl⟩
      rfl
    · intro s op t applied
      cases op with
      | update arguments => exact (add_kept applied).1
      | merge other =>
        refine @mergeOrKeep_forgets _ (mergeFrom hashing) reset (fun s other t merged => ?_) _ _ _
          applied
        obtain ⟨_, _, result⟩ := bind_ok merged
        cases result
        rfl
  refine Machine.alike_of_simulation (R := Laid) ?_ ?_ ?_ (t := first) ?_
  · rintro s _ t _ ⟨left, before, rfl⟩ ⟨right, after, rfl⟩ ⟨same, distinct⟩
    exact @Laid.of { s with counters := left } right (before.symm.trans (same.trans after))
      ((before.map Prod.fst).nodup_iff.mp distinct)
  · intro s t op laid
    cases op with
    | update arguments => exact add_laid laid arguments.1 arguments.2
    | merge other => exact merge_laid hashing laid other
  · rintro s _ ⟨same, distinct⟩
    exact shown_laid hashing (.of same distinct)
  · show Laid s.reset first
    rw [back, emptied]
    exact .of (.refl _) List.nodup_nil

end MisraGries

/-! ## HLLMap -/

namespace HllMap

variable {F : Type}

theorem mergeEntries_forgotten (hashing : Hashing) (theirs : List (Bytes × HllSlot F))
    (s : HllMap F) : (mergeEntries hashing theirs s).2.reset = s.reset := by
  induction theirs generalizing s with
  | nil => rfl
  | cons entry rest ih =>
    rw [mergeEntries]
    split
    · split
      · exact ih _
      · rfl
    · exact ih _

theorem Evicted.forgotten {s t : HllMap F} (evicted : Evicted s t) : t.reset = s.reset := by
  unfold reset
  rw [evicted.maxKeys, evicted.precision, evicted.hash]

variable [LinearOrder F] {cardinality : Cardinality F}

def machine (cardinality : Cardinality F) (hashing : Hashing) :
    Machine (HllMap F) (SketchOp (Bytes × Bytes) (HllMap F))
      (Shown ((Bytes → Option HyperLogLog) × Nat × Nat) (Bytes → Option F)) where
  layout s t := ∃ map, s.map.Perm map ∧ t = { s with map }
  apply s
    | .update (key, item) => s.insert cardinality hashing key item
    | .merge other => (s.mergeInto cardinality hashing other).map Prod.snd
  reset := reset
  view s :=
    { content := (fun key => (s.map.lookup key).map HllSlot.hll, s.evictedKeys, s.updates)
      estimates := fun key => (s.map.lookup key).map (fun slot => cardinality.of slot.hll)
      snapshot := s.toSnapshot hashing }
  kept s := ⟨s.map, .refl _, rfl⟩

theorem insert_forgotten {hashing : Hashing} {s t : HllMap F} {key item : Bytes}
    (inserted : s.insert cardinality hashing key item = some t) : t.reset = s.reset := by
  unfold HllMap.insert at inserted
  cases known : s.map.lookup key with
  | some slot =>
    simp only [known] at inserted
    cases inserted
    rfl
  | none =>
    simp only [known] at inserted
    obtain ⟨u, room, inserted⟩ := Option.bind_eq_some_iff.mp inserted
    obtain ⟨hll, _, inserted⟩ := Option.bind_eq_some_iff.mp inserted
    cases inserted
    obtain ⟨maxKeys, precision, hash, _⟩ := makeRoom_setup room
    unfold reset
    dsimp only
    rw [maxKeys, precision, hash]

theorem trim_forgotten {rounds : Nat} {s t : HllMap F}
    (trimmed : trim cardinality rounds s = some t) : t.reset = s.reset := by
  induction rounds generalizing s with
  | zero =>
    cases trimmed
    rfl
  | succ rounds ih =>
    rw [trim] at trimmed
    split at trimmed
    · obtain ⟨u, evicted, later⟩ := Option.bind_eq_some_iff.mp trimmed
      exact (ih later).trans (evictLoop_evicted cardinality evicted).forgotten
    · cases trimmed
      rfl

theorem merge_forgotten {hashing : Hashing} {s other t : HllMap F}
    {result : Except SketchError Unit}
    (merged : s.mergeInto cardinality hashing other = some (result, t)) : t.reset = s.reset := by
  have entries := mergeEntries_forgotten hashing other.map s
  unfold mergeInto at merged
  split at merged
  · cases merged
    rfl
  · split at merged
    next e u failed =>
      cases merged
      rw [failed] at entries
      exact entries
    next u done =>
      rw [done] at entries
      obtain ⟨v, trimmed, final⟩ := Option.bind_eq_some_iff.mp merged
      cases final
      have kept : v.reset = (u.rebuildEvictionHeap cardinality).reset := trim_forgotten trimmed
      exact kept.trans entries

theorem shown_laid (hashing : Hashing) {s t : HllMap F} (laid : Laid s t) :
    (machine cardinality hashing).view s = (machine cardinality hashing).view t := by
  obtain @⟨map, eviction, entries, heap, distinct⟩ := laid
  have sorted : s.sorted = HllMap.sorted { s with map, eviction } :=
    sort_by_key_perm entries distinct
  have snapshots : s.toSnapshot hashing = toSnapshot hashing { s with map, eviction } := by
    funext windowStart windowEnd
    unfold toSnapshot payload
    rw [sorted, entries.length_eq]
    rfl
  show Shown.mk _ _ _ = Shown.mk _ _ _
  rw [snapshots]
  simp only [lookup_perm entries distinct]

theorem restarts {hashing : Hashing} {maxKeys precision : Nat} {hash : HashSpec}
    {first s : HllMap F} (created : new maxKeys precision hash = .ok first)
    (reached : (machine cardinality hashing).Reached first s) :
    (machine cardinality hashing).Restarts first s := by
  have emptied : first = { maxKeys, precision, hash, map := [], eviction := [], evictedKeys := 0
                           updates := 0 } := by
    unfold new at created
    obtain ⟨_, created⟩ := throw_ok created
    obtain ⟨_, _, created⟩ := bind_ok created
    cases created
    rfl
  have back : s.reset = first := by
    refine Machine.reset_eq_of_forgets (m := machine cardinality hashing) ?_ ?_ ?_ reached
    · rw [emptied]
      rfl
    · rintro s _ ⟨map, _, rfl⟩
      rfl
    · intro s op t applied
      cases op with
      | update arguments => exact insert_forgotten applied
      | merge other =>
        obtain ⟨⟨result, u⟩, merged, rfl⟩ := Option.map_eq_some_iff.mp applied
        exact merge_forgotten merged
  refine Machine.alike_of_simulation (R := Laid) ?_ ?_ ?_ (t := first) ?_
  · rintro s _ t _ ⟨left, before, rfl⟩ ⟨right, after, rfl⟩ ⟨entries, heap, distinct⟩
    exact @Laid.of F { s with map := left } right _ (before.symm.trans (entries.trans after)) heap
      ((before.map Prod.fst).nodup_iff.mp distinct)
  · intro s t op laid
    cases op with
    | update arguments => exact insert_laid cardinality hashing laid arguments.1 arguments.2
    | merge other =>
      exact rel_map (mergeInto_laid cardinality hashing laid other) fun _ _ both => both.2
  · exact fun s t laid => shown_laid hashing laid
  · show Laid s.reset first
    rw [back, emptied]
    exact .of (.refl _) (.refl _) List.nodup_nil

end HllMap

/-! ## The seven sketches -/

namespace Resets

/-- Every sketch that operations lead to from a new one is reset to a new one just when `clean`. -/
def RestartsWhen {S Op V : Type} (m : Machine S Op V) (created : S → Prop) (clean : S → S → Prop) :
    Prop :=
  ∀ first s, created first → m.Reached first s → (m.Restarts first s ↔ clean first s)

theorem resets_restart_iff {F E : Type} [LinearOrder F] (hashing : Hashing)
    (cardinality : Cardinality F) (estimator : HyperLogLog.Estimator E) :
    RestartsWhen (CountMinSketch.machine hashing)
        (fun first => ∃ width depth conservative hash,
          CountMinSketch.new width depth conservative hash = .ok first) (fun _ _ => True) ∧
      RestartsWhen (CountSketch.machine hashing)
        (fun first => ∃ width depth hash, CountSketch.new width depth hash = .ok first)
        (fun _ _ => True) ∧
      RestartsWhen (SpaceSaving.machine hashing)
        (fun first => ∃ capacity hash, SpaceSaving.new capacity hash = .ok first)
        (fun _ _ => True) ∧
      RestartsWhen (MisraGries.machine hashing)
        (fun first => ∃ capacity hash, MisraGries.new capacity hash = .ok first)
        (fun _ _ => True) ∧
      RestartsWhen (HllMap.machine cardinality hashing)
        (fun first => ∃ maxKeys precision hash, HllMap.new maxKeys precision hash = .ok first)
        (fun _ _ => True) ∧
      RestartsWhen (HyperLogLog.machine estimator hashing)
        (fun first => ∃ precision hash, HyperLogLog.new precision hash = .ok first)
        (fun _ s => ¬s.Dense) ∧
      RestartsWhen (KllSketch.machine hashing)
        (fun first => ∃ k hash, KllSketch.new k hash = .ok first)
        (fun first s => s.rngState = first.rngState) := by
  refine ⟨?_, ?_, ?_, ?_, ?_, ?_, ?_⟩
  · rintro first s ⟨width, depth, conservative, hash, created⟩ reached
    exact iff_of_true (CountMinSketch.restarts created reached) trivial
  · rintro first s ⟨width, depth, hash, created⟩ reached
    exact iff_of_true (CountSketch.restarts created reached) trivial
  · rintro first s ⟨capacity, hash, created⟩ reached
    exact iff_of_true (SpaceSaving.restarts created reached) trivial
  · rintro first s ⟨capacity, hash, created⟩ reached
    exact iff_of_true (MisraGries.restarts created reached) trivial
  · rintro first s ⟨maxKeys, precision, hash, created⟩ reached
    exact iff_of_true (HllMap.restarts created reached) trivial
  · rintro first s ⟨precision, hash, created⟩ reached
    exact HyperLogLog.restarts_iff created reached
  · rintro first s ⟨k, hash, created⟩ reached
    exact KllSketch.restarts_iff created reached

/-- An estimator that counts hashes or registers. -/
def sizes : HyperLogLog.Estimator Nat :=
  { ofCount := id, ofRegisters := fun _ registers => registers.length }

/-- The smallest KLL sketch, empty. -/
def smallKll : KllSketch :=
  { k := 8, hash := HashSpec.new 1, levels := [[]], n := 0
    rngState := splitmix64 ((1 : UInt64) ^^^ 0x6B6C6C00), updates := 0 }

/-- The smallest HyperLogLog, empty. -/
def smallHll : HyperLogLog :=
  { precision := 4, hash := HashSpec.new 1, storage := .empty, updates := 0 }

theorem untouched_restarts :
    (HyperLogLog.machine sizes fsk1).Restarts smallHll (smallHll.insert fsk1 [1]) ∧
      (KllSketch.machine fsk1).Restarts smallKll smallKll := by
  obtain ⟨_, _, _, _, _, hll, kll⟩ := resets_restart_iff fsk1 HllMap.hashCount sizes
  constructor
  · have reached : (HyperLogLog.machine sizes fsk1).Reached smallHll (smallHll.insert fsk1 [1]) :=
      ⟨[.update [1]], .step rfl rfl (.done rfl)⟩
    refine (hll smallHll _ ⟨4, HashSpec.new 1, rfl⟩ reached).mpr ?_
    rintro ⟨registers, dense⟩
    cases dense
  · exact (kll smallKll smallKll ⟨8, HashSpec.new 1, rfl⟩ ⟨[], .done rfl⟩).mpr rfl

theorem smallKll_merged : smallKll.mergeFrom fsk1 smallKll =
    .ok { smallKll with rngState := splitmix64 0 } := by
  unfold KllSketch.mergeFrom
  rw [SketchCompatibility.ensureMatches_self]
  rfl

theorem reset_keeps_state :
    (∃ s, (KllSketch.machine fsk1).Reached smallKll s ∧
      ¬(KllSketch.machine fsk1).Restarts smallKll s) ∧
    ∃ s, (HyperLogLog.machine sizes fsk1).Reached smallHll s ∧
      ¬(HyperLogLog.machine sizes fsk1).Restarts smallHll s := by
  constructor
  · have reached : (KllSketch.machine fsk1).Reached smallKll
        { smallKll with rngState := splitmix64 0 } := by
      refine ⟨[.merge smallKll], .step rfl ?_ (.done rfl)⟩
      show mergeOrKeep (KllSketch.mergeFrom fsk1) smallKll smallKll = _
      unfold mergeOrKeep
      rw [smallKll_merged]
    refine ⟨_, reached, fun restarts => ?_⟩
    have same := (@KllSketch.restarts_iff _ 8 (HashSpec.new 1) _ _ rfl reached).mp restarts
    exact absurd same (by decide)
  · have reached : (HyperLogLog.machine sizes fsk1).Reached smallHll
        ((smallHll.insert fsk1 [1]).insert fsk1 [2]) :=
      ⟨[.update [1], .update [2]], .step rfl rfl (.step rfl rfl (.done rfl))⟩
    refine ⟨_, reached, fun restarts => ?_⟩
    have sparse := (@HyperLogLog.restarts_iff _ _ _ 4 (HashSpec.new 1) _ _ rfl reached).mp restarts
    exact sparse ⟨_, rfl⟩

end Resets

end FlowSketch.Source
