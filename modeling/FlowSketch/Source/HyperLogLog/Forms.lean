import FlowSketch.Source.HyperLogLog.Canonical

/-!
# The forms of a sketch that is not dense

An emptied vector of hashes and no vector at all hold the same hashes. Every operation, the estimate
and the snapshot depend on what the storage holds and not on its form. The floating point of the
estimate is a parameter.
-/

namespace FlowSketch.Source
open Lib.Octets Lib.Word64 Source.Core

/-- What a storage holds: hashes in order, or registers. -/
def RegisterStorage.held : RegisterStorage → List UInt64 ⊕ List Nat
  | .dense registers => .inr registers
  | storage => .inl storage.hashes

namespace HyperLogLog

/-- `t` is `s` with what it holds in another form. -/
inductive Reformed (s : HyperLogLog) : HyperLogLog → Prop
  | of {storage : RegisterStorage} (held : storage.held = s.storage.held) :
      Reformed s { s with storage }

/-- `insert_hash` by what is held. -/
def insertHeld (precision : Nat) (hash : UInt64) : List UInt64 ⊕ List Nat → List UInt64 ⊕ List Nat
  | .inl hashes =>
    if hash ∈ hashes then .inl hashes
    else if hashes.length < sparseLimit precision then
      .inl (hashes.orderedInsert (· ≤ ·) hash)
    else .inr (updateRegister precision (denseOf precision hashes) hash)
  | .inr registers => .inr (updateRegister precision registers hash)

theorem sort_two {x y : UInt64} : [x, y].mergeSort (· ≤ ·) = [x].orderedInsert (· ≤ ·) y := by
  have sorted : ([x, y].mergeSort (fun a b => decide (a ≤ b))).Pairwise (· ≤ ·) :=
    List.pairwise_mergeSort' (· ≤ ·) _
  have inserted : ([x].orderedInsert (· ≤ ·) y).Pairwise (· ≤ ·) :=
    (List.pairwise_singleton _ x).orderedInsert y _
  refine List.Perm.eq_of_pairwise' sorted inserted ?_
  exact (List.mergeSort_perm _ _).trans
    ((List.Perm.swap y x []).trans (List.perm_orderedInsert _ y [x]).symm)

theorem insertHash_held (s : HyperLogLog) (hash : UInt64) :
    (s.insertHash hash).storage.held = insertHeld s.precision hash s.storage.held := by
  have positive := sparseLimit_pos s.precision
  obtain ⟨precision, spec, storage, updates⟩ := s
  cases storage with
  | empty =>
    unfold insertHeld
    dsimp only [RegisterStorage.held, RegisterStorage.hashes]
    rw [if_neg List.not_mem_nil, List.length_nil, if_pos positive]
    rfl
  | singleton existing =>
    unfold insertHash insertHeld
    dsimp only [RegisterStorage.held, RegisterStorage.hashes]
    by_cases same : existing = hash
    · rw [if_pos same, if_pos (List.mem_singleton.mpr same.symm)]
    · rw [if_neg same, if_neg (fun found => same (List.mem_singleton.mp found).symm)]
      by_cases wide : sparseLimit precision > 1
      · rw [if_pos wide, sort_two]
        exact (if_pos wide).symm
      · rw [if_neg wide]
        exact (if_neg wide).symm
  | sparse hashes =>
    unfold insertHash insertHeld
    dsimp only [RegisterStorage.held, RegisterStorage.hashes]
    by_cases found : hash ∈ hashes
    · rw [if_pos found, if_pos found]
    · rw [if_neg found, if_neg found]
      by_cases room : hashes.length < sparseLimit precision
      · rw [if_pos room, if_pos room]
      · rw [if_neg room, if_neg room]
        rfl
  | dense registers => rfl

theorem insertHash_reformed {s t : HyperLogLog} (reformed : Reformed s t) (hash : UInt64) :
    Reformed (s.insertHash hash) (t.insertHash hash) := by
  have inserted := insertHash_held t hash
  obtain @⟨storage, held⟩ := reformed
  rw [(insertHash_setup { s with storage } hash).eq_of_storage,
    (insertHash_setup s hash).eq_of_storage]
  refine .of ?_
  rw [inserted, insertHash_held]
  exact congrArg _ held

theorem foldl_insertHash_reformed (hashes : List UInt64) {s t : HyperLogLog}
    (reformed : Reformed s t) :
    Reformed (hashes.foldl insertHash s) (hashes.foldl insertHash t) := by
  induction hashes generalizing s t with
  | nil => exact reformed
  | cons hash rest ih => exact ih (insertHash_reformed reformed hash)

theorem ensureDense_held (s : HyperLogLog) :
    s.ensureDense = s.storage.held.elim (denseOf s.precision) id := by
  obtain ⟨precision, spec, storage, updates⟩ := s
  cases storage <;> rfl

theorem ensureDense_reformed {s t : HyperLogLog} (reformed : Reformed s t) :
    t.ensureDense = s.ensureDense := by
  obtain ⟨held⟩ := reformed
  rw [ensureDense_held, ensureDense_held, held]

theorem mergeStorage_reformed {s t : HyperLogLog} (reformed : Reformed s t) (other : HyperLogLog) :
    Reformed (s.mergeStorage other) (t.mergeStorage other) := by
  unfold mergeStorage
  cases other.storage with
  | empty => exact reformed
  | singleton hash => exact insertHash_reformed reformed hash
  | sparse hashes => exact foldl_insertHash_reformed hashes reformed
  | dense theirs =>
    dsimp only
    rw [ensureDense_reformed reformed]
    obtain ⟨held⟩ := reformed
    exact .of rfl

/-- The totals do not depend on the form. -/
theorem Reformed.tally {s t : HyperLogLog} (reformed : Reformed s t) (updates : Nat) :
    Reformed { s with updates } { t with updates } := by
  obtain ⟨held⟩ := reformed
  exact .of held

theorem insert_reformed (hashing : Hashing) {s t : HyperLogLog} (reformed : Reformed s t)
    (key : Bytes) : Reformed (s.insert hashing key) (t.insert hashing key) := by
  have ticked := reformed.tally (wrappingAdd s.updates 1)
  obtain ⟨_⟩ := reformed
  exact insertHash_reformed ticked _

/-- A merge fails for both or ends in two forms of one sketch. -/
theorem mergeFrom_reformed (hashing : Hashing) {s t : HyperLogLog} (reformed : Reformed s t)
    (other : HyperLogLog) :
    (∃ e, s.mergeFrom hashing other = .error e ∧ t.mergeFrom hashing other = .error e) ∨
      ∃ s' t', s.mergeFrom hashing other = .ok s' ∧ t.mergeFrom hashing other = .ok t' ∧
        Reformed s' t' := by
  have same : t.updates = s.updates ∧ t.compatibility hashing = s.compatibility hashing := by
    obtain ⟨_⟩ := reformed
    exact ⟨rfl, rfl⟩
  unfold mergeFrom
  rw [same.1, same.2]
  cases (s.compatibility hashing).ensureMatches (other.compatibility hashing) with
  | error e => exact .inl ⟨e, rfl, rfl⟩
  | ok passed => exact .inr ⟨_, _, rfl, rfl, (mergeStorage_reformed reformed other).tally _⟩

/-! ## What a sketch shows -/

/-- The floating point of the estimate: a count, and the estimator of the registers. -/
structure Estimator (E : Type) where
  ofCount : Nat → E
  ofRegisters : Nat → List Nat → E

def cardinality {E : Type} (estimator : Estimator E) (s : HyperLogLog) : E :=
  match s.storage with
  | .empty => estimator.ofCount 0
  | .singleton _ => estimator.ofCount 1
  | .sparse hashes => estimator.ofCount hashes.length
  | .dense registers => estimator.ofRegisters s.precision registers

theorem cardinality_held {E : Type} (estimator : Estimator E) (s : HyperLogLog) :
    s.cardinality estimator = s.storage.held.elim (fun hashes => estimator.ofCount hashes.length)
      (estimator.ofRegisters s.precision) := by
  obtain ⟨precision, spec, storage, updates⟩ := s
  cases storage <;> rfl

theorem cardinality_reformed {E : Type} (estimator : Estimator E) {s t : HyperLogLog}
    (reformed : Reformed s t) : t.cardinality estimator = s.cardinality estimator := by
  obtain ⟨held⟩ := reformed
  rw [cardinality_held, cardinality_held, held]

theorem payload_held (s : HyperLogLog) :
    s.payload = leBytes 8 s.updates ++ s.storage.held.elim
      (fun hashes => leBytes 1 storageSparse ++ leBytes 4 hashes.length ++
        hashes.flatMap (fun hash => leBytes 8 hash.toNat))
      (fun registers => leBytes 1 storageDense ++ registers.map UInt8.ofNat) := by
  obtain ⟨precision, spec, storage, updates⟩ := s
  cases storage with
  | singleton hash => simp [payload, RegisterStorage.held, RegisterStorage.hashes]
  | empty => rfl
  | sparse hashes => rfl
  | dense registers => rfl

theorem payload_reformed {s t : HyperLogLog} (reformed : Reformed s t) : t.payload = s.payload := by
  obtain ⟨held⟩ := reformed
  rw [payload_held, payload_held, held]

end HyperLogLog

end FlowSketch.Source
