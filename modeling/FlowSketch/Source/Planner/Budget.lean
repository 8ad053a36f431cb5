import FlowSketch.Source.Planner

/-!
# The memory budget

The planner's estimate is the exact one modulo `2 ^ 64`. So an accepted plan fits its budget exactly when
the exact estimate fits a word, and the grouped distinct count, which sizes itself to the budget, keeps
as many keys as the budget holds.
-/

namespace FlowSketch.Source
open Lib.Word64 Source.Core

/-- The memory formula over the natural numbers. -/
def PhysicalSketch.exactMemoryBytes (sketch : PhysicalSketch) (keyBytes : Nat) : Nat :=
  sketch.memoryBytes (· + ·) (· * ·) keyBytes

namespace PhysicalSketch

mutual

/-- In words the formula gives the exact value modulo `2 ^ 64`. -/
theorem memoryBytes_mod (keyBytes : Nat) : ∀ sketch : PhysicalSketch,
    sketch.memoryBytes wrappingAdd wrappingMul keyBytes % modulus =
      sketch.memoryBytes (· + ·) (· * ·) keyBytes % modulus
  | .countMin width depth _ => by
    simp only [memoryBytes, wrappingAdd, wrappingMul, Nat.mod_add_mod, Nat.mod_mul_mod, Nat.mod_mod]
  | .countSketch width depth => by
    simp only [memoryBytes, wrappingAdd, wrappingMul, Nat.mod_add_mod, Nat.mod_mul_mod, Nat.mod_mod]
  | .spaceSaving capacity => by
    simp only [memoryBytes, wrappingAdd, wrappingMul, Nat.mod_add_mod, Nat.mul_mod_mod, Nat.mod_mod]
  | .misraGries capacity => by
    simp only [memoryBytes, wrappingAdd, wrappingMul, Nat.mod_add_mod, Nat.mul_mod_mod, Nat.mod_mod]
  | .hyperLogLog precision => by
    simp only [memoryBytes, wrappingAdd, Nat.mod_mod]
  | .hllMap maxKeys precision => by
    simp only [memoryBytes, wrappingAdd, wrappingMul, Nat.mod_add_mod, Nat.add_mod_mod,
      Nat.mul_mod_mod, Nat.mod_mod]
  | .kll k => by
    simp only [memoryBytes, wrappingAdd, wrappingMul, Nat.mod_add_mod, Nat.mod_mul_mod, Nat.mod_mod]
  | .composite stages => by
    rw [memoryBytes, memoryBytes]
    exact stagesMemoryBytes_mod keyBytes stages

theorem stagesMemoryBytes_mod (keyBytes : Nat) : ∀ stages : List PhysicalSketch,
    stagesMemoryBytes wrappingAdd wrappingMul keyBytes stages % modulus =
      stagesMemoryBytes (· + ·) (· * ·) keyBytes stages % modulus
  | [] => rfl
  | stage :: rest => by
    rw [stagesMemoryBytes, stagesMemoryBytes, wrappingAdd, Nat.mod_mod, Nat.add_mod,
      memoryBytes_mod keyBytes stage, stagesMemoryBytes_mod keyBytes rest, ← Nat.add_mod]

end

theorem stagesMemoryBytes_word (keyBytes : Nat) (stages : List PhysicalSketch) :
    stagesMemoryBytes wrappingAdd wrappingMul keyBytes stages < modulus := by
  cases stages with
  | nil => exact modulus_pos
  | cons stage rest => exact wrappingAdd_lt _ _

theorem estimatedMemoryBytes_word (sketch : PhysicalSketch) (keyBytes : Nat) :
    sketch.estimatedMemoryBytes keyBytes < modulus := by
  rw [estimatedMemoryBytes]
  cases sketch with
  | composite stages => exact stagesMemoryBytes_word keyBytes stages
  | _ => exact wrappingAdd_lt _ _

theorem estimatedMemoryBytes_eq_mod (sketch : PhysicalSketch) (keyBytes : Nat) :
    sketch.estimatedMemoryBytes keyBytes = sketch.exactMemoryBytes keyBytes % modulus := by
  rw [← Nat.mod_eq_of_lt (estimatedMemoryBytes_word sketch keyBytes)]
  exact memoryBytes_mod keyBytes sketch

section

variable {keyBytes exact : Nat}

mutual

/-- A key length that does not fit a word is in no estimate that does. -/
theorem memoryBytes_of_keyBytes (agree : keyBytes = exact ∨ modulus ≤ exact) :
    ∀ sketch : PhysicalSketch, sketch.memoryBytes (· + ·) (· * ·) exact < modulus →
      sketch.memoryBytes (· + ·) (· * ·) keyBytes = sketch.memoryBytes (· + ·) (· * ·) exact
  | .countMin _ _ _, _ => rfl
  | .countSketch _ _, _ => rfl
  | .hyperLogLog _, _ => rfl
  | .kll _, _ => rfl
  | .spaceSaving capacity, fits => by
    simp only [memoryBytes] at fits ⊢
    rcases Nat.eq_zero_or_pos capacity with rfl | some_slot
    · simp
    · have more := Nat.le_mul_of_pos_left (exact + 192) some_slot
      rw [agree.resolve_right (by omega)]
  | .misraGries capacity, fits => by
    simp only [memoryBytes] at fits ⊢
    rcases Nat.eq_zero_or_pos capacity with rfl | some_slot
    · simp
    · have more := Nat.le_mul_of_pos_left (exact + 16 + 48) some_slot
      rw [agree.resolve_right (by omega)]
  | .hllMap maxKeys precision, fits => by
    simp only [memoryBytes] at fits ⊢
    rcases Nat.eq_zero_or_pos maxKeys with rfl | some_slot
    · simp
    · have registers := Nat.two_pow_pos precision
      have more := Nat.le_mul_of_pos_left (2 ^ precision + 2 * exact + 48 + 32) some_slot
      rw [agree.resolve_right (by omega)]
  | .composite stages, fits => stagesMemoryBytes_of_keyBytes agree stages fits

theorem stagesMemoryBytes_of_keyBytes (agree : keyBytes = exact ∨ modulus ≤ exact) :
    ∀ stages : List PhysicalSketch, stagesMemoryBytes (· + ·) (· * ·) exact stages < modulus →
      stagesMemoryBytes (· + ·) (· * ·) keyBytes stages =
        stagesMemoryBytes (· + ·) (· * ·) exact stages
  | [], _ => rfl
  | stage :: rest, fits => by
    rw [stagesMemoryBytes] at fits
    rw [stagesMemoryBytes, stagesMemoryBytes, memoryBytes_of_keyBytes agree stage (by omega),
      stagesMemoryBytes_of_keyBytes agree rest (by omega)]

end

end

end PhysicalSketch

namespace Planner

/-! ## Lengths of stored keys -/

/-- The encodings of the fields and the separators between them. -/
def exactKeyBytes (query : LogicalQuery) : Nat :=
  ((storedFields query).map Field.maxEncodedLen).sum + ((storedFields query).length - 1)

theorem foldl_wrappingAdd (lengths : List Nat) (start : Nat) (word : start < modulus) :
    lengths.foldl wrappingAdd start = (start + lengths.sum) % modulus := by
  induction lengths generalizing start with
  | nil => rw [List.foldl_nil, List.sum_nil, Nat.add_zero, Nat.mod_eq_of_lt word]
  | cons length rest ih =>
    rw [List.foldl_cons, ih _ (wrappingAdd_lt _ _), wrappingAdd, Nat.mod_add_mod, List.sum_cons,
      Nat.add_assoc]

theorem maximumStoredKeyBytes_exact (query : LogicalQuery) :
    maximumStoredKeyBytes query = exactKeyBytes query ∨ modulus ≤ exactKeyBytes query := by
  have sum := foldl_wrappingAdd ((storedFields query).map Field.maxEncodedLen) 0 modulus_pos
  rw [Nat.zero_add] at sum
  rcases Nat.lt_or_ge (exactKeyBytes query) modulus with fits | large
  · left
    rw [exactKeyBytes] at fits ⊢
    rw [maximumStoredKeyBytes, sum, Nat.mod_eq_of_lt (by omega), saturatingAdd]
    omega
  · exact .inr large

/-! ## The decision table -/

section

variable {floats : FloatSteps} {query : Request} {choice : Choice}

/-- Every measure gets a sketch that serves it. -/
theorem choose_serves (chosen : choose floats query = .ok choice) :
    choice.sketch.Serves query.measure := by
  unfold choose at chosen
  split at chosen
  next measure =>
    unfold chooseCounter at chosen
    split at chosen
    · cases chosen
    · cases chosen
      rw [measure]
      exact .count _ _ _
  next measure =>
    unfold chooseCounter at chosen
    split at chosen
    · cases chosen
    · cases chosen
      rw [measure]
      exact .sum _ _ _ _
  next measure =>
    cases chosen
    rw [measure]
    exact .heavyHitters _ _ _
  next measure =>
    unfold chooseDistinct at chosen
    dsimp only at chosen
    split at chosen
    · cases chosen
      rw [measure]
      exact .distinctGlobal _ _
    · split at chosen
      · cases chosen
      · cases chosen
        rw [measure]
        exact .distinctPerKey _ _ _
  next measure =>
    unfold chooseEntropy at chosen
    split at chosen
    · cases chosen
    · cases chosen
      rw [measure]
      exact .entropy _ _ _
  next measure =>
    unfold chooseQuantile at chosen
    split at chosen
    · cases chosen
    · split at chosen
      · cases chosen
      · cases chosen
        rw [measure]
        exact .quantile _ _ _

/-- What acceptance means: the choice, and an estimate in words within the budget. -/
theorem plan_ok {accepted : PhysicalPlan} (planned : plan floats query = .ok accepted) :
    ∃ choice, choose floats query = .ok choice ∧ accepted.sketch = choice.sketch ∧
      accepted.windowBuckets = query.window.bucketCount ∧
      accepted.pendingWindowCapacity = query.window.bucketCount ∧
      accepted.estimatedStateMemoryBytes =
        choice.sketch.estimatedMemoryBytes (maximumStoredKeyBytes query.toLogicalQuery) ∧
      accepted.estimatedMemoryBytes =
        wrappingMul accepted.estimatedStateMemoryBytes (residentSketches query) ∧
      accepted.estimatedMemoryBytes ≤ query.maxMemoryBytes := by
  unfold plan at planned
  dsimp only at planned
  split at planned
  · cases planned
  · split at planned
    · cases planned
    next choice chosen =>
      split at planned
      · cases planned
      next within =>
        cases planned
        exact ⟨choice, chosen, rfl, rfl, rfl, rfl, rfl, Nat.le_of_not_lt within⟩

/-- A choice within the budget is accepted. -/
theorem plan_of_choice (sound : ¬(¬query.groupBy.isEmpty ∧ query.alert.lt.isSome))
    (chosen : choose floats query = .ok choice)
    (within : wrappingMul (choice.sketch.estimatedMemoryBytes
      (maximumStoredKeyBytes query.toLogicalQuery)) (residentSketches query) ≤ query.maxMemoryBytes) :
    ∃ accepted, plan floats query = .ok accepted ∧ accepted.sketch = choice.sketch := by
  unfold plan
  rw [if_neg sound, chosen]
  dsimp only
  rw [if_neg (Nat.not_lt.mpr within)]
  exact ⟨_, rfl, rfl⟩

/-- An accepted plan is one the runtime can run. -/
def PhysicalPlan.toPlan {accepted : PhysicalPlan} (planned : plan floats query = .ok accepted) : Plan where
  query := query.toLogicalQuery
  sketch := accepted.sketch
  windowBuckets := accepted.windowBuckets
  pendingWindowCapacity := accepted.pendingWindowCapacity
  exportSeriesUpperBound := accepted.exportSeriesUpperBound
  slide_pos := query.slide_pos
  slide_word := query.slide_word
  size_word := query.size_word
  buckets_eq := by
    obtain ⟨_, _, _, buckets, _⟩ := plan_ok planned
    exact buckets
  pending_eq := by
    obtain ⟨_, _, _, buckets, pending, _⟩ := plan_ok planned
    rw [pending, buckets]
  serves := by
    obtain ⟨_, chosen, sketch, _⟩ := plan_ok planned
    rw [sketch]
    exact choose_serves chosen

theorem residentSketches_eq_mod (query : Request) :
    residentSketches query = (2 * query.window.bucketCount + 1) % modulus := by
  rw [residentSketches, wrappingAdd, wrappingAdd, Nat.mod_add_mod, Nat.two_mul]

end

/-- What the planner should hold a plan to: the bytes of one state, times the states that can be
resident, without a modulus. -/
def exactEstimate (query : Request) (sketch : PhysicalSketch) : Nat :=
  sketch.exactMemoryBytes (exactKeyBytes query.toLogicalQuery) * (2 * query.window.bucketCount + 1)

/-- The steps of the code, with the texts Lean gives floats. -/
def shownFloats : FloatSteps := .f64 toString (fun _ => toString)

section

variable {floats : FloatSteps} {query : Request}

/-- The budget holds the keys the division leaves, and not one more. -/
theorem keys_le_budgeted_iff {budget resident perKey keys : Nat} (some_resident : 0 < resident)
    (some_byte : 0 < perKey) (some_key : 0 < keys) :
    keys ≤ (budget / resident - 64) / perKey ↔ (keys * perKey + 64) * resident ≤ budget := by
  have weight := Nat.mul_pos some_key some_byte
  rw [Nat.le_div_iff_mul_le some_byte, ← Nat.le_div_iff_mul_le some_resident]
  omega

theorem preferredMaxKeys_pos : 0 < preferredMaxKeys query := by
  rw [preferredMaxKeys, clamp]
  omega

theorem keyBytes_exact {precision : Nat}
    (fits : 2 ^ precision + 2 * exactKeyBytes query.toLogicalQuery + 48 + 32 < modulus) :
    maximumStoredKeyBytes query.toLogicalQuery = exactKeyBytes query.toLogicalQuery := by
  have registers := Nat.two_pow_pos precision
  exact (maximumStoredKeyBytes_exact query.toLogicalQuery).resolve_right (by omega)

/-- Without a wrap the planner sizes and estimates by one formula. -/
theorem perKeyBytes_exact {precision : Nat}
    (fits : 2 ^ precision + 2 * exactKeyBytes query.toLogicalQuery + 48 + 32 < modulus) :
    perKeyBytes query precision =
      2 ^ precision + 2 * exactKeyBytes query.toLogicalQuery + 48 + 32 := by
  simp only [perKeyBytes, keyBytes_exact fits, wrappingMul, wrappingAdd, Nat.add_mod_mod,
    Nat.mod_add_mod]
  exact Nat.mod_eq_of_lt fits

/-- Keys fit the budget exactly when the sizing formula allows them. -/
theorem exactEstimate_hllMap_iff {precision keys : Nat} (some_key : 0 < keys)
    (resident : 2 * query.window.bucketCount + 1 < modulus)
    (fits : 2 ^ precision + 2 * exactKeyBytes query.toLogicalQuery + 48 + 32 < modulus) :
    exactEstimate query (.hllMap keys precision) ≤ query.maxMemoryBytes ↔
      keys ≤ budgetedMaxKeys query precision := by
  have registers := Nat.two_pow_pos precision
  rw [budgetedMaxKeys, perKeyBytes_exact fits, residentSketches_eq_mod, Nat.mod_eq_of_lt resident,
    keys_le_budgeted_iff (by omega) (by omega) some_key]
  rfl

theorem choose_distinct {field : Field} (measure : query.measure = .distinctCount field)
    (grouped : ¬query.groupBy.isEmpty)
    (passes : minimumMaxKeys query ≤
      budgetedMaxKeys query (hllPrecisionForError floats query.error.epsilon)) :
    ∃ choice, choose floats query = .ok choice ∧
      choice.sketch = .hllMap (min (preferredMaxKeys query)
        (budgetedMaxKeys query (hllPrecisionForError floats query.error.epsilon)))
        (hllPrecisionForError floats query.error.epsilon) := by
  simp only [choose, measure]
  unfold chooseDistinct
  dsimp only
  rw [if_neg grouped, if_neg (Nat.not_lt.mpr passes)]
  exact ⟨_, rfl, rfl⟩

end

/-- A grouped distinct count that passes the minimum test is planned with the most keys that the budget
and the preferred number allow; only an alert below a threshold is refused, before any sizing. -/
theorem distinct_sized_to_budget {floats : FloatSteps} {query : Request} {field : Field}
    (measure : query.measure = .distinctCount field) (grouped : query.groupBy ≠ [])
    (series : 1 ≤ query.maxSeries) (resident : 2 * query.window.bucketCount + 1 < 2 ^ 64)
    (fits : 2 ^ hllPrecisionForError floats query.error.epsilon +
      2 * exactKeyBytes query.toLogicalQuery + 48 + 32 < 2 ^ 64)
    (passes : minimumMaxKeys query ≤
      budgetedMaxKeys query (hllPrecisionForError floats query.error.epsilon)) :
    (query.alert.lt = none → ∃ accepted maxKeys, plan floats query = .ok accepted ∧
      accepted.sketch = .hllMap maxKeys (hllPrecisionForError floats query.error.epsilon) ∧
      min query.maxSeries (preferredMaxKeys query) ≤ maxKeys ∧ maxKeys ≤ preferredMaxKeys query ∧
      exactEstimate query accepted.sketch ≤ query.maxMemoryBytes ∧
      ∀ keys, min query.maxSeries (preferredMaxKeys query) ≤ keys → keys ≤ preferredMaxKeys query →
        exactEstimate query (.hllMap keys (hllPrecisionForError floats query.error.epsilon)) ≤
          query.maxMemoryBytes → keys ≤ maxKeys) ∧
    (query.alert.lt.isSome → plan floats query = .error (query.reject unsoundAlert)) := by
  have someGroup : ¬query.groupBy.isEmpty := by rwa [List.isEmpty_iff]
  refine ⟨fun quiet => ?_, fun alerts => ?_⟩
  · obtain ⟨choice, chosen, sketch⟩ := choose_distinct measure someGroup passes
    generalize hllPrecisionForError floats query.error.epsilon = precision at fits passes sketch ⊢
    have someKey : 0 < min (preferredMaxKeys query) (budgetedMaxKeys query precision) := by
      have preferred := @preferredMaxKeys_pos query
      rw [minimumMaxKeys] at passes
      omega
    have within : exactEstimate query choice.sketch ≤ query.maxMemoryBytes := by
      rw [sketch]
      exact (exactEstimate_hllMap_iff someKey resident fits).mpr (Nat.min_le_right _ _)
    have estimate : wrappingMul (choice.sketch.estimatedMemoryBytes
        (maximumStoredKeyBytes query.toLogicalQuery)) (residentSketches query) ≤
        query.maxMemoryBytes := by
      rw [keyBytes_exact fits, PhysicalSketch.estimatedMemoryBytes_eq_mod, residentSketches_eq_mod,
        wrappingMul, ← Nat.mul_mod]
      exact (Nat.mod_le _ _).trans within
    have sound : ¬(¬query.groupBy.isEmpty ∧ query.alert.lt.isSome) := by
      rw [quiet]
      exact fun unsound => Bool.false_ne_true unsound.2
    obtain ⟨accepted, planned, same⟩ := plan_of_choice sound chosen estimate
    refine ⟨accepted, _, planned, same.trans sketch, ?_, Nat.min_le_left _ _, same ▸ within,
      fun keys least most affordable => ?_⟩
    · rw [minimumMaxKeys] at passes
      omega
    · have preferred := @preferredMaxKeys_pos query
      have budgeted := (exactEstimate_hllMap_iff (by omega) resident fits).mp affordable
      exact Nat.le_min.mpr ⟨most, budgeted⟩
  · unfold plan
    exact if_pos ⟨someGroup, alerts⟩

/-- Distinct sources per port over one bucket of ten nanoseconds, in one MiB. -/
def sourcesPerPort : Request where
  name := "sources"
  filter := Predicate.all
  groupBy := [.dstPort]
  measure := .distinctCount .srcIp
  window := { sizeNanos := 10, slideNanos := 10 }
  alert := { gt := none, lt := none }
  maxSeries := 4
  error := { epsilon := 0.02, delta := 0.01 }
  maxMemoryBytes := 2 ^ 20
  slide_pos := by decide
  slide_word := by decide
  size_word := by decide
  memory_word := by decide

/-- Steps that ask for twelve register bits, as `0.02` does. -/
def twelveBits : FloatSteps := { shownFloats with registerBits := fun _ => 12 }

theorem sourcesPerPort_sized : ∃ accepted maxKeys, plan twelveBits sourcesPerPort = .ok accepted ∧
    accepted.sketch = .hllMap maxKeys 12 ∧ 4 ≤ maxKeys ∧ maxKeys ≤ 1024 := by
  obtain ⟨accepted, maxKeys, planned, sketch, least, most, -⟩ :=
    (@distinct_sized_to_budget twelveBits sourcesPerPort .srcIp rfl (by decide) (by decide) (by decide)
      (by decide) (by decide)).1 rfl
  exact ⟨accepted, maxKeys, planned, sketch, least, most⟩

end Planner

end FlowSketch.Source
