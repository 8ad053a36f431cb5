import FlowSketch.Source.Kll.Selection
import FlowSketch.Source.Runtime.Estimates

/-!
# Quantile rows

A quantile row asks the sketch three times, for `q - err`, `q` and `q + err`. Each answer is the item of
its rank in the sketch's multiset, so the bounds enclose the estimate as soon as the `f64` step keeps the
order of the three arguments.
-/

namespace FlowSketch.Source.Runtime
open Lib.Octets Lib.Word64 Lib.Spread Source.Core KllSketch

variable {F : Type} [LinearOrder F] {cardinality : Cardinality F} {asFloat : F → Float}
variable {hashing : Hashing} {lossy : Bytes → String}

/-- The three questions of a row. -/
theorem mem_emitEstimates_quantile {plan : Plan} {s : KllSketch} {field : Field} {q : Float}
    (measured : plan.query.measure = .quantile field q) {windowStart windowEnd : Nat}
    {row : SketchEstimate}
    (emitted : row ∈ emitEstimates cardinality asFloat hashing lossy plan (.quantile s) windowStart
      windowEnd) :
    (s.select (s.target q)).map Float.ofNat = some row.estimate ∧
      row.lowerBound = (s.select (s.target (max (q - s.rankError) 0.0))).map Float.ofNat ∧
      row.upperBound = (s.select (s.target (min (q + s.rankError) 1.0))).map Float.ofNat := by
  unfold emitEstimates at emitted
  split at emitted
  · cases emitted
  · simp only [measured, ← quantile_eq_select] at emitted ⊢
    cases selected : s.quantile q with
    | none => simp [selected] at emitted
    | some value =>
      rw [selected] at emitted
      simp only at emitted
      split at emitted
      · rw [List.mem_singleton.mp emitted]
        exact ⟨rfl, rfl, rfl⟩
      · rw [List.mem_singleton.mp (List.mem_of_mem_filter emitted)]
        exact ⟨rfl, rfl, rfl⟩

/-- Selection is exact on the weighted multiset: in every state the operations reach, for every target,
and whatever the order inside the levels and among equal values. So it keeps the order of the targets,
and of the bounds of a row. -/
theorem quantile_selects_rank {s : KllSketch} {values : List Nat} (fed : KllSketch.Fed hashing s values)
    (counts : 0 < s.n) (light : retained s.levels < modulus) :
    (∀ q, s.quantile q = s.select (s.target q) ∧ ∃ value ∈ values, s.quantile q = some value) ∧
    (∀ t, 1 ≤ t → ∃ value ∈ values, s.select t = some value ∧
      (t ≤ s.multiset.length → s.multiset[t - 1]? = some value) ∧
      (s.multiset.length < t → s.multiset.getLast? = some value)) ∧
    (∀ t t' value value', t ≤ t' → s.select t = some value → s.select t' = some value' →
      value ≤ value') ∧
    (∀ levels, List.Forall₂ List.Perm s.levels levels → ∀ sorted : List (Nat × Nat),
      sorted.Perm { s with levels }.weighted → sorted.Pairwise (fun a b => a.1 ≤ b.1) →
        ∀ t, itemAt t 0 sorted = s.select t) ∧
    (∀ (Q : Type) [Preorder Q] (target : Q → Nat), Monotone target → ∀ low q high : Q,
      low ≤ q → q ≤ high → ∃ l ∈ values, ∃ v ∈ values, ∃ u ∈ values,
        s.select (target low) = some l ∧ s.select (target q) = some v ∧
          s.select (target high) = some u ∧ l ≤ v ∧ v ≤ u) ∧
    ∀ (plan : Plan) (field : Field) (q : Float), plan.query.measure = .quantile field q →
      ∀ windowStart windowEnd, ∀ row ∈ emitEstimates cardinality asFloat hashing lossy plan
        (.quantile s) windowStart windowEnd,
        ∃ l ∈ values, ∃ v ∈ values, ∃ u ∈ values,
          row.lowerBound = some (Float.ofNat l) ∧ row.estimate = Float.ofNat v ∧
            row.upperBound = some (Float.ofNat u) ∧
            (s.target (max (q - s.rankError) 0.0) ≤ s.target q → l ≤ v) ∧
            (s.target q ≤ s.target (min (q + s.rankError) 1.0) → v ≤ u) := by
  have some_count : s.n ≠ 0 := by omega
  have found := fed.select_mem some_count light
  have rank := fed.select_eq some_count light
  have mono : ∀ t t' value value', t ≤ t' → s.select t = some value → s.select t' = some value' →
      value ≤ value' := by
    intro t t' value value' below first second
    rw [rank] at first second
    exact ranked_mono s.multiset_pairwise below first second
  refine ⟨fun q => ?_, fun t _ => ?_, mono, fun levels order sorted same pairwise t => ?_,
    fun Q _ target keeps low q high below above => ?_, ?_⟩
  · rw [s.quantile_eq_select]
    exact ⟨rfl, found _⟩
  · obtain ⟨value, member, selected⟩ := found t
    refine ⟨value, member, selected, fun inside => ?_, fun past => ?_⟩
    · rw [← ranked_of_le inside, ← rank, selected]
    · rw [← ranked_of_gt past, ← rank, selected]
  · have reordered : s.multiset = { s with levels }.multiset := multiset_perm order
    have weight : retained s.levels = retained levels := weigh_perm _ order
    rw [rank, reordered]
    refine itemAt_sorted (by rwa [← weight]) ?_ pairwise same t
    rw [← retained_pos_iff, ← weight, retained_pos_iff]
    exact fed.holding some_count
  · obtain ⟨l, memberL, lower⟩ := found (target low)
    obtain ⟨v, memberV, estimate⟩ := found (target q)
    obtain ⟨u, memberU, upper⟩ := found (target high)
    exact ⟨l, memberL, v, memberV, u, memberU, lower, estimate, upper,
      mono _ _ _ _ (keeps below) lower estimate, mono _ _ _ _ (keeps above) estimate upper⟩
  · intro plan field q measured windowStart windowEnd row emitted
    obtain ⟨estimate, lower, upper⟩ := mem_emitEstimates_quantile measured emitted
    obtain ⟨l, memberL, selectedL⟩ := found (s.target (max (q - s.rankError) 0.0))
    obtain ⟨v, memberV, selectedV⟩ := found (s.target q)
    obtain ⟨u, memberU, selectedU⟩ := found (s.target (min (q + s.rankError) 1.0))
    rw [selectedV] at estimate
    rw [selectedL] at lower
    rw [selectedU] at upper
    exact ⟨l, memberL, v, memberV, u, memberU, lower, (Option.some.inj estimate).symm, upper,
      fun below => mono _ _ _ _ below selectedL selectedV,
      fun below => mono _ _ _ _ below selectedV selectedU⟩

def twoItems : KllSketch :=
  { k := 8, hash := HashSpec.new 1, levels := [[5, 3]], n := 2
    rngState := splitmix64 ((HashSpec.new 1).seed ^^^ 0x6B6C6C00), updates := 2 }

theorem twoItems_fed : KllSketch.Fed fsk1 twoItems [5, 3] := by
  have empty : KllSketch.Fed fsk1 { twoItems with levels := [[]], n := 0, updates := 0 } [] :=
    @KllSketch.Fed.new fsk1 8 (HashSpec.new 1) _ rfl
  exact (empty.insert (by decide : 5 < modulus)).insert (by decide : 3 < modulus)

theorem twoItems_selects : ∃ value ∈ [5, 3], twoItems.select 1 = some value ∧
    twoItems.multiset[0]? = some value := by
  obtain ⟨_, rank, _⟩ := @quantile_selects_rank Nat _ ⟨fun _ => 0, 1⟩ Float.ofNat fsk1 (fun _ => "")
    twoItems [5, 3] twoItems_fed (by decide) (by decide)
  obtain ⟨value, member, selected, inside, _⟩ := rank 1 le_rfl
  refine ⟨value, member, selected, inside ?_⟩
  rw [multiset, List.length_mergeSort]
  decide

end FlowSketch.Source.Runtime
