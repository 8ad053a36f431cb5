import FlowSketch.Lib.Spread
import FlowSketch.Source.Kll.Depth

/-!
# Quantile selection

`quantile` turns its argument into an integer target and adds up the weights of the sorted items until
they reach it. That finds the item of this rank in the sorted multiset in which an item of level `l`
stands `2^l` times: neither the order inside the levels nor the order of equal values shows.
-/

namespace FlowSketch.Source.KllSketch
open Lib Lib.Octets Lib.Word64 Lib.Lists Lib.Spread Source.Core

/-! ## The integer step -/

/-- The `f64` step of `quantile`. -/
def target (s : KllSketch) (q : Float) : Nat :=
  let q := if q < 0.0 then 0.0 else if q > 1.0 then 1.0 else q
  let sorted := s.weighted.mergeSort (fun left right => left.1 ≤ right.1)
  let total := sorted.foldl (fun total item => wrappingAdd total item.2) 0
  (max (Float.ceil (q * Float.ofNat total)) 1.0).toUInt64.toNat

/-- The rest of `quantile`, for a given target. -/
def select (s : KllSketch) (target : Nat) : Option Nat :=
  if s.n = 0 then none
  else itemAt target 0 (s.weighted.mergeSort (fun left right => left.1 ≤ right.1))

theorem quantile_eq_select (s : KllSketch) (q : Float) : s.quantile q = s.select (s.target q) := by
  unfold quantile select
  split
  · rfl
  · rfl

/-! ## The multiset -/

/-- Every item of level `l` repeated `2^l` times. -/
def repeated (levels : List (List Nat)) : List Nat :=
  levels.zipIdx.flatMap (fun entry => entry.1.flatMap (fun item => List.replicate (2 ^ entry.2) item))

/-- The multiset in order. -/
def multiset (s : KllSketch) : List Nat := (repeated s.levels).mergeSort (· ≤ ·)

theorem multiset_pairwise (s : KllSketch) : s.multiset.Pairwise (· ≤ ·) :=
  Ranking.sort_pairwise (fun _ _ => decide_eq_true_iff) _

theorem mem_repeated {levels : List (List Nat)} {item : Nat} :
    item ∈ repeated levels ↔ ∃ items ∈ levels, item ∈ items := by
  unfold repeated
  simp only [List.mem_flatMap, List.mem_replicate]
  constructor
  · rintro ⟨⟨items, level⟩, member, _, inside, _, rfl⟩
    exact ⟨items, List.fst_mem_of_mem_zipIdx member, inside⟩
  · rintro ⟨items, member, inside⟩
    obtain ⟨level, bound, rfl⟩ := List.getElem_of_mem member
    refine ⟨(levels[level], level), ?_, item, inside, by positivity, rfl⟩
    exact List.mk_mem_zipIdx_iff_getElem?.mpr (List.getElem?_eq_getElem bound)

theorem spread_weighted {s : KllSketch} (light : retained s.levels < modulus) :
    spread s.weighted = repeated s.levels := by
  unfold spread weighted repeated
  rw [List.flatMap_assoc]
  apply List.flatMap_congr
  rintro ⟨items, level⟩ member
  rw [List.flatMap_map]
  cases items with
  | nil => rfl
  | cons item rest =>
    -- A level with an item on it is shifted by less than a word.
    have heavy := pow_le_retained (List.mk_mem_zipIdx_iff_getElem?.mp member) (List.cons_ne_nil _ _)
    have shift : level < 64 := by
      by_contra deep
      have grows : 2 ^ 64 ≤ 2 ^ level := Nat.pow_le_pow_right (by decide) (by omega)
      rw [modulus] at light
      omega
    rw [Nat.mod_eq_of_lt shift]

theorem repeated_length (levels : List (List Nat)) (start : Nat) :
    ((levels.zipIdx start).flatMap (fun entry => entry.1.flatMap (fun item =>
      List.replicate (2 ^ entry.2) item))).length = 2 ^ start * retained levels := by
  induction levels generalizing start with
  | nil => rfl
  | cons items rest ih =>
    have own : (items.flatMap (fun item => List.replicate (2 ^ start) item)).length =
        2 ^ start * items.length := by
      rw [List.length_flatMap]
      simp [Nat.mul_comm]
    rw [List.zipIdx_cons, List.flatMap_cons, List.length_append, ih, own, retained_cons, pow_succ]
    ring

theorem weighted_total {s : KllSketch} (light : retained s.levels < modulus) :
    (s.weighted.map Prod.snd).sum = retained s.levels := by
  have length := repeated_length s.levels 0
  rw [pow_zero, Nat.one_mul] at length
  rw [← spread_length, spread_weighted light]
  exact length

theorem weighted_positive (s : KllSketch) : ∀ entry ∈ s.weighted, 0 < entry.2 := by
  intro entry member
  obtain ⟨_, _, inner⟩ := List.mem_flatMap.mp member
  obtain ⟨item, _, rfl⟩ := List.mem_map.mp inner
  exact Nat.two_pow_pos _

/-! ## The scan -/

theorem itemAt_cons (target acc item weight : Nat) (rest : List (Nat × Nat)) :
    itemAt target acc ((item, weight) :: rest) =
      if wrappingAdd acc weight ≥ target ∨ rest = [] then some item
      else itemAt target (wrappingAdd acc weight) rest := by
  cases rest with
  | nil => simp [itemAt]
  | cons next rest => simp [itemAt]

/-- The scan finds the item of the rank that is left. -/
theorem itemAt_eq_ranked {sorted : List (Nat × Nat)} (nonempty : sorted ≠ [])
    (positive : ∀ entry ∈ sorted, 0 < entry.2) (target : Nat) {acc : Nat}
    (fits : acc + (sorted.map Prod.snd).sum < modulus) :
    itemAt target acc sorted = ranked (spread sorted) (target - acc) := by
  induction sorted generalizing acc with
  | nil => exact absurd rfl nonempty
  | cons entry rest ih =>
    obtain ⟨item, weight⟩ := entry
    have heavy : 0 < weight := positive (item, weight) List.mem_cons_self
    have above := fun entry member => positive entry (List.mem_cons_of_mem _ member)
    have fits : acc + (weight + (rest.map Prod.snd).sum) < modulus := fits
    have empty : spread rest = [] ↔ rest = [] := spread_eq_nil above
    rw [itemAt_cons, wrappingAdd_of_lt (by omega), ranked_spread_cons heavy]
    by_cases last : acc + weight ≥ target ∨ rest = []
    · rw [if_pos last, if_pos (last.imp (by simp only; omega) empty.mpr)]
    · rw [if_neg last, if_neg (fun here => last (here.imp (by simp only; omega) empty.mp)),
        Nat.sub_sub]
      exact ih (fun nil => last (.inr nil)) above (by omega)

theorem sort_repeated {levels : List (List Nat)} {items : List Nat} (sorted : items.Pairwise (· ≤ ·))
    (same : items.Perm (repeated levels)) : items = (repeated levels).mergeSort (· ≤ ·) := by
  refine List.Perm.eq_of_pairwise (fun _ _ _ _ => le_antisymm) sorted ?_
    (same.trans (List.mergeSort_perm _ _).symm)
  exact Ranking.sort_pairwise (fun _ _ => decide_eq_true_iff) _

/-- However the items are sorted by value, the scan selects from the multiset. -/
theorem itemAt_sorted {s : KllSketch} (light : retained s.levels < modulus)
    (held : ∃ items ∈ s.levels, items ≠ []) {sorted : List (Nat × Nat)}
    (order : sorted.Pairwise (fun a b => a.1 ≤ b.1)) (same : sorted.Perm s.weighted) (target : Nat) :
    itemAt target 0 sorted = ranked s.multiset target := by
  have spreads := spread_perm same
  rw [spread_weighted light] at spreads
  have nonempty : sorted ≠ [] := by
    rintro rfl
    obtain ⟨items, member, some_item⟩ := held
    obtain ⟨item, inside⟩ := List.exists_mem_of_ne_nil items some_item
    have repeats := mem_repeated.mpr ⟨items, member, inside⟩
    cases spreads.symm.mem_iff.mp repeats
  have positive : ∀ entry ∈ sorted, 0 < entry.2 :=
    fun entry member => weighted_positive s entry (same.mem_iff.mp member)
  have total : (sorted.map Prod.snd).sum = retained s.levels := by
    rw [(same.map Prod.snd).sum_eq, weighted_total light]
  rw [itemAt_eq_ranked nonempty positive target (by omega), Nat.sub_zero,
    sort_repeated (spread_pairwise order) spreads]
  rfl

/-! ## Order inside the levels -/

theorem weigh_perm (p : Nat → Bool) {levels levels' : List (List Nat)}
    (same : List.Forall₂ List.Perm levels levels') : weigh p levels = weigh p levels' := by
  induction same with
  | nil => rfl
  | cons first _ ih => rw [weigh, weigh, first.countP_eq, ih]

theorem repeated_perm {levels levels' : List (List Nat)}
    (same : List.Forall₂ List.Perm levels levels') : (repeated levels).Perm (repeated levels') := by
  unfold repeated
  generalize 0 = start
  induction same generalizing start with
  | nil => exact List.Perm.refl _
  | cons first _ ih =>
    rw [List.zipIdx_cons, List.zipIdx_cons, List.flatMap_cons, List.flatMap_cons]
    exact (first.flatMap_right _).append (ih (start + 1))

theorem multiset_perm {s t : KllSketch} (same : List.Forall₂ List.Perm s.levels t.levels) :
    s.multiset = t.multiset := by
  exact sort_repeated s.multiset_pairwise ((List.mergeSort_perm _ _).trans (repeated_perm same))

/-! ## Reachable sketches -/

/-- The sketches that the operations build, with the values inserted since the last reset. -/
inductive Fed (hashing : Hashing) : KllSketch → List Nat → Prop
  | new {k : Nat} {hash : HashSpec} {s : KllSketch} (created : KllSketch.new k hash = .ok s) :
      Fed hashing s []
  | insert {s : KllSketch} {values : List Nat} (before : Fed hashing s values) {value : Nat}
      (word : value < modulus) : Fed hashing (s.insert value) (values ++ [value])
  | merge {s other t : KllSketch} {values values' : List Nat} (before : Fed hashing s values)
      (argument : Fed hashing other values') (merged : s.mergeFrom hashing other = .ok t) :
      Fed hashing t (values ++ values')
  | reset {s : KllSketch} {values : List Nat} (before : Fed hashing s values) :
      Fed hashing s.reset []

/-- Some item is retained. -/
def Holding (s : KllSketch) : Prop := ∃ items ∈ s.levels, items ≠ []

/-- A compaction takes more than eight items and promotes about half of them. -/
theorem compactLevel_holding {s : KllSketch} {level : Nat} (inside : level < s.levels.length)
    (overfull : s.capacity level < (s.levels.getD level []).length) :
    Holding (s.compactLevel level) := by
  obtain ⟨promoted, rngState, result, _, least, _⟩ := compactLevel_spec s level
  have many := capacity_ge s level
  have some_promoted : promoted ≠ [] := List.ne_nil_of_length_pos (by omega)
  have room : level + 1 < (promote (if level + 1 = s.levels.length then s.levels ++ [[]]
      else s.levels) level promoted).length := by
    rw [promote_length]
    split
    · rw [List.length_append, List.length_singleton]
      omega
    · omega
  rw [result]
  refine ⟨_, List.getElem_mem room, fun none => some_promoted ?_⟩
  simp only [promote] at none
  rw [List.getElem_modify, if_pos rfl] at none
  exact (List.append_eq_nil_iff.mp none).2

theorem Holding.compress {s : KllSketch} (holding : Holding s) : Holding s.compress :=
  compressFrom_induct (fun _ inside overfull => compactLevel_holding inside overfull) _ _ holding

theorem compress_kept {P : Nat → Prop} {s : KllSketch}
    (all : ∀ items ∈ s.levels, ∀ item ∈ items, P item) :
    ∀ items ∈ s.compress.levels, ∀ item ∈ items, P item :=
  (pass_of_compress s rfl).items all

theorem retained_pos_iff {levels : List (List Nat)} :
    0 < retained levels ↔ ∃ items ∈ levels, items ≠ [] := by
  constructor
  · intro heavy
    by_contra none
    push Not at none
    induction levels with
    | nil => exact absurd heavy (by decide)
    | cons first rest ih =>
      rw [retained_cons, none first List.mem_cons_self, List.length_nil] at heavy
      exact ih (by omega) fun items member => none items (List.mem_cons_of_mem _ member)
  · rintro ⟨items, member, some_item⟩
    obtain ⟨level, bound, rfl⟩ := List.getElem_of_mem member
    have heavy := pow_le_retained (List.getElem?_eq_getElem bound) some_item
    exact (Nat.two_pow_pos level).trans_le heavy

theorem join_holding {left right : List (List Nat)}
    (held : (∃ items ∈ left, items ≠ []) ∨ ∃ items ∈ right, items ≠ []) :
    ∃ items ∈ joinLevels left right, items ≠ [] := by
  rw [← retained_pos_iff, ← retained_pos_iff] at held
  rw [← retained_pos_iff, retained, weigh_join, ← retained, ← retained]
  omega

/-- What the operations keep: `n` counts the values, every item is one of them, and with a value some
item is left. -/
structure Fed.Kept (s : KllSketch) (values : List Nat) : Prop extends Shape s where
  count : s.n = values.length % modulus
  inserted : ∀ items ∈ s.levels, ∀ item ∈ items, item ∈ values
  holding : values ≠ [] → Holding s

theorem Fed.kept {hashing : Hashing} {s : KllSketch} {values : List Nat} (fed : Fed hashing s values) :
    Fed.Kept s values := by
  induction fed with
  | new created =>
    refine ⟨Shape.new created, ?_, ?_, fun some => absurd rfl some⟩ <;>
      unfold KllSketch.new at created <;> split at created <;> cases created
    · rfl
    · simp
  | @insert s values _ value word kept =>
    obtain ⟨first, rest, split⟩ := List.exists_cons_of_length_pos kept.some_level
    refine ⟨kept.toShape.insert word, ?_, compress_kept ?_, fun _ => Holding.compress ?_⟩
    · rw [List.length_append, List.length_singleton, ← Nat.mod_add_mod, ← kept.count]
      exact (compress_setup _).n
    · refine forall_modify (fun items member item inside => ?_) 0 fun items held item member => ?_
      · exact List.mem_append_left _ (kept.inserted items member item inside)
      · rcases List.mem_append.mp member with old | new
        · exact held item old
        · exact List.mem_append_right _ new
    · refine ⟨first ++ [value], ?_, by simp⟩
      simp only [split]
      exact List.mem_cons_self
  | @merge s other t values values' _ _ merged kept kept' =>
    have shape := kept.toShape.merge kept'.toShape merged
    obtain ⟨_, _, result⟩ := bind_ok merged
    cases result
    refine ⟨shape, ?_, compress_kept ?_, fun some => Holding.compress ?_⟩
    · rw [List.length_append, Nat.add_mod, ← kept.count, ← kept'.count]
      exact (compress_setup _).n
    · refine forall_join (fun a b mine theirs item member => ?_)
        (fun items member item inside =>
          List.mem_append_left _ (kept.inserted items member item inside))
        (fun items member item inside =>
          List.mem_append_right _ (kept'.inserted items member item inside))
      rcases List.mem_append.mp member with old | new
      · exact mine item old
      · exact theirs item new
    · refine join_holding ?_
      by_cases empty : values = []
      · exact .inr (kept'.holding fun empty' => some (by rw [empty, empty', List.append_nil]))
      · exact .inl (kept.holding empty)
  | reset _ kept =>
    exact ⟨⟨kept.k, Nat.one_pos, by simp [KllSketch.reset], modulus_pos, modulus_pos⟩, rfl,
      by simp [KllSketch.reset], fun some => absurd rfl some⟩

/-- A sketch that counts values holds one. -/
theorem Fed.holding {hashing : Hashing} {s : KllSketch} {values : List Nat}
    (fed : Fed hashing s values) (counts : s.n ≠ 0) : Holding s := by
  refine fed.kept.holding ?_
  rintro rfl
  exact counts fed.kept.count

theorem Fed.mem_multiset {hashing : Hashing} {s : KllSketch} {values : List Nat}
    (fed : Fed hashing s values) {item : Nat} (member : item ∈ s.multiset) : item ∈ values := by
  obtain ⟨items, level, inside⟩ := mem_repeated.mp (List.mem_mergeSort.mp member)
  exact fed.kept.inserted items level item inside

theorem Fed.select_eq {hashing : Hashing} {s : KllSketch} {values : List Nat}
    (fed : Fed hashing s values) (counts : s.n ≠ 0) (light : retained s.levels < modulus)
    (target : Nat) : s.select target = ranked s.multiset target := by
  rw [select, if_neg counts]
  refine itemAt_sorted light (fed.holding counts) ?_ (List.mergeSort_perm _ _) target
  exact Ranking.sort_pairwise (fun _ _ => decide_eq_true_iff) _

theorem Fed.select_mem {hashing : Hashing} {s : KllSketch} {values : List Nat}
    (fed : Fed hashing s values) (counts : s.n ≠ 0) (light : retained s.levels < modulus)
    (target : Nat) : ∃ value ∈ values, s.select target = some value := by
  obtain ⟨items, member, some_item⟩ := fed.holding counts
  obtain ⟨item, inside⟩ := List.exists_mem_of_ne_nil items some_item
  have nonempty : s.multiset ≠ [] :=
    List.ne_nil_of_mem (List.mem_mergeSort.mpr (mem_repeated.mpr ⟨items, member, inside⟩))
  obtain ⟨value, belongs, selected⟩ := ranked_mem nonempty target
  exact ⟨value, fed.mem_multiset belongs, (fed.select_eq counts light target).trans selected⟩

end FlowSketch.Source.KllSketch
