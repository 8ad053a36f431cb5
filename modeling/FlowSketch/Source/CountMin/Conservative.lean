import FlowSketch.Source.CountMin.Cells

/-!
# Conservative updates

A conservative sketch stays between the truth and the plain sketch of the same tree: no counter of a
key falls below the weight of the key, and no counter exceeds that of the plain table. Both survive a
merge, which adds counters.
-/

namespace FlowSketch.Source.CountMinSketch
open Lib Lib.Octets Lib.Word64 Lib.Grid Source.Core

/-- No sum of weights that `update` takes overflows. -/
def UpdateFits (hashing : Hashing) (s : CountMinSketch) (key : Bytes) (value : Nat) : Prop :=
  s.totalWeight + value < modulus ∧
    if s.conservative then s.estimateU64 hashing key + value < modulus
    else ∀ row < s.depth, s.count (s.cell hashing key row) + value < modulus

/-- No sum of weights that `merge_from` takes overflows. -/
def MergeFits (s t : CountMinSketch) : Prop :=
  s.totalWeight + t.totalWeight < modulus ∧ ∀ i < s.table.length, s.count i + t.count i < modulus

def WeightsFit (hashing : Hashing) (width depth : Nat) (conservative : Bool) (hash : HashSpec)
    (tree : UpdateTree Bytes Nat) : Prop :=
  tree.Along (ofTree hashing width depth conservative hash) (UpdateFits hashing) MergeFits

/-- The update counter overflows nowhere in the tree. -/
def UpdatesFit (hashing : Hashing) (width depth : Nat) (conservative : Bool) (hash : HashSpec)
    (tree : UpdateTree Bytes Nat) : Prop :=
  tree.Along (ofTree hashing width depth conservative hash)
    (fun s _ _ => s.updates + 1 < modulus) (fun s t => s.updates + t.updates < modulus)

section

variable {hashing : Hashing} {width depth : Nat} {hash : HashSpec}

theorem updatesFit_iff (positive : 0 < width) (deep : 0 < depth) (conservative : Bool)
    (tree : UpdateTree Bytes Nat) :
    UpdatesFit hashing width depth conservative hash tree ↔ tree.updates < modulus := by
  have total := ofTree_total hashing conservative hash positive deep
  refine UpdateTree.along_count_iff (fun tree => ?_) (fun {tree s} built => ?_) tree
  · obtain ⟨s, built, _⟩ := total tree
    exact ⟨s, built⟩
  · obtain ⟨t, again, _, _, updates⟩ := total tree
    obtain rfl := Except.ok.inj (again.symm.trans built)
    exact updates

/-! ## The sandwich -/

/-- Counters of the conservative and the plain sketch of one tree. -/
structure Sandwich (hashing : Hashing) (width depth : Nat) (hash : HashSpec)
    (tree : UpdateTree Bytes Nat) (narrow plain : CountMinSketch) : Prop where
  conservative : Shaped width depth true hash narrow
  ordinary : Shaped width depth false hash plain
  lower : ∀ key, ∀ i < width * depth, Hits hashing width hash key i → tree.weight key ≤ narrow.count i
  between : ∀ i < width * depth, narrow.count i ≤ plain.count i
  upper : ∀ i < width * depth, plain.count i ≤ tree.total

variable {tree left right : UpdateTree Bytes Nat} {narrow plain narrow' plain' : CountMinSketch}

/-- The estimate is below the weight of the tree: there is at least one row. -/
theorem Sandwich.estimate_le_total (held : Sandwich hashing width depth hash tree narrow plain)
    (positive : 0 < width) (deep : 0 < depth) (key : Bytes) :
    narrow.estimateU64 hashing key ≤ tree.total := by
  have inside := cell_lt (index_lt positive hashing hash key 0) deep
  exact (held.conservative.estimate_le inside (hits_cell positive hashing hash key 0)).trans
    ((held.between _ inside).trans (held.upper _ inside))

theorem Sandwich.update (held : Sandwich hashing width depth hash tree narrow plain)
    (positive : 0 < width) (deep : 0 < depth) {key : Bytes} {value : Nat}
    (fits : tree.total + value < modulus) :
    Sandwich hashing width depth hash (tree.update key value) (narrow.update hashing key value)
      (plain.update hashing key value) := by
  obtain ⟨shapedNarrow, narrowCells⟩ := held.conservative.update hashing positive key value
  obtain ⟨shapedPlain, plainCells⟩ := held.ordinary.update hashing positive key value
  have estimate := held.estimate_le_total positive deep key
  -- A counter of the key, in either table.
  have raisedNarrow : ∀ count, narrow.raised hashing key value count =
      max count (narrow.estimateU64 hashing key + value) := by
    intro count
    unfold raised
    rw [if_pos held.conservative.conservative, wrappingAdd_of_lt (by omega)]
    show (if count < narrow.estimateU64 hashing key + value then _ else _) = _
    split <;> omega
  have raisedPlain : ∀ i < width * depth, plain.raised hashing key value (plain.count i) =
      plain.count i + value := by
    intro i inside
    have upper := held.upper i inside
    unfold raised
    rw [if_neg (by simp [held.ordinary.conservative]), wrappingAdd_of_lt (by omega)]
  refine ⟨shapedNarrow, shapedPlain, fun other i inside hit => ?_, fun i inside => ?_,
    fun i inside => ?_⟩
  · have lower := held.lower other i inside hit
    rw [narrowCells i inside, UpdateTree.weight]
    by_cases same : other = key
    · subst same
      have known : tree.weight other ≤ narrow.estimateU64 hashing other := by
        rw [le_estimate_iff]
        refine ⟨by have := tree.weight_le_total other; omega, fun row below => ?_⟩
        rw [held.conservative.depth] at below
        rw [held.conservative.cell]
        exact held.lower other _ (cell_lt (index_lt positive hashing hash other row) below)
          (hits_cell positive hashing hash other row)
      rw [if_pos rfl, if_pos hit, raisedNarrow]
      omega
    · rw [if_neg same, Nat.add_zero]
      split
      · rw [raisedNarrow]
        omega
      · exact lower
  · have between := held.between i inside
    rw [narrowCells i inside, plainCells i inside]
    split
    next hit =>
      have least := held.conservative.estimate_le inside hit
      rw [raisedNarrow, raisedPlain i inside]
      omega
    · exact between
  · have upper := held.upper i inside
    rw [plainCells i inside, UpdateTree.total]
    split
    · rw [raisedPlain i inside]
      omega
    · omega

theorem Sandwich.merge (mine : Sandwich hashing width depth hash left narrow plain)
    (theirs : Sandwich hashing width depth hash right narrow' plain')
    (fits : left.total + right.total < modulus) :
    ∃ joined ordinary, narrow.mergeFrom hashing narrow' = .ok joined ∧
      plain.mergeFrom hashing plain' = .ok ordinary ∧
      Sandwich hashing width depth hash (left.merge right) joined ordinary := by
  obtain ⟨joined, merged, shaped, cells, _⟩ := mine.conservative.merge theirs.conservative hashing
  obtain ⟨ordinary, mergedPlain, shapedPlain, plainCells, _⟩ := mine.ordinary.merge theirs.ordinary hashing
  refine ⟨joined, ordinary, merged, mergedPlain, shaped, shapedPlain, fun key i inside hit => ?_,
    fun i inside => ?_, fun i inside => ?_⟩
  all_goals
    have between := mine.between i inside
    have between' := theirs.between i inside
    have upper := mine.upper i inside
    have upper' := theirs.upper i inside
  · have lower := mine.lower key i inside hit
    have lower' := theirs.lower key i inside hit
    rw [cells i inside, wrappingAdd_of_lt (by omega), UpdateTree.weight]
    omega
  · rw [cells i inside, plainCells i inside, wrappingAdd_of_lt (by omega), wrappingAdd_of_lt (by omega)]
    omega
  · rw [plainCells i inside, wrappingAdd_of_lt (by omega), UpdateTree.total]
    omega

theorem sandwich_of_tree (hashing : Hashing) (hash : HashSpec) (positive : 0 < width) (deep : 0 < depth)
    (tree : UpdateTree Bytes Nat) (bounded : tree.total < modulus) :
    ∃ narrow plain, ofTree hashing width depth true hash tree = .ok narrow ∧
      ofTree hashing width depth false hash tree = .ok plain ∧
      Sandwich hashing width depth hash tree narrow plain := by
  induction tree with
  | empty =>
    obtain ⟨narrow, created, shaped, zero, _⟩ :=
      Shaped.new true hash positive deep
    obtain ⟨plain, createdPlain, shapedPlain, zeroPlain, _⟩ :=
      Shaped.new false hash positive deep
    refine ⟨narrow, plain, created, createdPlain, shaped, shapedPlain, fun key i _ _ => ?_,
      fun i _ => ?_, fun i _ => ?_⟩
    · exact Nat.zero_le _
    · rw [zero]
      exact Nat.zero_le _
    · rw [zeroPlain]
      exact Nat.zero_le _
  | update tree key value ih =>
    rw [UpdateTree.total] at bounded
    obtain ⟨narrow, plain, built, builtPlain, held⟩ := ih (by omega)
    refine ⟨_, _, ?_, ?_, held.update positive deep bounded⟩
    · rw [ofTree, built]
      rfl
    · rw [ofTree, builtPlain]
      rfl
  | merge left right ihLeft ihRight =>
    rw [UpdateTree.total] at bounded
    obtain ⟨narrow, plain, built, builtPlain, mine⟩ := ihLeft (by omega)
    obtain ⟨narrow', plain', built', builtPlain', theirs⟩ := ihRight (by omega)
    obtain ⟨joined, ordinary, merged, mergedPlain, held⟩ := mine.merge theirs bounded
    refine ⟨joined, ordinary, ?_, ?_, held⟩
    · rw [ofTree, built, built']
      exact merged
    · rw [ofTree, builtPlain, builtPlain']
      exact mergedPlain

/-! ## No weight overflows -/

theorem total_of_built {conservative : Bool} (positive : 0 < width) (deep : 0 < depth)
    {tree : UpdateTree Bytes Nat} {s : CountMinSketch} (bounded : tree.total < modulus)
    (built : ofTree hashing width depth conservative hash tree = .ok s) :
    Shaped width depth conservative hash s ∧ s.totalWeight = tree.total ∧
      ∀ i < width * depth, s.count i ≤ tree.total := by
  obtain ⟨t, again, shaped, weight, _⟩ := ofTree_total hashing conservative hash positive deep tree
  obtain rfl := Except.ok.inj (again.symm.trans built)
  obtain ⟨narrow, plain, builtNarrow, builtPlain, held⟩ :=
    sandwich_of_tree hashing hash positive deep tree bounded
  refine ⟨shaped, weight.trans (Nat.mod_eq_of_lt bounded), fun i inside => ?_⟩
  cases conservative with
  | true =>
    obtain rfl := Except.ok.inj (builtNarrow.symm.trans built)
    exact (held.between i inside).trans (held.upper i inside)
  | false =>
    obtain rfl := Except.ok.inj (builtPlain.symm.trans built)
    exact held.upper i inside

theorem weightsFit (positive : 0 < width) (deep : 0 < depth) (conservative : Bool)
    {tree : UpdateTree Bytes Nat} (bounded : tree.total < modulus) :
    WeightsFit hashing width depth conservative hash tree := by
  refine @UpdateTree.along_of_total _ _ _ _ _ _ modulus ?_ ?_ _ bounded
  · intro tree key value s fits built
    rw [UpdateTree.total] at fits
    obtain ⟨shaped, weight, cells⟩ := total_of_built positive deep (by omega) built
    have inside : ∀ row < depth, s.cell hashing key row < width * depth := fun row below =>
      shaped.cell key row ▸ cell_lt (index_lt positive hashing hash key row) below
    refine ⟨weight ▸ fits, ?_⟩
    split
    · have least := ((le_estimate_iff hashing s key).mp le_rfl).2 0 (shaped.depth ▸ deep)
      have upper := cells _ (inside 0 deep)
      omega
    · intro row below
      have upper := cells _ (inside row (shaped.depth ▸ below))
      omega
  · intro left right s t fits builtLeft builtRight
    rw [UpdateTree.total] at fits
    obtain ⟨shapedLeft, weightLeft, cellsLeft⟩ := total_of_built positive deep (by omega) builtLeft
    obtain ⟨_, weightRight, cellsRight⟩ := total_of_built positive deep (by omega) builtRight
    refine ⟨by rw [weightLeft, weightRight]; exact fits, fun i inside => ?_⟩
    rw [shapedLeft.size] at inside
    have upperLeft := cellsLeft i inside
    have upperRight := cellsRight i inside
    omega

end

/-- Two conservative sketches of one row, merged. -/
def sampleTree : UpdateTree Bytes Nat :=
  .merge ((UpdateTree.empty.update [1] 3).update [2] 5) (UpdateTree.empty.update [1] 2)

end FlowSketch.Source.CountMinSketch
