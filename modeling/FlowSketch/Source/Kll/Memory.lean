import FlowSketch.Source.Kll.Capacities

/-!
# Retained items

After a pass the levels hold at most the sum of the capacities, also where a merge has left one of them
over its own: the level that overflowed and made room for another is empty by then. The capacities sum to
less than `3k` but for the floor of eight items a level.
-/

namespace FlowSketch.Source.KllSketch
open Lib Lib.Octets Lib.Word64 Lib.Lists Source.Core

/-! ## The sum of the capacities -/

/-- The capacities of the topmost `count` levels. -/
def capacitySum (k : Nat) : Nat → Nat
  | 0 => 0
  | depth + 1 => capacitySum k depth + max (decayed k depth) minLevelCapacity

theorem decayed_sum (k count : Nat) :
    ((List.range count).map (decayed k)).sum + 3 * decayed k count ≤ 3 * k := by
  induction count with
  | zero => simp [decayed]
  | succ count ih =>
    have decays : 3 * decayed k (count + 1) ≤ 2 * decayed k count := by
      rw [decayed]
      have wrapped := Nat.mod_le (decayed k count * 2) modulus
      omega
    rw [List.range_succ, List.map_append, List.sum_append, List.map_singleton, List.sum_singleton]
    omega

theorem capacitySum_le (k count : Nat) :
    capacitySum k count ≤ ((List.range count).map (decayed k)).sum + 8 * count := by
  induction count with
  | zero => exact Nat.zero_le _
  | succ count ih =>
    rw [capacitySum, List.range_succ, List.map_append, List.sum_append, List.map_singleton,
      List.sum_singleton, minLevelCapacity]
    omega

/-- The capacities of the levels below `level` are those of all `count` levels but the topmost. -/
def capacityBelow (k count level : Nat) : Nat :=
  ((List.range level).map (capacityOf k count)).sum

theorem capacityBelow_succ (k count level : Nat) :
    capacityBelow k count (level + 1) = capacityBelow k count level + capacityOf k count level := by
  rw [capacityBelow, List.range_succ, List.map_append, List.sum_append, List.map_singleton,
    List.sum_singleton, capacityBelow]

theorem capacityBelow_eq {k count level : Nat} (inside : level ≤ count) :
    capacityBelow k count level + capacitySum k (count - level) = capacitySum k count := by
  induction level with
  | zero => simp [capacityBelow]
  | succ level ih =>
    have before := ih (by omega)
    have step : count - level = count - (level + 1) + 1 := by omega
    have depth : count - 1 - level = count - (level + 1) := by omega
    rw [step, capacitySum] at before
    rw [capacityBelow_succ, capacityOf, depth]
    omega

theorem capacitySum_mono (k : Nat) : Monotone (capacitySum k) :=
  monotone_nat_of_le_succ fun _ => Nat.le_add_right _ _

/-! ## Passes -/

/-- The items of the levels below `level`. -/
def itemsBelow (levels : List (List Nat)) (level : Nat) : Nat :=
  ((levels.take level).map List.length).sum

theorem itemsBelow_succ {levels : List (List Nat)} {level : Nat} (inside : level < levels.length) :
    itemsBelow levels (level + 1) = itemsBelow levels level + (levels.getD level []).length := by
  rw [itemsBelow, List.take_succ_eq_append_getElem inside, List.map_append, List.sum_append,
    List.map_singleton, List.sum_singleton, itemsBelow, List.getD_eq_getElem _ _ inside]

theorem itemsBelow_congr {levels levels' : List (List Nat)} {level : Nat}
    (inside : level ≤ levels.length) (inside' : level ≤ levels'.length)
    (same : ∀ below < level, levels'.getD below [] = levels.getD below []) :
    itemsBelow levels' level = itemsBelow levels level := by
  induction level with
  | zero => simp [itemsBelow]
  | succ level ih =>
    rw [itemsBelow_succ (by omega), itemsBelow_succ (by omega), same level (Nat.lt_succ_self _),
      ih (by omega) (by omega) fun below less => same below (Nat.lt_succ_of_lt less)]

theorem compressFrom_items {s : KllSketch} {level rounds : Nat} (enough : s.ahead level ≤ rounds)
    (inside : level ≤ s.levels.length)
    (below : itemsBelow s.levels level ≤ capacityBelow s.k s.levels.length level) :
    (s.compressFrom rounds level).itemCount ≤
      capacitySum s.k (s.compressFrom rounds level).levels.length := by
  have finished : ∀ {s : KllSketch}, itemsBelow s.levels s.levels.length ≤
      capacityBelow s.k s.levels.length s.levels.length →
      s.itemCount ≤ capacitySum s.k s.levels.length := by
    intro s held
    have all := capacityBelow_eq (k := s.k) (le_refl s.levels.length)
    rw [Nat.sub_self, capacitySum] at all
    rw [itemsBelow, List.take_length] at held
    rw [itemCount]
    omega
  induction rounds generalizing s level with
  | zero =>
    unfold ahead at enough
    obtain rfl : level = s.levels.length := by omega
    exact finished below
  | succ rounds ih =>
    rw [compressFrom]
    split
    next less =>
      have items := sum_drop less
      split
      next fits =>
        refine ih ?_ less ?_
        · unfold ahead at enough ⊢
          omega
        · rw [itemsBelow_succ less, capacityBelow_succ]
          rw [capacity_eq] at fits
          omega
      next overfull =>
        have fewer := ahead_compactLevel less (Nat.lt_of_not_le overfull)
        have longer := compactLevel_length less
        obtain ⟨emptied, kept⟩ := s.compactLevel_levels less
        have later := @ih (s.compactLevel level) (level + 1) (by omega) (by omega) (by
          rw [itemsBelow_succ (by omega), emptied, List.length_nil, Nat.add_zero, compactLevel_k,
            itemsBelow_congr inside (by omega) kept, compactLevel_count]
          split
          next opens =>
            -- The level that opens a new one is empty, and its place is free for the lower ones.
            have lower := capacityBelow_eq (k := s.k) inside
            have upper := @capacityBelow_eq s.k (s.levels.length + 1) (level + 1) (by omega)
            have more := capacitySum_mono s.k (Nat.le_succ s.levels.length)
            have top : s.levels.length - level = s.levels.length + 1 - (level + 1) := by omega
            rw [← top] at upper
            have grown : capacitySum s.k s.levels.length ≤ capacitySum s.k (s.levels.length + 1) := more
            omega
          · rw [capacityBelow_succ]
            omega)
        rwa [(compactLevel_k s level)] at later
    next past =>
      obtain rfl : level = s.levels.length := by omega
      exact finished below

theorem compress_items (s : KllSketch) :
    s.compress.itemCount ≤ capacitySum s.compress.k s.compress.levels.length := by
  rw [(compress_setup s).k]
  exact compressFrom_items (ahead_zero s) (Nat.zero_le _) (by simp [itemsBelow])

/-! ## Trees -/

/-- Levels that `n` insertions may leave. -/
structure Weighed (n : Nat) (levels : List (List Nat)) : Prop where
  some_level : 0 < levels.length
  top : 1 < levels.length → levels.getLast? ≠ some []
  weight : weight levels ≤ n

theorem Weighed.compress {n : Nat} {s : KllSketch} (weighed : Weighed n s.levels) :
    Weighed n s.compress.levels := by
  refine compressFrom_induct (P := fun s => Weighed n s.levels) (fun before inside overfull => ?_) _ _
    weighed
  exact ⟨before.some_level.trans_le (compactLevel_length inside),
    fun _ => compactLevel_top inside overfull fun inner => before.top (by omega),
    (compactLevel_weight inside overfull).trans before.weight⟩

theorem Weighed.insert {n : Nat} {s : KllSketch} (weighed : Weighed n s.levels) (value : Nat) :
    Weighed (n + 1) (s.insert value).levels := by
  refine Weighed.compress ⟨?_, push_top weighed.top value, ?_⟩
  · show 0 < (s.levels.modify 0 _).length
    rw [List.length_modify]
    exact weighed.some_level
  · show KllSketch.weight (s.levels.modify 0 (fun items => items ++ [value])) ≤ _
    rw [weight_pushed weighed.some_level]
    push_cast
    exact add_le_add_left weighed.weight 1

theorem Weighed.merge {hashing : Hashing} {n n' : Nat} {s t merged : KllSketch}
    (left : Weighed n s.levels) (right : Weighed n' t.levels)
    (done : s.mergeFrom hashing t = .ok merged) : Weighed (n + n') merged.levels := by
  obtain ⟨_, _, result⟩ := bind_ok done
  cases result
  refine Weighed.compress ⟨?_, join_top left.top right.top, ?_⟩
  · show 0 < (joinLevels s.levels t.levels).length
    rw [join_length]
    exact Nat.lt_of_lt_of_le left.some_level (Nat.le_max_left _ _)
  · show KllSketch.weight (joinLevels s.levels t.levels) ≤ _
    rw [weight_join]
    push_cast
    exact add_le_add left.weight right.weight

theorem ofTree_weighed {hashing : Hashing} {k : Nat} {hash : HashSpec}
    (enough : minLevelCapacity ≤ k) {tree : UpdateTree Unit Nat} {s : KllSketch}
    {compactions : List Nat} (built : ofTree hashing k hash tree = .ok (s, compactions)) :
    Weighed tree.updates s.levels := by
  induction tree generalizing s compactions with
  | empty =>
    rw [ofTree, KllSketch.new, if_neg (Nat.not_lt.mpr enough)] at built
    cases built
    exact ⟨Nat.one_pos, fun deep => absurd deep (lt_irrefl 1), by simp [KllSketch.weight]⟩
  | update tree key value ih =>
    obtain ⟨before, past, first, rfl⟩ := ofTree_update built
    exact (ih first).insert value
  | merge left right ihLeft ihRight =>
    obtain ⟨s, _, t, _, first, second, done⟩ := ofTree_merge built
    exact (ihLeft first).merge (ihRight second) done

theorem ofTree_items {hashing : Hashing} {k : Nat} {hash : HashSpec}
    (enough : minLevelCapacity ≤ k) {tree : UpdateTree Unit Nat} {s : KllSketch}
    {compactions : List Nat} (built : ofTree hashing k hash tree = .ok (s, compactions)) :
    s.itemCount ≤ capacitySum k s.levels.length := by
  obtain ⟨_, _, again, ownK, _⟩ := ofTree_runs hashing hash enough tree
  cases built.symm.trans again
  cases tree with
  | empty =>
    rw [ofTree, KllSketch.new, if_neg (Nat.not_lt.mpr enough)] at built
    cases built
    exact Nat.zero_le _
  | update tree key value =>
    obtain ⟨before, past, first, rfl⟩ := ofTree_update built
    rw [← ownK]
    exact compress_items _
  | merge left right =>
    obtain ⟨s, _, t, _, first, second, done⟩ := ofTree_merge built
    obtain ⟨_, _, result⟩ := bind_ok done
    cases result
    rw [← ownK]
    exact compress_items _

/-- A tree of fewer than `2^64` insertions retains at most the sum of the capacities of its levels:
`3k` items and eight for each of at most 76 levels. The subtrees are such trees too, so this holds
after every operation. -/
theorem retained_items_bounded {hashing : Hashing} {k : Nat} {hash : HashSpec}
    (enough : minLevelCapacity ≤ k) (tree : UpdateTree Unit Nat) (few : tree.updates < modulus) :
    ∃ s compactions, ofTree hashing k hash tree = .ok (s, compactions) ∧
      s.itemCount ≤ capacitySum k s.levels.length ∧
      capacitySum k s.levels.length ≤ 3 * k + 8 * s.levels.length ∧ s.levels.length ≤ 76 := by
  obtain ⟨s, compactions, built, _⟩ := ofTree_runs hashing hash enough tree
  refine ⟨s, compactions, built, ofTree_items enough built, ?_, ?_⟩
  · have floors := capacitySum_le k s.levels.length
    have decays := decayed_sum k s.levels.length
    omega
  · have weighed := ofTree_weighed enough built
    refine depth_le weighed.some_level weighed.top ?_ (by decide)
    have bounded : (tree.updates : ℚ) < 2 ^ 64 := by
      rw [modulus] at few
      exact_mod_cast few
    have past : (2 : ℚ) ^ 64 < (9 / 5) ^ 76 := by norm_num
    exact (weighed.weight.trans_lt bounded).trans past

theorem oneItem_bounded :
    ∃ s compactions, ofTree fsk1 8 (HashSpec.new 1) (zeros 1) = .ok (s, compactions) ∧
      s.itemCount ≤ capacitySum 8 s.levels.length ∧
      capacitySum 8 s.levels.length ≤ 3 * 8 + 8 * s.levels.length ∧ s.levels.length ≤ 76 :=
  retained_items_bounded (by decide) (zeros 1) (by decide)

/-! ## Full levels -/

/-- Eight items at the top of `height + 1` levels. -/
def tower : Nat → UpdateTree Unit Nat
  | 0 => zeros 8
  | height + 1 => (tower height).merge (tower height)

/-- Eight items on each of `height + 1` levels. -/
def stair : Nat → UpdateTree Unit Nat
  | 0 => zeros 8
  | height + 1 => (stair height).merge (tower (height + 1))

theorem capacityOf_eight (count level : Nat) : capacityOf 8 count level = 8 :=
  Nat.max_eq_right (decayed_antitone 8 (Nat.zero_le (count - 1 - level)))

theorem Pass.of_fits {level : Nat} {levels after : List (List Nat)} {compactions : List Nat}
    (pass : Pass 8 level levels compactions after) (fits : ∀ items ∈ levels, items.length ≤ 8) :
    after = levels := by
  induction pass with
  | done => rfl
  | skip _ _ _ ih => exact ih fits
  | @compact level levels _ _ _ inside overfull _ _ =>
    rw [capacityOf_eight, List.getD_eq_getElem _ _ inside] at overfull
    exact absurd (fits _ (List.getElem_mem inside)) (Nat.not_le.mpr overfull)

theorem runs_zeros {few : Nat} {levels : List (List Nat)} {compactions : List Nat}
    (run : Runs 8 (zeros few) levels compactions) (room : few ≤ 8) :
    levels = [List.replicate few 0] := by
  induction few generalizing levels compactions with
  | zero =>
    cases run
    rfl
  | succ few ih =>
    cases run with
    | insert run pass =>
      rw [ih run (by omega)] at pass
      have pushed : [List.replicate few 0].modify 0 (fun items => items ++ [0]) =
          [List.replicate (few + 1) 0] := by
        rw [List.replicate_succ']
        rfl
      rw [pushed] at pass
      refine pass.of_fits fun items member => ?_
      rw [List.mem_singleton.mp member, List.length_replicate]
      exact room

theorem join_replicate (height : Nat) (top top' : List Nat) :
    joinLevels (List.replicate height [] ++ [top]) (List.replicate height [] ++ [top']) =
      List.replicate height [] ++ [top ++ top'] := by
  induction height with
  | zero => rfl
  | succ height ih =>
    rw [List.replicate_succ, List.cons_append, List.cons_append, joinLevels, ih]
    rfl

theorem compacted_top (height : Nat) (top : List Nat) (bit : Bool) :
    compacted (List.replicate height [] ++ [top]) height bit =
      List.replicate (height + 1) [] ++ [everyOther ((top.mergeSort (· ≤ ·)).drop bit.toNat)] := by
  have count : height + 1 = (List.replicate height [] ++ [top]).length := by simp
  have own : (List.replicate height [] ++ [top]).getD height [] = top := by
    rw [List.getD_eq_getElem?_getD, List.getElem?_append_right (by simp)]
    simp
  rw [compacted, if_pos count, own]
  generalize everyOther _ = promoted
  induction height with
  | zero => rfl
  | succ height ih =>
    have deeper := ih (by simp) (by
      rw [List.getD_eq_getElem?_getD, List.getElem?_append_right (by simp)]
      simp)
    have step : promote (List.replicate (height + 1) [] ++ [top] ++ [[]]) (height + 1) promoted =
        [] :: promote (List.replicate height [] ++ [top] ++ [[]]) height promoted := rfl
    rw [step, deeper]
    rfl

/-- Sixteen items at the top move up by one level, under either parity bit. -/
theorem Pass.climbs {level height : Nat} {levels after : List (List Nat)} {compactions : List Nat}
    {top : List Nat} (pass : Pass 8 level levels compactions after) (below : level ≤ height)
    (shape : levels = List.replicate height [] ++ [top]) (full : top.length = 16) :
    ∃ promoted, after = List.replicate (height + 1) [] ++ [promoted] ∧ promoted.length = 8 := by
  induction pass with
  | @done level levels past =>
    rw [shape, List.length_append, List.length_replicate, List.length_singleton] at past
    omega
  | @skip level levels after _ inside fits rest ih =>
    rcases Nat.lt_or_eq_of_le below with less | rfl
    · exact ih less shape
    · rw [shape, capacityOf_eight, List.getD_eq_getElem?_getD,
        List.getElem?_append_right (by simp)] at fits
      simp only [List.length_replicate, Nat.sub_self, List.getElem?_cons_zero, Option.getD_some] at fits
      omega
  | @compact level levels after _ bit inside overfull rest ih =>
    rcases Nat.lt_or_eq_of_le below with less | rfl
    · rw [shape, List.getD_append _ _ _ _ (by simpa using less),
        List.getD_eq_getElem _ _ (by simpa using less), List.getElem_replicate] at overfull
      exact absurd overfull (Nat.not_lt_zero _)
    · rw [shape, compacted_top] at rest
      have eight : (everyOther ((top.mergeSort (· ≤ ·)).drop bit.toNat)).length = 8 := by
        rw [everyOther_length, List.length_drop, List.length_mergeSort, full]
        cases bit <;> rfl
      refine ⟨_, rest.of_fits fun items member => ?_, eight⟩
      rcases List.mem_append.mp member with lower | last
      · rw [List.eq_of_mem_replicate lower]
        exact Nat.zero_le _
      · rw [List.mem_singleton.mp last, eight]

theorem runs_tower {height : Nat} {levels : List (List Nat)} {compactions : List Nat}
    (run : Runs 8 (tower height) levels compactions) :
    ∃ top, levels = List.replicate height [] ++ [top] ∧ top.length = 8 := by
  induction height generalizing levels compactions with
  | zero => exact ⟨List.replicate 8 0, runs_zeros run le_rfl, rfl⟩
  | succ height ih =>
    cases run with
    | merge runLeft runRight pass =>
      obtain ⟨top, rfl, eight⟩ := ih runLeft
      obtain ⟨top', rfl, eight'⟩ := ih runRight
      refine pass.climbs (Nat.zero_le _) (join_replicate height top top') ?_
      rw [List.length_append, eight, eight']

theorem join_above (levels : List (List Nat)) (top : List Nat) :
    joinLevels levels (List.replicate levels.length [] ++ [top]) = levels ++ [top] := by
  induction levels with
  | nil => rfl
  | cons first rest ih =>
    rw [List.length_cons, List.replicate_succ, List.cons_append, joinLevels, ih, List.append_nil]
    rfl

theorem runs_stair {height : Nat} {levels : List (List Nat)} {compactions : List Nat}
    (run : Runs 8 (stair height) levels compactions) :
    levels.length = height + 1 ∧ ∀ items ∈ levels, items.length = 8 := by
  induction height generalizing levels compactions with
  | zero =>
    rw [runs_zeros run le_rfl]
    exact ⟨rfl, fun items member => by rw [List.mem_singleton.mp member, List.length_replicate]⟩
  | succ height ih =>
    cases run with
    | @merge _ _ mine theirs _ _ _ _ runLeft runRight pass =>
      obtain ⟨count, full⟩ := ih runLeft
      obtain ⟨top, rfl, eight⟩ := runs_tower runRight
      rw [← count, join_above] at pass
      have all : ∀ items ∈ mine ++ [top], items.length = 8 := by
        intro items member
        rcases List.mem_append.mp member with lower | last
        · exact full items lower
        · rw [List.mem_singleton.mp last, eight]
      obtain rfl := pass.of_fits fun items member => (all items member).le
      exact ⟨by rw [List.length_append, count, List.length_singleton], all⟩

/-- With `k = 8` every capacity is eight, and four full levels hold more than twenty-four items. -/
theorem full_levels_exceed : (stair 3).updates < modulus ∧
    ¬∀ s compactions, ofTree fsk1 8 (HashSpec.new 1) (stair 3) = .ok (s, compactions) →
      s.itemCount ≤ 3 * 8 := by
  refine ⟨by decide, fun bounded => ?_⟩
  obtain ⟨s, compactions, built, _, _, _, run⟩ := @ofTree_runs fsk1 8 (HashSpec.new 1) le_rfl (stair 3)
  obtain ⟨count, full⟩ := runs_stair run
  have items : s.itemCount = 32 := by
    have lengths : s.levels.map List.length = List.replicate 4 8 := by
      rw [List.eq_replicate_iff, List.length_map]
      refine ⟨count, fun length member => ?_⟩
      obtain ⟨items, inside, rfl⟩ := List.mem_map.mp member
      exact full items inside
    rw [itemCount, lengths]
    rfl
  have few := bounded s compactions built
  omega

end FlowSketch.Source.KllSketch
