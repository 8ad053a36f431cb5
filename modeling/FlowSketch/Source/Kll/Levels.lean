import FlowSketch.Lib.Lists
import FlowSketch.Source.Kll

/-!
# How many levels a KLL sketch has

A compaction takes at least nine items from a level and moves at most one more than half of them up.
Weighing an item at level `l` by `(9/5)^l`, no compaction adds weight, so the weight never exceeds the
number of inserted items; and the top level is never empty. Hence the number of levels grows with the
logarithm of `n`.
-/

namespace FlowSketch.Source.KllSketch
open Lib.Octets Lib.Word64 Lib.Lists Source.Core

/-! ## Weight -/

def weight : List (List Nat) → ℚ
  | [] => 0
  | items :: rest => items.length + 9 / 5 * weight rest

theorem weight_nonneg (levels : List (List Nat)) : 0 ≤ weight levels := by
  induction levels with
  | nil => exact le_refl 0
  | cons items rest ih =>
    rw [weight]
    positivity

theorem weight_push (levels : List (List Nat)) : weight (levels ++ [[]]) = weight levels := by
  induction levels with
  | nil => simp [weight]
  | cons items rest ih => rw [List.cons_append, weight, ih, weight]

theorem weight_join (left right : List (List Nat)) :
    weight (joinLevels left right) = weight left + weight right := by
  induction left generalizing right with
  | nil => cases right <;> simp [joinLevels, weight]
  | cons mine left ih =>
    cases right with
    | nil => simp [joinLevels, weight]
    | cons theirs right =>
      rw [joinLevels, weight, ih, weight, weight, List.length_append]
      push_cast
      ring

/-- Clearing a level and extending the next one. -/
def promote (levels : List (List Nat)) (level : Nat) (promoted : List Nat) : List (List Nat) :=
  (levels.set level []).modify (level + 1) (fun items => items ++ promoted)

theorem promote_length (levels : List (List Nat)) (level : Nat) (promoted : List Nat) :
    (promote levels level promoted).length = levels.length := by
  rw [promote, List.length_modify, List.length_set]

theorem weight_promote {levels : List (List Nat)} {level : Nat} (inside : level + 1 < levels.length)
    {promoted : List Nat} (few : 18 * promoted.length ≤ 10 * (levels.getD level []).length) :
    weight (promote levels level promoted) ≤ weight levels := by
  induction levels generalizing level with
  | nil => cases inside
  | cons items rest ih =>
    cases level with
    | zero =>
      cases rest with
      | nil => simp at inside
      | cons next rest =>
        have fewer : (18 * promoted.length : ℚ) ≤ 10 * items.length := by exact_mod_cast few
        have moved : promote (items :: next :: rest) 0 promoted = [] :: (next ++ promoted) :: rest :=
          rfl
        rw [moved]
        simp only [weight, List.length_append, List.length_nil]
        push_cast
        linarith
    | succ level =>
      have deeper := ih (by simpa using inside) (by simpa using few)
      have moved : promote (items :: rest) (level + 1) promoted =
          items :: promote rest level promoted := rfl
      rw [moved, weight, weight]
      linarith

/-- The top item alone weighs as much as the depth allows. -/
theorem pow_le_weight {levels : List (List Nat)} {items : List Nat}
    (top : levels.getLast? = some items) (nonempty : items ≠ []) :
    (9 / 5 : ℚ) ^ (levels.length - 1) ≤ weight levels := by
  induction levels with
  | nil => cases top
  | cons first rest ih =>
    cases rest with
    | nil =>
      obtain rfl : first = items := by simpa using top
      have some_item : (1 : ℚ) ≤ first.length := by
        exact_mod_cast List.length_pos_iff.mpr nonempty
      simpa [weight] using some_item
    | cons second rest =>
      have above := ih (by rw [List.getLast?_cons_cons] at top; exact top)
      have step : (9 / 5 : ℚ) ^ ((first :: second :: rest).length - 1) =
          9 / 5 * (9 / 5) ^ ((second :: rest).length - 1) := by
        rw [← pow_succ']
        rfl
      rw [step, weight]
      have count : (0 : ℚ) ≤ first.length := Nat.cast_nonneg _
      linarith

/-! ## Compactions -/

theorem everyOther_length (items : List Nat) : (everyOther items).length = (items.length + 1) / 2 := by
  induction items using everyOther.induct with
  | case1 => rfl
  | case2 item => simp [everyOther]
  | case3 item _ rest ih =>
    simp only [everyOther, List.length_cons, ih]
    omega

theorem everyOther_subset (items : List Nat) : everyOther items ⊆ items := by
  induction items using everyOther.induct with
  | case1 => exact List.Subset.refl _
  | case2 item => exact List.Subset.refl _
  | case3 item _ rest ih =>
    rw [everyOther]
    exact List.cons_subset_cons _ (List.subset_cons_of_subset _ ih)

/-- The shape of one compaction: an empty level on top if there is none, then about half of the items
move up. -/
theorem compactLevel_spec (s : KllSketch) (level : Nat) :
    ∃ promoted rngState,
      s.compactLevel level =
        { s with levels := promote (if level + 1 = s.levels.length then s.levels ++ [[]]
                                    else s.levels) level promoted
                 rngState } ∧
      promoted ⊆ s.levels.getD level [] ∧
      (s.levels.getD level []).length / 2 ≤ promoted.length ∧
      promoted.length ≤ ((s.levels.getD level []).length + 1) / 2 := by
  have same : (if level + 1 = s.levels.length then s.levels ++ [[]] else s.levels).getD level [] =
      s.levels.getD level [] := by
    split
    · rw [List.getD_append _ _ _ _ (by omega)]
    · rfl
  unfold compactLevel
  refine ⟨_, _, rfl, ?_, ?_, ?_⟩
  · intro item member
    have kept := List.mem_of_mem_drop (everyOther_subset _ member)
    rw [List.mem_mergeSort, same] at kept
    exact kept
  · have parity := Bool.toNat_le (splitmix64 s.rngState &&& 1 = 1)
    rw [everyOther_length, List.length_drop, List.length_mergeSort, same]
    simp only
    omega
  · rw [everyOther_length, List.length_drop, List.length_mergeSort, same]
    omega

theorem capacity_ge (s : KllSketch) (level : Nat) : 8 ≤ s.capacity level := Nat.le_max_right _ _

/-! ## The loop ends -/

/-- Levels and items still ahead of the loop. -/
def ahead (s : KllSketch) (level : Nat) : Nat :=
  s.levels.length - level + ((s.levels.drop level).map List.length).sum

theorem promote_drop (levels : List (List Nat)) (level : Nat) (promoted : List Nat) :
    (promote levels level promoted).drop (level + 1) =
      (levels.drop (level + 1)).modify 0 (fun items => items ++ promoted) := by
  induction levels generalizing level with
  | nil => simp [promote]
  | cons items rest ih =>
    cases level with
    | zero => cases rest <;> rfl
    | succ level => exact ih level

theorem modify_zero_sum (levels : List (List Nat)) (promoted : List Nat) :
    ((levels.modify 0 (fun items => items ++ promoted)).map List.length).sum ≤
      (levels.map List.length).sum + promoted.length := by
  cases levels with
  | nil => exact Nat.zero_le _
  | cons items rest =>
    simp only [List.modify_zero_cons, List.map_cons, List.sum_cons, List.length_append]
    omega

theorem sum_drop {levels : List (List Nat)} {level : Nat} (inside : level < levels.length) :
    ((levels.drop level).map List.length).sum =
      (levels.getD level []).length + ((levels.drop (level + 1)).map List.length).sum := by
  rw [List.drop_eq_getElem_cons inside, List.map_cons, List.sum_cons,
    List.getD_eq_getElem?_getD, List.getElem?_eq_getElem inside, Option.getD_some]

theorem ahead_compactLevel {s : KllSketch} {level : Nat} (inside : level < s.levels.length)
    (overfull : s.capacity level < (s.levels.getD level []).length) :
    (s.compactLevel level).ahead (level + 1) < s.ahead level := by
  obtain ⟨promoted, rngState, result, _, _, most⟩ := compactLevel_spec s level
  have many := capacity_ge s level
  rw [result]
  simp only [ahead, promote_drop, promote_length, sum_drop inside]
  have moved := modify_zero_sum ((if level + 1 = s.levels.length then s.levels ++ [[]]
    else s.levels).drop (level + 1)) promoted
  split at moved
  next opens =>
    rw [if_pos opens]
    have none_above : (s.levels ++ [[]]).drop (level + 1) = [[]] := by
      rw [opens, List.drop_left]
    have old_above : s.levels.drop (level + 1) = [] := by rw [opens, List.drop_length]
    rw [none_above] at moved ⊢
    rw [old_above]
    simp only [List.length_append, List.length_singleton, List.map_cons, List.map_nil, List.sum_cons,
      List.sum_nil, List.length_nil] at moved ⊢
    omega
  next inner =>
    rw [if_neg inner]
    omega

/-- Rounds past the levels and items ahead change nothing: the fuel of `compress` suffices. -/
theorem compressFrom_settled (rounds : Nat) {s : KllSketch} {level : Nat}
    (enough : s.ahead level ≤ rounds) (extra : Nat) :
    s.compressFrom (rounds + extra) level = s.compressFrom rounds level := by
  induction rounds generalizing s level with
  | zero =>
    have past : ¬level < s.levels.length := by
      unfold ahead at enough
      omega
    cases extra with
    | zero => rfl
    | succ extra =>
      rw [Nat.zero_add]
      show (if level < s.levels.length then _ else s) = s
      rw [if_neg past]
  | succ rounds ih =>
    rw [Nat.add_right_comm, compressFrom, compressFrom]
    split
    next inside =>
      split
      · refine ih ?_
        have items := sum_drop inside
        unfold ahead at enough ⊢
        omega
      next overfull =>
        have fewer := ahead_compactLevel inside (Nat.lt_of_not_le overfull)
        exact ih (by omega)
    · rfl

/-! ## What every operation keeps -/

/-- Compaction moves items and draws bits; it touches nothing else. -/
structure SameSetup (s t : KllSketch) : Prop where
  k : t.k = s.k
  hash : t.hash = s.hash
  n : t.n = s.n
  updates : t.updates = s.updates

theorem compressFrom_setup (rounds level : Nat) (s : KllSketch) :
    SameSetup s (s.compressFrom rounds level) := by
  induction rounds generalizing s level with
  | zero => exact ⟨rfl, rfl, rfl, rfl⟩
  | succ rounds ih =>
    rw [compressFrom]
    split
    · split
      · exact ih (level + 1) s
      · have later := ih (level + 1) (s.compactLevel level)
        exact ⟨later.k, later.hash, later.n, later.updates⟩
    · exact ⟨rfl, rfl, rfl, rfl⟩

theorem compress_setup (s : KllSketch) : SameSetup s s.compress := compressFrom_setup _ _ s

/-- Words on at least one level. -/
structure Shape (s : KllSketch) : Prop where
  k : minLevelCapacity ≤ s.k
  some_level : 0 < s.levels.length
  items : ∀ level ∈ s.levels, ∀ item ∈ level, item < modulus
  n : s.n < modulus
  updates : s.updates < modulus

/-- Levels above the first are there for a reason, and the levels weigh no more than the items. -/
structure Wf (s : KllSketch) : Prop extends Shape s where
  top : 1 < s.levels.length → s.levels.getLast? ≠ some []
  weight : weight s.levels ≤ s.n

theorem forall_promote {P : List Nat → Prop} {levels : List (List Nat)} (all : ∀ l ∈ levels, P l)
    (empty : P []) {promoted : List Nat} (extend : ∀ l, P l → P (l ++ promoted)) (level : Nat) :
    ∀ l ∈ promote levels level promoted, P l := by
  refine forall_modify ?_ _ extend
  intro l member
  rcases List.mem_or_eq_of_mem_set member with old | rfl
  · exact all l old
  · exact empty

theorem promote_top {levels : List (List Nat)} {level : Nat} (inside : level + 1 < levels.length)
    {promoted : List Nat} (some_promoted : promoted ≠ [])
    (top : level + 2 = levels.length ∨ levels.getLast? ≠ some []) :
    (promote levels level promoted).getLast? ≠ some [] := by
  rw [List.getLast?_eq_getElem?, promote_length] at *
  rw [promote, List.getElem?_modify, List.getElem?_set]
  rcases Nat.lt_or_ge (level + 2) levels.length with below | at_top
  · have apart : ¬level + 1 = levels.length - 1 := by omega
    have apart' : ¬level = levels.length - 1 := by omega
    simp only [apart, apart', if_false, Option.map_eq_map, Option.map_id_fun', id_eq]
    exact top.resolve_left (by omega)
  · obtain same : levels.length - 1 = level + 1 := by omega
    intro empty
    rw [Option.map_eq_map, Option.map_eq_some_iff] at empty
    obtain ⟨items, _, nil⟩ := empty
    rw [if_pos same.symm] at nil
    exact some_promoted (List.append_eq_nil_iff.mp nil).2

theorem Shape.compactLevel {s : KllSketch} (shape : Shape s) {level : Nat}
    (inside : level < s.levels.length) : Shape (s.compactLevel level) := by
  obtain ⟨promoted, rngState, result, subset, _⟩ := compactLevel_spec s level
  have words : ∀ item ∈ promoted, item < modulus := by
    intro item member
    have kept := subset member
    rw [List.getD_eq_getElem?_getD, List.getElem?_eq_getElem inside, Option.getD_some] at kept
    exact shape.items _ (List.getElem_mem inside) item kept
  have extended : ∀ l : List Nat, (∀ item ∈ l, item < modulus) →
      ∀ item ∈ l ++ promoted, item < modulus := by
    intro l all item member
    rcases List.mem_append.mp member with old | new
    · exact all item old
    · exact words item new
  have some_level := shape.some_level
  rw [result]
  by_cases opens : level + 1 = s.levels.length
  · rw [if_pos opens]
    refine ⟨shape.k, ?_, ?_, shape.n, shape.updates⟩
    · simp [promote_length]
    · refine forall_promote (fun l member => ?_) (by simp) extended level
      rcases List.mem_append.mp member with old | new
      · exact shape.items l old
      · rw [List.mem_singleton.mp new]
        simp
  · rw [if_neg opens]
    exact ⟨shape.k, by rw [promote_length]; exact some_level,
      forall_promote shape.items (by simp) extended level, shape.n, shape.updates⟩

theorem compactLevel_top {s : KllSketch} {level : Nat} (inside : level < s.levels.length)
    (overfull : s.capacity level < (s.levels.getD level []).length)
    (top : level + 1 ≠ s.levels.length → s.levels.getLast? ≠ some []) :
    (s.compactLevel level).levels.getLast? ≠ some [] := by
  obtain ⟨promoted, rngState, result, subset, least, most⟩ := compactLevel_spec s level
  have many := capacity_ge s level
  have some_promoted : promoted ≠ [] := by
    intro none_promoted
    rw [none_promoted, List.length_nil] at least
    omega
  rw [result]
  by_cases opens : level + 1 = s.levels.length
  · rw [if_pos opens]
    have longer : level + 1 < (s.levels ++ [[]]).length := by simp [← opens]
    exact promote_top longer some_promoted (Or.inl (by simp [← opens]))
  · rw [if_neg opens]
    exact promote_top (by omega) some_promoted (Or.inr (top opens))

theorem compactLevel_weight {s : KllSketch} {level : Nat} (inside : level < s.levels.length)
    (overfull : s.capacity level < (s.levels.getD level []).length) :
    KllSketch.weight (s.compactLevel level).levels ≤ KllSketch.weight s.levels := by
  obtain ⟨promoted, rngState, result, subset, least, most⟩ := compactLevel_spec s level
  rw [result]
  have many := capacity_ge s level
  by_cases opens : level + 1 = s.levels.length
  · rw [if_pos opens]
    have longer : level + 1 < (s.levels ++ [[]]).length := by simp [← opens]
    refine (weight_promote longer ?_).trans (weight_push s.levels).le
    rw [List.getD_append _ _ _ _ inside]
    omega
  · rw [if_neg opens]
    exact weight_promote (by omega) (by omega)

theorem Wf.compactLevel {s : KllSketch} (wf : Wf s) {level : Nat} (inside : level < s.levels.length)
    (overfull : s.capacity level < (s.levels.getD level []).length) : Wf (s.compactLevel level) :=
  ⟨wf.toShape.compactLevel inside,
    fun _ => compactLevel_top inside overfull fun inner => wf.top (by omega),
    (compactLevel_weight inside overfull).trans wf.weight⟩

/-- What a round keeps, the loop keeps. -/
theorem compressFrom_induct {P : KllSketch → Prop}
    (step : ∀ {s level}, P s → level < s.levels.length →
      s.capacity level < (s.levels.getD level []).length → P (s.compactLevel level))
    (rounds level : Nat) {s : KllSketch} (start : P s) : P (s.compressFrom rounds level) := by
  induction rounds generalizing s level with
  | zero => exact start
  | succ rounds ih =>
    rw [KllSketch.compressFrom]
    split
    next inside =>
      split
      · exact ih (level + 1) start
      next overfull => exact ih (level + 1) (step start inside (Nat.lt_of_not_le overfull))
    · exact start

theorem Shape.compress {s : KllSketch} (shape : Shape s) : Shape s.compress :=
  compressFrom_induct (fun shape inside _ => shape.compactLevel inside) _ _ shape

theorem Wf.compress {s : KllSketch} (wf : Wf s) : Wf s.compress :=
  compressFrom_induct (fun wf inside overfull => wf.compactLevel inside overfull) _ _ wf

/-- The sketches of insertions and merges that do not overflow a counter. -/
inductive Reachable (hashing : Hashing) : KllSketch → Prop
  | new {k : Nat} {hash : HashSpec} {s : KllSketch} (created : KllSketch.new k hash = .ok s) :
      Reachable hashing s
  | insert {s : KllSketch} (before : Reachable hashing s) {value : Nat} (word : value < modulus)
      (fits : s.n + 1 < modulus) : Reachable hashing (s.insert value)
  | merge {s other t : KllSketch} (before : Reachable hashing s) (argument : Reachable hashing other)
      (fits : s.n + other.n < modulus) (merged : s.mergeFrom hashing other = .ok t) :
      Reachable hashing t

theorem join_length (left right : List (List Nat)) :
    (joinLevels left right).length = max left.length right.length := by
  induction left generalizing right with
  | nil => cases right <;> simp [joinLevels]
  | cons mine left ih =>
    cases right with
    | nil => simp [joinLevels]
    | cons theirs right => simp only [joinLevels, List.length_cons, ih]; omega

theorem forall_join {P : List Nat → Prop} (append : ∀ a b, P a → P b → P (a ++ b))
    {left right : List (List Nat)} (mine : ∀ l ∈ left, P l) (theirs : ∀ l ∈ right, P l) :
    ∀ l ∈ joinLevels left right, P l := by
  induction left generalizing right with
  | nil => cases right <;> simp_all [joinLevels]
  | cons a left ih =>
    cases right with
    | nil => simpa [joinLevels] using mine
    | cons b right =>
      rw [List.forall_mem_cons] at mine theirs
      rw [joinLevels, List.forall_mem_cons]
      exact ⟨append a b mine.1 theirs.1, ih mine.2 theirs.2⟩

theorem join_getElem? (left right : List (List Nat)) (i : Nat) :
    (joinLevels left right)[i]? =
      match left[i]?, right[i]? with
      | some mine, some theirs => some (mine ++ theirs)
      | some mine, none => some mine
      | none, theirs => theirs := by
  induction left generalizing right i with
  | nil => cases right <;> simp [joinLevels]
  | cons mine left ih =>
    cases right with
    | nil =>
      rw [joinLevels]
      cases (mine :: left)[i]? <;> rfl
    | cons theirs right =>
      cases i with
      | zero => rfl
      | succ i => simpa [joinLevels] using ih right i

/-- The last level of the longer side stays, extended by the other side's. -/
theorem join_top {left right : List (List Nat)} (mine : 1 < left.length → left.getLast? ≠ some [])
    (theirs : 1 < right.length → right.getLast? ≠ some [])
    (deep : 1 < (joinLevels left right).length) : (joinLevels left right).getLast? ≠ some [] := by
  simp only [List.getLast?_eq_getElem?] at mine theirs ⊢
  intro empty
  rw [join_getElem?] at empty
  rw [join_length] at deep empty
  rcases Nat.le_total right.length left.length with shorter | longer
  · rw [Nat.max_eq_left shorter] at deep empty
    refine mine deep ?_
    rw [List.getElem?_eq_getElem (by omega)] at empty ⊢
    cases other : right[left.length - 1]? with
    | none =>
      rw [other] at empty
      exact empty
    | some items =>
      rw [other] at empty
      rw [(List.append_eq_nil_iff.mp (Option.some.inj empty)).1]
  · rw [Nat.max_eq_right longer] at deep empty
    refine theirs deep ?_
    rw [List.getElem?_eq_getElem (by omega : right.length - 1 < right.length)] at empty ⊢
    cases other : left[right.length - 1]? with
    | none =>
      rw [other] at empty
      exact empty
    | some items =>
      rw [other] at empty
      rw [(List.append_eq_nil_iff.mp (Option.some.inj empty)).2]

theorem Shape.new {k : Nat} {hash : HashSpec} {s : KllSketch}
    (created : KllSketch.new k hash = .ok s) : Shape s := by
  unfold KllSketch.new at created
  split at created
  · cases created
  next enough =>
    cases created
    exact ⟨Nat.le_of_not_lt enough, Nat.one_pos, by simp, modulus_pos, modulus_pos⟩

/-- One more item on the lowest level. -/
theorem Shape.push {s : KllSketch} (shape : Shape s) {value : Nat} (word : value < modulus) :
    Shape { s with n := wrappingAdd s.n 1, updates := wrappingAdd s.updates 1,
                   levels := s.levels.modify 0 (fun items => items ++ [value]) } := by
  refine ⟨shape.k, ?_, ?_, wrappingAdd_lt _ _, wrappingAdd_lt _ _⟩
  · rw [List.length_modify]
    exact shape.some_level
  · refine forall_modify shape.items 0 fun level words item member => ?_
    rcases List.mem_append.mp member with old | new
    · exact words item old
    · rw [List.mem_singleton.mp new]
      exact word

theorem Shape.join {s other : KllSketch} (left : Shape s) (right : Shape other) (rngState : UInt64) :
    Shape { s with levels := joinLevels s.levels other.levels, n := wrappingAdd s.n other.n,
                   updates := wrappingAdd s.updates other.updates, rngState } := by
  refine ⟨left.k, ?_, ?_, wrappingAdd_lt _ _, wrappingAdd_lt _ _⟩
  · have some_level := left.some_level
    rw [join_length]
    omega
  · refine forall_join (fun a b mine theirs item member => ?_) left.items right.items
    rcases List.mem_append.mp member with old | new
    · exact mine item old
    · exact theirs item new

theorem Shape.insert {s : KllSketch} (shape : Shape s) {value : Nat} (word : value < modulus) :
    Shape (s.insert value) := (shape.push word).compress

theorem Shape.merge {hashing : Hashing} {s other t : KllSketch} (left : Shape s)
    (right : Shape other) (merged : s.mergeFrom hashing other = .ok t) : Shape t := by
  obtain ⟨_, _, result⟩ := bind_ok merged
  cases result
  exact (left.join right _).compress

theorem push_top {levels : List (List Nat)} (top : 1 < levels.length → levels.getLast? ≠ some [])
    (value : Nat) : 1 < (levels.modify 0 (fun items => items ++ [value])).length →
      (levels.modify 0 (fun items => items ++ [value])).getLast? ≠ some [] := by
  intro deep
  rw [List.length_modify] at deep
  obtain ⟨first, rest, rfl⟩ := List.exists_cons_of_length_pos (Nat.zero_lt_of_lt deep)
  have above := top deep
  cases rest with
  | nil => cases deep; contradiction
  | cons second rest =>
    rw [List.getLast?_cons_cons] at above
    show ((first ++ [value]) :: second :: rest).getLast? ≠ some []
    rw [List.getLast?_cons_cons]
    exact above

theorem weight_pushed {levels : List (List Nat)} (some_level : 0 < levels.length) (value : Nat) :
    weight (levels.modify 0 (fun items => items ++ [value])) = weight levels + 1 := by
  obtain ⟨first, rest, rfl⟩ := List.exists_cons_of_length_pos some_level
  simp only [List.modify_zero_cons, KllSketch.weight, List.length_append, List.length_singleton]
  push_cast
  ring

theorem Reachable.wf {hashing : Hashing} {s : KllSketch} (run : Reachable hashing s) : Wf s := by
  induction run with
  | new created =>
    refine ⟨Shape.new created, ?_, ?_⟩ <;> unfold KllSketch.new at created <;>
      split at created <;> cases created
    · simp
    · simp [KllSketch.weight]
  | @insert s _ value word fits wf =>
    have exact_n : wrappingAdd s.n 1 = s.n + 1 := wrappingAdd_of_lt fits
    refine Wf.compress ⟨wf.toShape.push word, push_top wf.top value, ?_⟩
    show KllSketch.weight (s.levels.modify 0 (fun items => items ++ [value])) ≤ wrappingAdd s.n 1
    rw [weight_pushed wf.some_level, exact_n]
    push_cast
    exact add_le_add_left wf.weight 1
  | @merge s other t _ _ fits merged left right =>
    obtain ⟨_, _, result⟩ := bind_ok merged
    cases result
    have exact_n : wrappingAdd s.n other.n = s.n + other.n := wrappingAdd_of_lt fits
    refine Wf.compress ⟨left.toShape.join right.toShape _, join_top left.top right.top, ?_⟩
    simp only [weight_join, exact_n]
    push_cast
    exact add_le_add left.weight right.weight

/-- The depth is logarithmic in the weight. -/
theorem depth_le {levels : List (List Nat)} (some_level : 0 < levels.length)
    (top : 1 < levels.length → levels.getLast? ≠ some []) {depth : Nat}
    (light : weight levels < (9 / 5) ^ depth) (one : 1 ≤ depth) : levels.length ≤ depth := by
  rcases Nat.lt_or_ge 1 levels.length with deep | shallow
  · obtain ⟨items, last⟩ : ∃ items, levels.getLast? = some items :=
      ⟨_, List.getLast?_eq_some_getLast (List.length_pos_iff.mp some_level)⟩
    have nonempty : items ≠ [] := by
      rintro rfl
      exact top deep last
    have heavy := pow_le_weight last nonempty
    by_contra many
    have grows : (9 / 5 : ℚ) ^ depth ≤ (9 / 5) ^ (levels.length - 1) :=
      pow_le_pow_right₀ (by norm_num) (by omega)
    linarith
  · omega

/-- Below `2^48` items there are fewer than sixty levels. -/
theorem Wf.levels_le {s : KllSketch} (wf : Wf s) (few : s.n < 2 ^ 48) :
    s.levels.length ≤ maxLevels := by
  refine depth_le wf.some_level wf.top ?_ (by decide)
  have bounded : (s.n : ℚ) < 2 ^ 48 := by exact_mod_cast few
  have past : (2 : ℚ) ^ 48 < (9 / 5) ^ maxLevels := by norm_num [maxLevels]
  exact (wf.weight.trans_lt bounded).trans past

/-! ## Compressing twice -/

/-- Every level is within its capacity. -/
def Settled (s : KllSketch) : Prop :=
  ∀ level < s.levels.length, (s.levels.getD level []).length ≤ s.capacity level

instance settledDecidable (s : KllSketch) : Decidable s.Settled :=
  inferInstanceAs (Decidable (∀ level < s.levels.length, _))

theorem compressFrom_of_settled {s : KllSketch} (settled : Settled s) (rounds level : Nat) :
    s.compressFrom rounds level = s := by
  induction rounds generalizing level with
  | zero => rfl
  | succ rounds ih =>
    rw [compressFrom]
    split
    next inside =>
      rw [if_pos (settled level inside)]
      exact ih (level + 1)
    · rfl

theorem promote_emptied {levels : List (List Nat)} {level : Nat} (inside : level < levels.length)
    (promoted : List Nat) : (promote levels level promoted).getD level [] = [] := by
  simp [promote, List.getD_eq_getElem?_getD, inside]

theorem promote_below (levels : List (List Nat)) {level below : Nat} (less : below < level)
    (promoted : List Nat) :
    (promote levels level promoted).getD below [] = levels.getD below [] := by
  have apart : level + 1 ≠ below := by omega
  simp [promote, List.getD_eq_getElem?_getD, less.ne', apart]

theorem compactLevel_levels (s : KllSketch) {level : Nat} (inside : level < s.levels.length) :
    (s.compactLevel level).levels.getD level [] = [] ∧
      ∀ below < level, (s.compactLevel level).levels.getD below [] = s.levels.getD below [] := by
  obtain ⟨promoted, rngState, result, _⟩ := compactLevel_spec s level
  rw [result]
  refine ⟨promote_emptied ?_ promoted, fun below less => ?_⟩
  · split
    · rw [List.length_append]
      omega
    · exact inside
  · refine (promote_below _ less promoted).trans ?_
    split
    · exact List.getD_append _ _ _ _ (by omega)
    · rfl

/-- The loop never comes back to a level. -/
theorem compressFrom_below (rounds : Nat) {s : KllSketch} {level below : Nat} (less : below < level) :
    (s.compressFrom rounds level).levels.getD below [] = s.levels.getD below [] := by
  induction rounds generalizing s level with
  | zero => rfl
  | succ rounds ih =>
    rw [compressFrom]
    split
    next inside =>
      split
      · exact ih (Nat.lt_succ_of_lt less)
      · rw [ih (Nat.lt_succ_of_lt less)]
        exact (s.compactLevel_levels inside).2 below less
    · rfl

/-- An overfull level is emptied, so a second compression is one that can be seen. -/
theorem settled_of_compressFrom {s : KllSketch} {rounds level : Nat}
    (enough : s.levels.length ≤ level + rounds)
    (unchanged : (s.compressFrom rounds level).levels = s.levels) :
    ∀ above < s.levels.length, level ≤ above →
      (s.levels.getD above []).length ≤ s.capacity above := by
  induction rounds generalizing level with
  | zero =>
    intro above inside after
    omega
  | succ rounds ih =>
    rw [compressFrom] at unchanged
    intro above inside after
    rw [if_pos (by omega)] at unchanged
    by_cases fits : (s.levels.getD level []).length ≤ s.capacity level
    · rw [if_pos fits] at unchanged
      rcases Nat.eq_or_lt_of_le after with rfl | later
      · exact fits
      · exact ih (by omega) unchanged above inside later
    · rw [if_neg fits] at unchanged
      have emptied := @compressFrom_below rounds (s.compactLevel level) (level + 1) level
        (Nat.lt_succ_self level)
      rw [unchanged, (s.compactLevel_levels (by omega)).1] at emptied
      rw [emptied] at fits
      exact absurd (Nat.zero_le _) fits

theorem compress_levels_iff (s : KllSketch) : s.compress.levels = s.levels ↔ Settled s := by
  constructor
  · intro unchanged level inside
    exact settled_of_compressFrom (by omega) unchanged level inside (Nat.zero_le _)
  · intro settled
    rw [compress, compressFrom_of_settled settled]

end FlowSketch.Source.KllSketch
