import FlowSketch.Source.Kll.Runs

/-!
# Level capacities

The capacity of a level shrinks when a level is opened on top. The pass that opens one has gone past the
lower levels already, so they stay within their capacities only if they were within the smaller ones. An
insertion reaches the top over emptied levels and so never strands an item; a merge can.
-/

namespace FlowSketch.Source.KllSketch
open Lib Lib.Octets Lib.Word64 Lib.Lists Source.Core

/-! ## Capacities shrink -/

theorem decayed_succ_le (k depth : Nat) : decayed k (depth + 1) ≤ decayed k depth := by
  rw [decayed]
  have wrapped := Nat.mod_le (decayed k depth * 2) modulus
  omega

theorem decayed_antitone (k : Nat) : Antitone (decayed k) := antitone_nat_of_succ_le (decayed_succ_le k)

/-- Whenever the pass opens a level, the levels below are within the capacities this leaves them. -/
def OpensSafely : Nat → Nat → KllSketch → Prop
  | 0, _, _ => True
  | rounds + 1, level, s =>
    if level < s.levels.length then
      if (s.levels.getD level []).length ≤ s.capacity level then OpensSafely rounds (level + 1) s
      else
        (level + 1 = s.levels.length → ∀ below < level,
          (s.levels.getD below []).length ≤ capacityOf s.k (s.levels.length + 1) below) ∧
        OpensSafely rounds (level + 1) (s.compactLevel level)
    else True

/-- The sketch `merge_from` compresses. -/
def joined (s t : KllSketch) : KllSketch :=
  { s with levels := joinLevels s.levels t.levels, n := wrappingAdd s.n t.n,
           updates := wrappingAdd s.updates t.updates,
           rngState := splitmix64 (s.rngState ^^^ t.rngState) }

section

variable {s : KllSketch} {level rounds : Nat}

theorem compactLevel_k (s : KllSketch) (level : Nat) : (s.compactLevel level).k = s.k := by
  obtain ⟨_, _, result, _⟩ := compactLevel_spec s level
  rw [result]

theorem compactLevel_count (s : KllSketch) (level : Nat) :
    (s.compactLevel level).levels.length =
      if level + 1 = s.levels.length then s.levels.length + 1 else s.levels.length := by
  obtain ⟨promoted, rngState, result, _⟩ := compactLevel_spec s level
  rw [result]
  show (promote _ level promoted).length = _
  rw [promote_length]
  split
  · rw [List.length_append, List.length_singleton]
  · rfl

theorem promote_above (levels : List (List Nat)) {level above : Nat} (more : level + 1 < above)
    (promoted : List Nat) :
    (promote levels level promoted).getD above [] = levels.getD above [] := by
  have apart : level + 1 ≠ above := by omega
  have apart' : level ≠ above := by omega
  simp [promote, List.getD_eq_getElem?_getD, apart, apart']

theorem compactLevel_above (s : KllSketch) {above : Nat} (inner : level + 1 ≠ s.levels.length)
    (more : level + 1 < above) :
    (s.compactLevel level).levels.getD above [] = s.levels.getD above [] := by
  obtain ⟨promoted, rngState, result, _⟩ := compactLevel_spec s level
  rw [result, if_neg inner]
  exact promote_above _ more promoted

/-- All levels below are within their capacities. -/
def SettledBelow (level : Nat) (s : KllSketch) : Prop :=
  ∀ below < level, (s.levels.getD below []).length ≤ s.capacity below

theorem SettledBelow.succ (below : SettledBelow level s)
    (fits : (s.levels.getD level []).length ≤ s.capacity level) : SettledBelow (level + 1) s := by
  intro other less
  rcases Nat.lt_succ_iff_lt_or_eq.mp less with lower | rfl
  · exact below other lower
  · exact fits

/-- A compaction empties its level; what is below stays, with the capacity of the new number of
levels. -/
theorem SettledBelow.compact (inside : level < s.levels.length) (below : SettledBelow level s)
    (opening : level + 1 = s.levels.length → ∀ below < level,
      (s.levels.getD below []).length ≤ capacityOf s.k (s.levels.length + 1) below) :
    SettledBelow (level + 1) (s.compactLevel level) := by
  obtain ⟨emptied, kept⟩ := s.compactLevel_levels inside
  intro other less
  rcases Nat.lt_succ_iff_lt_or_eq.mp less with lower | rfl
  · rw [kept other lower, capacity_eq, compactLevel_k, compactLevel_count]
    split
    next opens => exact opening opens other lower
    · exact below other lower
  · rw [emptied]
    exact Nat.zero_le _

theorem settled_of_opensSafely (enough : s.ahead level ≤ rounds) (below : SettledBelow level s)
    (safe : OpensSafely rounds level s) : Settled (s.compressFrom rounds level) := by
  induction rounds generalizing s level with
  | zero =>
    unfold ahead at enough
    intro other inside
    rw [compressFrom] at inside
    exact below other (by omega)
  | succ rounds ih =>
    rw [OpensSafely] at safe
    rw [compressFrom]
    split
    next inside =>
      rw [if_pos inside] at safe
      have items := sum_drop inside
      split
      next fits =>
        rw [if_pos fits] at safe
        refine ih ?_ (below.succ fits) safe
        unfold ahead at enough ⊢
        omega
      next overfull =>
        rw [if_neg overfull] at safe
        have fewer := ahead_compactLevel inside (Nat.lt_of_not_le overfull)
        exact ih (by omega) (below.compact inside safe.1) safe.2
    next past => exact fun other inside => below other (by omega)

/-- A pass over levels that fit opens nothing. -/
theorem opensSafely_of_fits
    (above : ∀ other < s.levels.length, level ≤ other →
      (s.levels.getD other []).length ≤ s.capacity other) : OpensSafely rounds level s := by
  induction rounds generalizing level with
  | zero => trivial
  | succ rounds ih =>
    rw [OpensSafely]
    split
    next inside =>
      rw [if_pos (above level inside le_rfl)]
      exact ih fun other within after => above other within (by omega)
    · trivial

/-- A pass that has emptied every level so far strands nothing. -/
theorem opensSafely_of_emptied (below : ∀ other < level, s.levels.getD other [] = [])
    (above : ∀ other < s.levels.length, level < other →
      (s.levels.getD other []).length ≤ s.capacity other) : OpensSafely rounds level s := by
  induction rounds generalizing s level with
  | zero => trivial
  | succ rounds ih =>
    rw [OpensSafely]
    split
    next inside =>
      split
      next fits =>
        refine opensSafely_of_fits fun other within after => ?_
        exact above other within (by omega)
      next overfull =>
        refine ⟨fun _ other less => by rw [below other less]; exact Nat.zero_le _, ?_⟩
        obtain ⟨emptied, kept⟩ := s.compactLevel_levels inside
        refine ih (fun other less => ?_) fun other within after => ?_
        · rcases Nat.lt_succ_iff_lt_or_eq.mp less with lower | rfl
          · rw [kept other lower, below other lower]
          · exact emptied
        · rw [compactLevel_count] at within
          split at within
          · omega
          next inner =>
            rw [compactLevel_above s inner (by omega), capacity_eq, compactLevel_k, compactLevel_count,
              if_neg inner]
            exact above other within (by omega)
    · trivial

end

theorem ahead_zero (s : KllSketch) : s.ahead 0 ≤ s.levels.length + s.itemCount := by
  unfold ahead itemCount
  simp

/-- Insertions keep every level within its capacity. -/
theorem Settled.insert {s : KllSketch} (settled : Settled s) (value : Nat) :
    Settled (s.insert value) := by
  refine settled_of_opensSafely (ahead_zero _) (fun _ less => absurd less (Nat.not_lt_zero _))
    (opensSafely_of_emptied (fun _ less => absurd less (Nat.not_lt_zero _)) fun other within after => ?_)
  have same : (s.levels.modify 0 (fun items => items ++ [value])).getD other [] =
      s.levels.getD other [] := by
    have apart : 0 ≠ other := by omega
    simp [List.getD_eq_getElem?_getD, apart]
  have count : (s.levels.modify 0 (fun items => items ++ [value])).length = s.levels.length :=
    List.length_modify _ _ _
  show ((s.levels.modify 0 (fun items => items ++ [value])).getD other []).length ≤
    capacityOf s.k (s.levels.modify 0 (fun items => items ++ [value])).length other
  rw [same, count]
  exact settled other (count ▸ within)

/-- After every operation of the tree each level is within its capacity. -/
def AllSettled (hashing : Hashing) (k : Nat) (hash : HashSpec) : UpdateTree Unit Nat → Prop
  | .empty => ∀ s compactions, ofTree hashing k hash .empty = .ok (s, compactions) → s.Settled
  | .update tree key value => AllSettled hashing k hash tree ∧
    ∀ s compactions, ofTree hashing k hash (.update tree key value) = .ok (s, compactions) → s.Settled
  | .merge left right => AllSettled hashing k hash left ∧ AllSettled hashing k hash right ∧
    ∀ s compactions, ofTree hashing k hash (.merge left right) = .ok (s, compactions) → s.Settled

theorem AllSettled.last {hashing : Hashing} {k : Nat} {hash : HashSpec} {tree : UpdateTree Unit Nat}
    (all : AllSettled hashing k hash tree) {s : KllSketch} {compactions : List Nat}
    (built : ofTree hashing k hash tree = .ok (s, compactions)) : s.Settled := by
  cases tree with
  | empty => exact all s compactions built
  | update => exact all.2 s compactions built
  | merge => exact all.2.2 s compactions built

theorem ofTree_update {hashing : Hashing} {k : Nat} {hash : HashSpec} {tree : UpdateTree Unit Nat}
    {value : Nat} {s : KllSketch} {compactions : List Nat}
    (built : ofTree hashing k hash (tree.update () value) = .ok (s, compactions)) :
    ∃ before past, ofTree hashing k hash tree = .ok (before, past) ∧ s = before.insert value := by
  rw [ofTree] at built
  obtain ⟨⟨before, past⟩, first, result⟩ := bind_ok built
  cases result
  exact ⟨before, past, first, rfl⟩

theorem ofTree_merge {hashing : Hashing} {k : Nat} {hash : HashSpec}
    {left right : UpdateTree Unit Nat} {merged : KllSketch} {compactions : List Nat}
    (built : ofTree hashing k hash (left.merge right) = .ok (merged, compactions)) :
    ∃ s past t past', ofTree hashing k hash left = .ok (s, past) ∧
      ofTree hashing k hash right = .ok (t, past') ∧ s.mergeFrom hashing t = .ok merged := by
  rw [ofTree] at built
  obtain ⟨⟨s, past⟩, first, built⟩ := bind_ok built
  obtain ⟨⟨t, past'⟩, second, built⟩ := bind_ok built
  obtain ⟨result, done, last⟩ := bind_ok built
  cases last
  exact ⟨s, past, t, past', first, second, done⟩

/-- A stream of equal values. -/
def zeros : Nat → UpdateTree Unit Nat
  | 0 => .empty
  | n + 1 => (zeros n).update () 0

/-- The first compaction, of fifteen items, promotes eight. -/
theorem zeros_fifteen :
    ∃ s compactions promoted, ofTree fsk1 14 (HashSpec.new 1) (zeros 15) = .ok (s, compactions) ∧
      s.k = 14 ∧ s.levels = [[], promoted] ∧ promoted.length = 8 := by
  obtain ⟨before, past, built, ownK, levels, bit⟩ : ∃ before past,
      ofTree fsk1 14 (HashSpec.new 1) (zeros 14) = .ok (before, past) ∧ before.k = 14 ∧
        before.levels = [List.replicate 14 0] ∧ (splitmix64 before.rngState &&& 1) ≠ 1 :=
    ⟨_, _, rfl, rfl, rfl, by decide⟩
  obtain ⟨now, last⟩ : ∃ now,
      ofTree fsk1 14 (HashSpec.new 1) (zeros 15) = .ok (before.insert 0, now) := by
    rw [zeros, ofTree, built]
    exact ⟨_, rfl⟩
  let pushed : KllSketch := { before with
    n := wrappingAdd before.n 1, updates := wrappingAdd before.updates 1,
    levels := before.levels.modify 0 (fun items => items ++ [0]) }
  have full : pushed.levels = [List.replicate 15 0] := by
    show before.levels.modify 0 (fun items => items ++ [0]) = _
    rw [levels]
    rfl
  have compacts : (pushed.compactLevel 0).levels =
      [[], everyOther ((List.replicate 15 0).mergeSort (· ≤ ·))] := by
    rw [compactLevel_compacted pushed (by rw [full]; decide), full]
    show promote _ 0 (everyOther (List.drop (decide (splitmix64 before.rngState &&& 1 = 1)).toNat _)) = _
    rw [decide_eq_false bit]
    rfl
  have length : (everyOther ((List.replicate 15 0).mergeSort (· ≤ ·))).length = 8 := by
    rw [everyOther_length, List.length_mergeSort, List.length_replicate]
  have settled : Settled (pushed.compactLevel 0) := by
    intro level inside
    rw [compacts] at inside ⊢
    rw [capacity_eq, compactLevel_k, compacts]
    show _ ≤ capacityOf before.k 2 level
    rw [ownK]
    have small : level = 0 ∨ level = 1 := by
      simp only [List.length_cons, List.length_nil] at inside
      omega
    rcases small with rfl | rfl
    · exact Nat.zero_le _
    · show (everyOther _).length ≤ _
      rw [length]
      decide
  refine ⟨before.insert 0, now, _, last, ?_, ?_, length⟩
  · exact (compress_setup pushed).k.trans ownK
  · show pushed.compress.levels = _
    have overfull : ¬(pushed.levels.getD 0 []).length ≤ pushed.capacity 0 := by
      rw [capacity_eq, full]
      show ¬15 ≤ capacityOf before.k 1 0
      rw [ownK]
      decide
    have one : pushed.levels.length + pushed.itemCount = 15 + 1 := by
      rw [itemCount, full]
      rfl
    rw [compress, one, compressFrom, if_pos (by rw [full]; decide), if_neg overfull,
      compressFrom_of_settled settled, compacts]

/-- Nine more items fill the lowest of two levels. -/
theorem zeros_more (more : Nat) (few : more ≤ 9) :
    ∃ s compactions promoted,
      ofTree fsk1 14 (HashSpec.new 1) (zeros (15 + more)) = .ok (s, compactions) ∧ s.k = 14 ∧
      s.levels = [List.replicate more 0, promoted] ∧ promoted.length = 8 := by
  induction more with
  | zero => exact zeros_fifteen
  | succ more ih =>
    obtain ⟨before, past, promoted, built, ownK, levels, length⟩ := ih (by omega)
    obtain ⟨now, last⟩ : ∃ now,
        ofTree fsk1 14 (HashSpec.new 1) (zeros (15 + (more + 1))) = .ok (before.insert 0, now) := by
      rw [← Nat.add_assoc, zeros, ofTree, built]
      exact ⟨_, rfl⟩
    let pushed : KllSketch := { before with
      n := wrappingAdd before.n 1, updates := wrappingAdd before.updates 1,
      levels := before.levels.modify 0 (fun items => items ++ [0]) }
    have grown : pushed.levels = [List.replicate (more + 1) 0, promoted] := by
      show before.levels.modify 0 (fun items => items ++ [0]) = _
      rw [levels, List.replicate_succ']
      rfl
    have settled : Settled pushed := by
      intro level inside
      rw [capacity_eq, grown]
      rw [grown] at inside
      show _ ≤ capacityOf before.k 2 level
      rw [ownK]
      have small : level = 0 ∨ level = 1 := by
        simp only [List.length_cons, List.length_nil] at inside
        omega
      rcases small with rfl | rfl
      · show (List.replicate (more + 1) 0).length ≤ 9
        rw [List.length_replicate]
        exact few
      · show promoted.length ≤ 14
        omega
    refine ⟨before.insert 0, now, promoted, last, (compress_setup pushed).k.trans ownK, ?_, length⟩
    show pushed.compress.levels = _
    rw [compress, compressFrom_of_settled settled, grown]

/-- The upper level overflows and opens a third one; the nine items below now exceed a capacity of
eight. -/
theorem zeros_stranded :
    ∃ s past t past' promoted, ofTree fsk1 14 (HashSpec.new 1) (zeros 24) = .ok (s, past) ∧
      ofTree fsk1 14 (HashSpec.new 1) (zeros 15) = .ok (t, past') ∧ s.k = 14 ∧
      (joined s t).compress.levels = [List.replicate 9 0, [], promoted] ∧ promoted.length = 8 := by
  obtain ⟨s, past, promoted, builtLeft, ownK, levelsLeft, length⟩ := zeros_more 9 le_rfl
  obtain ⟨t, past', promoted', builtRight, _, levelsRight, length'⟩ := zeros_fifteen
  have levels : (joined s t).levels = [List.replicate 9 0, promoted ++ promoted'] := by
    show joinLevels s.levels t.levels = _
    rw [levelsLeft, levelsRight]
    rfl
  have rounds : (joined s t).levels.length + (joined s t).itemCount = 27 := by
    rw [itemCount, levels]
    simp [length, length']
  have fits : ((joined s t).levels.getD 0 []).length ≤ (joined s t).capacity 0 := by
    rw [capacity_eq, levels]
    show 9 ≤ capacityOf s.k 2 0
    rw [ownK]
    decide
  have overfull : ¬((joined s t).levels.getD 1 []).length ≤ (joined s t).capacity 1 := by
    rw [capacity_eq, levels]
    show ¬(promoted ++ promoted').length ≤ capacityOf s.k 2 1
    rw [ownK, List.length_append, length, length']
    decide
  have halves : ∀ bit, ∃ moved : List Nat, moved.length = 8 ∧
      compacted [List.replicate 9 0, promoted ++ promoted'] 1 bit =
        [List.replicate 9 0, [], moved] := by
    intro bit
    refine ⟨everyOther (((promoted ++ promoted').mergeSort (· ≤ ·)).drop bit.toNat), ?_, rfl⟩
    rw [everyOther_length, List.length_drop, List.length_mergeSort, List.length_append, length, length']
    cases bit <;> rfl
  have compacts := compactLevel_compacted (joined s t) (show 1 < (joined s t).levels.length by
    rw [levels]; simp)
  rw [levels] at compacts
  obtain ⟨moved, few, half⟩ := halves _
  have opened := compacts.trans half
  have top : (((joined s t).compactLevel 1).levels.getD 2 []).length ≤
      ((joined s t).compactLevel 1).capacity 2 := by
    rw [capacity_eq, compactLevel_k, opened]
    show moved.length ≤ capacityOf s.k 3 2
    rw [ownK, few]
    decide
  refine ⟨s, past, t, past', moved, builtLeft, builtRight, ownK, ?_, few⟩
  rw [compress, rounds, compressFrom, if_pos (by rw [levels]; simp), if_pos fits, compressFrom,
    if_pos (by rw [levels]; simp), if_neg overfull, compressFrom, if_pos (by rw [opened]; simp),
    if_pos top, compressFrom, if_neg (by rw [opened]; simp), opened]

theorem stranded_unsettled {s : KllSketch} {promoted : List Nat} (ownK : s.k = 14)
    (levels : s.levels = [List.replicate 9 0, [], promoted]) : ¬Settled s := by
  intro settled
  have bound := settled 0 (by rw [levels]; simp)
  rw [capacity_eq, levels, ownK] at bound
  have nine : 9 ≤ capacityOf 14 3 0 := bound
  exact absurd nine (by decide)

end FlowSketch.Source.KllSketch
