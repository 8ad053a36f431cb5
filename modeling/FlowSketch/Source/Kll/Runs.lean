import FlowSketch.Lib.UpdateTree
import FlowSketch.Source.Kll.Levels

/-!
# Runs of a KLL sketch

One pass of `compress` with the parity bits left open, and the trees of insertions and merges that such
passes build. The generator of the code picks one of these runs; what holds of all of them does not
depend on it.
-/

namespace FlowSketch.Source.KllSketch
open Lib Lib.Octets Lib.Word64 Lib.Lists Source.Core

/-- The capacity of `level` when there are `count` levels. -/
def capacityOf (k count level : Nat) : Nat := max (decayed k (count - 1 - level)) minLevelCapacity

theorem capacity_eq (s : KllSketch) (level : Nat) :
    s.capacity level = capacityOf s.k s.levels.length level := rfl

/-- A compaction of `level` under a given parity bit. -/
def compacted (levels : List (List Nat)) (level : Nat) (bit : Bool) : List (List Nat) :=
  promote (if level + 1 = levels.length then levels ++ [[]] else levels) level
    (everyOther (((levels.getD level []).mergeSort (· ≤ ·)).drop bit.toNat))

/-- The levels that the pass compacts, in order. -/
def compactedFrom : Nat → Nat → KllSketch → List Nat
  | 0, _, _ => []
  | rounds + 1, level, s =>
    if level < s.levels.length then
      if (s.levels.getD level []).length ≤ s.capacity level then compactedFrom rounds (level + 1) s
      else level :: compactedFrom rounds (level + 1) (s.compactLevel level)
    else []

def compactedLevels (s : KllSketch) : List Nat := s.compactedFrom (s.levels.length + s.itemCount) 0

/-- A pass from `level` on, under any parity bits, with the levels it compacts. -/
inductive Pass (k : Nat) : Nat → List (List Nat) → List Nat → List (List Nat) → Prop
  | done {level : Nat} {levels : List (List Nat)} (past : levels.length ≤ level) :
      Pass k level levels [] levels
  | skip {level : Nat} {levels after : List (List Nat)} {compactions : List Nat}
      (inside : level < levels.length)
      (fits : (levels.getD level []).length ≤ capacityOf k levels.length level)
      (rest : Pass k (level + 1) levels compactions after) : Pass k level levels compactions after
  | compact {level : Nat} {levels after : List (List Nat)} {compactions : List Nat} (bit : Bool)
      (inside : level < levels.length)
      (overfull : capacityOf k levels.length level < (levels.getD level []).length)
      (rest : Pass k (level + 1) (compacted levels level bit) compactions after) :
      Pass k level levels (level :: compactions) after

/-- The levels a tree of insertions and merges may leave, and the compactions on the way. -/
inductive Runs (k : Nat) : UpdateTree Unit Nat → List (List Nat) → List Nat → Prop
  | new : Runs k .empty [[]] []
  | insert {tree : UpdateTree Unit Nat} {levels after : List (List Nat)} {before now : List Nat}
      {value : Nat} (run : Runs k tree levels before)
      (pass : Pass k 0 (levels.modify 0 (fun items => items ++ [value])) now after) :
      Runs k (tree.update () value) after (before ++ now)
  | merge {left right : UpdateTree Unit Nat} {mine theirs after : List (List Nat)}
      {before before' now : List Nat} (runLeft : Runs k left mine before)
      (runRight : Runs k right theirs before') (pass : Pass k 0 (joinLevels mine theirs) now after) :
      Runs k (left.merge right) after (before ++ before' ++ now)

/-! ## The code makes such passes -/

theorem compactLevel_compacted (s : KllSketch) {level : Nat} (inside : level < s.levels.length) :
    (s.compactLevel level).levels =
      compacted s.levels level (splitmix64 s.rngState &&& 1 = 1) := by
  have same : (if level + 1 = s.levels.length then s.levels ++ [[]] else s.levels).getD level [] =
      s.levels.getD level [] := by
    split
    · rw [List.getD_append _ _ _ _ inside]
    · rfl
  unfold compactLevel compacted promote
  simp only [same]
  rfl

theorem compactLevel_length {s : KllSketch} {level : Nat} (inside : level < s.levels.length) :
    s.levels.length ≤ (s.compactLevel level).levels.length := by
  rw [compactLevel_compacted s inside, compacted, promote_length]
  split
  · rw [List.length_append]
    omega
  · exact le_rfl

theorem pass_of_compressFrom {rounds : Nat} {s : KllSketch} {level : Nat}
    (enough : s.ahead level ≤ rounds) :
    Pass s.k level s.levels (s.compactedFrom rounds level) (s.compressFrom rounds level).levels := by
  induction rounds generalizing s level with
  | zero =>
    refine .done ?_
    unfold ahead at enough
    omega
  | succ rounds ih =>
    rw [compressFrom, compactedFrom]
    split
    next inside =>
      split
      next fits =>
        refine .skip inside fits (ih ?_)
        have items := sum_drop inside
        unfold ahead at enough ⊢
        omega
      next overfull =>
        have fewer := ahead_compactLevel inside (Nat.lt_of_not_le overfull)
        have rest := @ih (s.compactLevel level) (level + 1) (by omega)
        rw [compactLevel_compacted s inside] at rest
        exact .compact _ inside (Nat.lt_of_not_le overfull) rest
    next past => exact .done (Nat.le_of_not_lt past)

theorem pass_of_compress {k : Nat} (s : KllSketch) (own : s.k = k) :
    Pass k 0 s.levels s.compactedLevels s.compress.levels := by
  subst own
  refine pass_of_compressFrom ?_
  unfold ahead itemCount
  simp

/-- The sketch a tree builds, and the compactions performed anywhere in the tree. -/
def ofTree (hashing : Hashing) (k : Nat) (hash : HashSpec) :
    UpdateTree Unit Nat → Except SketchError (KllSketch × List Nat)
  | .empty => (KllSketch.new k hash).map (fun s => (s, []))
  | .update tree () value => do
    let (s, before) ← ofTree hashing k hash tree
    let pushed := { s with n := wrappingAdd s.n 1, updates := wrappingAdd s.updates 1,
                           levels := s.levels.modify 0 (fun items => items ++ [value]) }
    return (s.insert value, before ++ pushed.compactedLevels)
  | .merge left right => do
    let (s, before) ← ofTree hashing k hash left
    let (t, before') ← ofTree hashing k hash right
    let joined := { s with levels := joinLevels s.levels t.levels,
                           n := wrappingAdd s.n t.n, updates := wrappingAdd s.updates t.updates,
                           rngState := splitmix64 (s.rngState ^^^ t.rngState) }
    let merged ← s.mergeFrom hashing t
    return (merged, before ++ before' ++ joined.compactedLevels)

/-- A tree always builds a sketch, along one of the runs; `n` counts its insertions modulo a word. -/
theorem ofTree_runs (hashing : Hashing) {k : Nat} (hash : HashSpec) (enough : minLevelCapacity ≤ k)
    (tree : UpdateTree Unit Nat) :
    ∃ s compactions, ofTree hashing k hash tree = .ok (s, compactions) ∧ s.k = k ∧ s.hash = hash ∧
      s.n = tree.updates % modulus ∧ Runs k tree s.levels compactions := by
  induction tree with
  | empty =>
    obtain ⟨seeded, created⟩ : ∃ rngState, KllSketch.new k hash = .ok
        { k, hash, levels := [[]], n := 0, rngState, updates := 0 } :=
      ⟨_, if_neg (Nat.not_lt.mpr enough)⟩
    refine ⟨{ k, hash, levels := [[]], n := 0, rngState := seeded, updates := 0 }, [], ?_, rfl, rfl,
      rfl, Runs.new⟩
    rw [ofTree, created]
    rfl
  | update tree key value ih =>
    obtain ⟨s, before, built, ownK, ownHash, count, run⟩ := ih
    have setup := compress_setup { s with
      n := wrappingAdd s.n 1, updates := wrappingAdd s.updates 1,
      levels := s.levels.modify 0 (fun items => items ++ [value]) }
    have pass := pass_of_compress { s with
      n := wrappingAdd s.n 1, updates := wrappingAdd s.updates 1,
      levels := s.levels.modify 0 (fun items => items ++ [value]) } ownK
    refine ⟨s.insert value, _, ?_, setup.k.trans ownK, setup.hash.trans ownHash, ?_,
      .insert run pass⟩
    · rw [ofTree, built]
      rfl
    · rw [UpdateTree.updates, ← Nat.mod_add_mod, ← count]
      exact setup.n
  | merge left right ihLeft ihRight =>
    obtain ⟨s, before, built, ownK, ownHash, count, run⟩ := ihLeft
    obtain ⟨t, before', built', theirK, theirHash, count', run'⟩ := ihRight
    have compatible : (s.compatibility hashing).ensureMatches (t.compatibility hashing) = .ok () := by
      rw [SketchCompatibility.ensureMatches_ok_iff]
      simp only [compatibility, paramsHash, ownK, theirK, ownHash, theirHash]
    have setup := compress_setup { s with
      levels := joinLevels s.levels t.levels, n := wrappingAdd s.n t.n,
      updates := wrappingAdd s.updates t.updates, rngState := splitmix64 (s.rngState ^^^ t.rngState) }
    have pass := pass_of_compress { s with
      levels := joinLevels s.levels t.levels, n := wrappingAdd s.n t.n,
      updates := wrappingAdd s.updates t.updates, rngState := splitmix64 (s.rngState ^^^ t.rngState) }
      ownK
    refine ⟨_, _, ?_, setup.k.trans ownK, setup.hash.trans ownHash, ?_, .merge run run' pass⟩
    · rw [ofTree, built, built']
      simp only [bind, Except.bind, mergeFrom, compatible]
      rfl
    · rw [UpdateTree.updates, Nat.add_mod, ← count, ← count']
      exact setup.n

end FlowSketch.Source.KllSketch
