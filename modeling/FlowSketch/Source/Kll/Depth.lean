import FlowSketch.Source.Kll.Capacities
import FlowSketch.Source.Kll.Drift
import FlowSketch.Source.Snapshots.Levels

/-!
# Sixty-four levels

The weight of an item is `1 << level`, so a sketch may have sixty-four levels and its items may weigh less
than `2^64` together. The decoder checks the first only. A compaction keeps the weight but for one item
of its level, which an odd buffer rounds up or down; a level above the sixty-fourth would weigh too much.
-/

namespace FlowSketch.Source.KllSketch
open Lib Lib.Octets Lib.Word64 Lib.Lists Source.Core

/-- Shifts and sums of weights stay within a word. -/
structure Safe (s : KllSketch) : Prop where
  levels : s.levels.length ≤ maxLevels
  weight : retained s.levels < modulus

/-! ## Rounding -/

theorem retained_cons (items : List Nat) (rest : List (List Nat)) :
    retained (items :: rest) = items.length + 2 * retained rest := by
  rw [retained, weigh, List.countP_true, retained]

/-- One item of a level weighs as much as the level says. -/
theorem pow_le_retained {levels : List (List Nat)} {level : Nat} {items : List Nat}
    (here : levels[level]? = some items) (nonempty : items ≠ []) : 2 ^ level ≤ retained levels := by
  induction levels generalizing level with
  | nil => cases here
  | cons first rest ih =>
    rw [retained_cons]
    cases level with
    | zero =>
      obtain rfl : first = items := by simpa using here
      have some_item := List.length_pos_iff.mpr nonempty
      omega
    | succ level =>
      have above := ih (by simpa using here)
      rw [pow_succ']
      omega

/-- A level above the sixty-fourth is opened by a compaction and holds what it promotes. -/
def Topped (s : KllSketch) : Prop := s.levels.length ≤ maxLevels ∨ s.levels.getLast? ≠ some []

theorem Topped.compress {s : KllSketch} (topped : Topped s) : Topped s.compress := by
  refine compressFrom_induct (fun {s level} before inside overfull => ?_) _ _ topped
  by_cases opens : level + 1 = s.levels.length
  · exact .inr (compactLevel_top inside overfull fun inner => absurd opens inner)
  · rcases before with few | top
    · refine .inl ?_
      rw [compactLevel_count, if_neg opens]
      exact few
    · exact .inr (compactLevel_top inside overfull fun _ => top)

theorem foldl_wrappingAdd {items : List (Nat × Nat)} {total : Nat}
    (fits : total + (items.map Prod.snd).sum < modulus) :
    items.foldl (fun total item => wrappingAdd total item.2) total =
      total + (items.map Prod.snd).sum := by
  induction items generalizing total with
  | nil => rfl
  | cons item rest ih =>
    rw [List.map_cons, List.sum_cons] at fits
    rw [List.foldl_cons, wrappingAdd_of_lt (by omega), ih (by omega), List.map_cons, List.sum_cons]
    omega

/-- Sketches that are decoded or new, and the insertions and merges made with them. -/
inductive History
  | accepted (bytes : Bytes)
  | new (k : Nat) (hash : HashSpec)
  | insert (past : History) (value : Nat)
  | merge (past other : History)

namespace History

def eval (hashing : Hashing) : History → Except SketchError KllSketch
  | accepted bytes => fromSnapshot hashing bytes
  | new k hash => KllSketch.new k hash
  | insert past value => (past.eval hashing).map (fun s => s.insert value)
  | merge past other => do
    let s ← past.eval hashing
    let t ← other.eval hashing
    s.mergeFrom hashing t

/-- Every sketch of the history, at every moment of it. -/
def Always (hashing : Hashing) (P : KllSketch → Prop) : History → Prop
  | accepted bytes => ∀ s, eval hashing (.accepted bytes) = .ok s → P s
  | new k hash => ∀ s, eval hashing (.new k hash) = .ok s → P s
  | insert past value => past.Always hashing P ∧
    ∀ s, eval hashing (.insert past value) = .ok s → P s
  | merge past other => past.Always hashing P ∧ other.Always hashing P ∧
    ∀ s, eval hashing (.merge past other) = .ok s → P s

theorem Always.last {hashing : Hashing} {P : KllSketch → Prop} {history : History}
    (always : history.Always hashing P) {s : KllSketch} (built : history.eval hashing = .ok s) :
    P s := by
  cases history with
  | accepted => exact always s built
  | new => exact always s built
  | insert => exact always.2 s built
  | merge => exact always.2.2 s built

end History

theorem Safe.new {k : Nat} {hash : HashSpec} {s : KllSketch} (created : KllSketch.new k hash = .ok s) :
    Safe s := by
  unfold KllSketch.new at created
  split at created
  · cases created
  · cases created
    exact ⟨(by decide : 1 ≤ maxLevels), (by decide : 0 < modulus)⟩

theorem History.Always.imp {hashing : Hashing} {P Q : KllSketch → Prop} {history : History}
    (always : history.Always hashing P) (weaker : ∀ s, P s → Q s) : history.Always hashing Q := by
  induction history with
  | accepted => exact fun s built => weaker s (always s built)
  | new => exact fun s built => weaker s (always s built)
  | insert past value ih => exact ⟨ih always.1, fun s built => weaker s (always.2 s built)⟩
  | merge past other ihPast ihOther =>
    exact ⟨ihPast always.1, ihOther always.2.1, fun s built => weaker s (always.2.2 s built)⟩

/-- Nine items on the sixty-fourth level. -/
def crowded : KllSketch :=
  { k := 8, hash := HashSpec.new 1, levels := List.replicate 63 [] ++ [List.replicate 9 0], n := 9,
    rngState := 0, updates := 9 }

end FlowSketch.Source.KllSketch
