import FlowSketch.Lib.Word64

/-!
# Durations and memory sizes

`parse_duration` and `parse_memory` in `crates/flowsketch-ir/src/yaml.rs`: trimmed text, split before the
first character that is not a digit, a number of 64 bits and a unit. The product is a plain `*`, which
wraps without a word of it.
-/

namespace FlowSketch.Source.Ir
open Lib.Word64

/-- The error of `yaml.rs` that these two functions give. -/
inductive QueryParseError where
  | invalid (message : String)
  deriving DecidableEq, Repr

/-! ## Text -/

/-- `char::is_whitespace`: the Unicode property `White_Space`. -/
def isWhitespace (c : Char) : Bool :=
  let n := c.toNat
  (9 ≤ n ∧ n ≤ 13) ∨ n = 0x20 ∨ n = 0x85 ∨ n = 0xA0 ∨ n = 0x1680 ∨ (0x2000 ≤ n ∧ n ≤ 0x200A) ∨
    n = 0x2028 ∨ n = 0x2029 ∨ n = 0x202F ∨ n = 0x205F ∨ n = 0x3000

/-- `str::trim`. -/
def trim (s : List Char) : List Char :=
  ((s.dropWhile isWhitespace).reverse.dropWhile isWhitespace).reverse

/-- `char::is_ascii_digit`. -/
def isAsciiDigit (c : Char) : Bool := '0' ≤ c ∧ c ≤ '9'

/-- The number that digits write. -/
def decimal (digits : List Char) : Nat :=
  digits.foldl (fun n c => n * 10 + (c.toNat - '0'.toNat)) 0

/-- `str::parse::<u64>` on digits. The sign it would accept as well is not one. -/
def parseU64 (digits : List Char) : Option Nat :=
  if digits.isEmpty then none
  else if decimal digits < modulus then some (decimal digits)
  else none

/-- `find` and `split_at`: `none` when every character is a digit. -/
def splitUnit (s : List Char) : Option (List Char × List Char) :=
  if (s.dropWhile isAsciiDigit).isEmpty then none
  else some (s.takeWhile isAsciiDigit, s.dropWhile isAsciiDigit)

/-! ## Quantities -/

/-- What the two parsers differ in. -/
structure Quantity where
  noun : String
  scale : String → Option Nat
  unknownUnit : String → String → String

/-- The common body. -/
def Quantity.parse (q : Quantity) (s : String) : Except QueryParseError Nat :=
  let s := trim s.toList
  let shown := (String.ofList s).quote
  match splitUnit s with
  | none => .error (.invalid (q.noun ++ " " ++ shown ++ " is missing a unit"))
  | some (num, unit) =>
    match parseU64 num with
    | none => .error (.invalid ("invalid " ++ q.noun ++ " " ++ shown))
    | some n =>
      match q.scale (String.ofList unit) with
      | none => .error (.invalid (q.unknownUnit (String.ofList unit).quote shown))
      | some scale => .ok (wrappingMul n scale)

def duration : Quantity where
  noun := "duration"
  scale
    | "ns" => some 1
    | "us" => some 1000
    | "ms" => some 1000000
    | "s" => some 1000000000
    | "m" => some (60 * 1000000000)
    | "h" => some (3600 * 1000000000)
    | _ => none
  unknownUnit other s := "unknown duration unit " ++ other ++ " in " ++ s

def memory : Quantity where
  noun := "memory size"
  scale
    | "B" => some 1
    | "KiB" => some 1024
    | "MiB" => some (1024 * 1024)
    | "GiB" => some (1024 * 1024 * 1024)
    | _ => none
  unknownUnit other s := "unknown memory unit " ++ other ++ " in " ++ s ++ " (use B, KiB, MiB, GiB)"

/-- Parse durations like `10s`, `5m`, `1h`, `500ms`. -/
def parseDuration (s : String) : Except QueryParseError Nat := duration.parse s

/-- Parse memory sizes like `128MiB`, `64KiB`, `1GiB`, `4096B`. -/
def parseMemory (s : String) : Except QueryParseError Nat := memory.parse s

/-! ## The grammar -/

/-- Trimmed, the text is a run of digits for `n` and a unit of this scale. -/
def Writes (q : Quantity) (s : String) (n scale : Nat) : Prop :=
  ∃ digits unit, trim s.toList = digits ++ unit ∧ digits ≠ [] ∧
    (∀ c ∈ digits, isAsciiDigit c = true) ∧ decimal digits = n ∧
      q.scale (String.ofList unit) = some scale

/-- The result is the product when the text is of the right shape and the product a word, and an error
otherwise. -/
def Exact (q : Quantity) (s : String) : Prop :=
  ∀ v, q.parse s = .ok v ↔ ∃ n scale, Writes q s n scale ∧ n * scale < modulus ∧ v = n * scale

/-- A unit does not begin with a digit, and it scales by something. -/
def Quantity.Regular (q : Quantity) : Prop :=
  ∀ unit scale, q.scale (String.ofList unit) = some scale →
    0 < scale ∧ ∃ c rest, unit = c :: rest ∧ isAsciiDigit c = false

theorem unit_eq {unit : List Char} {name : String} (same : String.ofList unit = name) :
    unit = name.toList := by
  rw [← same, String.toList_ofList]

theorem duration_regular : duration.Regular := by
  intro unit scale known
  simp only [duration] at known
  split at known
  all_goals first
    | cases known
      next same =>
        rw [unit_eq same]
        exact ⟨by decide, _, _, rfl, by decide⟩
    | cases known

theorem memory_regular : memory.Regular := by
  intro unit scale known
  simp only [memory] at known
  split at known
  all_goals first
    | cases known
      next same =>
        rw [unit_eq same]
        exact ⟨by decide, _, _, rfl, by decide⟩
    | cases known

/-- The split is the only way to read the text as digits and a unit. -/
theorem splitUnit_eq_some_iff {s digits unit : List Char} :
    splitUnit s = some (digits, unit) ↔
      s = digits ++ unit ∧ (∀ c ∈ digits, isAsciiDigit c = true) ∧
        ∃ c rest, unit = c :: rest ∧ isAsciiDigit c = false := by
  unfold splitUnit
  constructor
  · intro split
    by_cases all : (s.dropWhile isAsciiDigit).isEmpty
    · rw [if_pos all] at split
      cases split
    · rw [if_neg all, Option.some.injEq, Prod.mk.injEq] at split
      obtain ⟨rfl, rfl⟩ := split
      refine ⟨List.takeWhile_append_dropWhile.symm, fun c member => ?_, ?_⟩
      · exact List.mem_takeWhile_imp member
      · rw [List.isEmpty_iff] at all
        obtain ⟨c, rest, unit⟩ := List.exists_cons_of_ne_nil all
        refine ⟨c, rest, unit, ?_⟩
        have letter := List.head_dropWhile_not isAsciiDigit all
        simpa [unit] using letter
  · rintro ⟨rfl, run, c, rest, rfl, letter⟩
    have stop : List.dropWhile isAsciiDigit (c :: rest) = c :: rest := by
      rw [List.dropWhile_cons_of_neg (by simp [letter])]
    have none : List.takeWhile isAsciiDigit (c :: rest) = [] := by
      rw [List.takeWhile_cons_of_neg (by simp [letter])]
    rw [List.dropWhile_append_of_pos run, List.takeWhile_append_of_pos run, stop, none,
      List.append_nil]
    rfl

theorem Writes.unique {q : Quantity} (regular : q.Regular) {s : String} {n n' scale scale' : Nat}
    (first : Writes q s n scale) (second : Writes q s n' scale') : n = n' ∧ scale = scale' := by
  obtain ⟨num, unit, shape, _, run, rfl, known⟩ := first
  obtain ⟨num', unit', shape', _, run', rfl, known'⟩ := second
  have split := splitUnit_eq_some_iff.mpr ⟨shape, run, (regular _ _ known).2⟩
  have split' := splitUnit_eq_some_iff.mpr ⟨shape', run', (regular _ _ known').2⟩
  obtain ⟨rfl, rfl⟩ := Prod.mk.inj (Option.some.inj (split.symm.trans split'))
  exact ⟨rfl, Option.some.inj (known.symm.trans known')⟩

theorem parseU64_eq_some_iff {digits : List Char} {n : Nat} :
    parseU64 digits = some n ↔ digits ≠ [] ∧ decimal digits = n ∧ n < modulus := by
  unfold parseU64
  cases digits with
  | nil => simp
  | cons c rest =>
    rw [if_neg (by simp)]
    split
    next fits =>
      rw [Option.some.injEq]
      constructor
      · rintro rfl
        exact ⟨List.cons_ne_nil _ _, rfl, fits⟩
      · exact fun number => number.2.1
    next large =>
      refine iff_of_false nofun ?_
      rintro ⟨_, rfl, fits⟩
      exact large fits

/-- What the parsers accept, and the wrapped product they return. -/
theorem parse_eq_ok_iff {q : Quantity} (regular : q.Regular) {s : String} {v : Nat} :
    q.parse s = .ok v ↔
      ∃ n scale, Writes q s n scale ∧ n < modulus ∧ v = wrappingMul n scale := by
  constructor
  · intro parsed
    unfold Quantity.parse at parsed
    simp only at parsed
    split at parsed
    · cases parsed
    next num unit split =>
      split at parsed
      · cases parsed
      next n number =>
        split at parsed
        · cases parsed
        next scale known =>
          obtain ⟨shape, run, _⟩ := splitUnit_eq_some_iff.mp split
          obtain ⟨some_digit, value, word⟩ := parseU64_eq_some_iff.mp number
          exact ⟨n, scale, ⟨num, unit, shape, some_digit, run, value, known⟩, word,
            (Except.ok.inj parsed).symm⟩
  · rintro ⟨n, scale, ⟨num, unit, shape, some_digit, run, value, known⟩, word, rfl⟩
    have split := splitUnit_eq_some_iff.mpr ⟨shape, run, (regular unit scale known).2⟩
    have number := parseU64_eq_some_iff.mpr ⟨some_digit, value, word⟩
    unfold Quantity.parse
    simp only [split, number, known]

/-- The text is of the right shape and its number a word, but the product is not. -/
def Wraps (q : Quantity) (s : String) : Prop :=
  ∃ n scale, Writes q s n scale ∧ n < modulus ∧ modulus ≤ n * scale

theorem exact_iff {q : Quantity} (regular : q.Regular) (s : String) :
    Exact q s ↔ ¬Wraps q s := by
  constructor
  · rintro exact ⟨n, scale, writes, word, large⟩
    obtain ⟨n', scale', again, fits, _⟩ :=
      (exact _).mp ((parse_eq_ok_iff regular).mpr ⟨n, scale, writes, word, rfl⟩)
    obtain ⟨rfl, rfl⟩ := writes.unique regular again
    omega
  · intro never v
    rw [parse_eq_ok_iff regular]
    constructor
    · rintro ⟨n, scale, writes, word, rfl⟩
      have fits : n * scale < modulus := by
        by_contra large
        exact never ⟨n, scale, writes, word, Nat.le_of_not_lt large⟩
      exact ⟨n, scale, writes, fits, Nat.mod_eq_of_lt fits⟩
    · rintro ⟨n, scale, writes, fits, rfl⟩
      have ⟨_, _, _, _, _, _, known⟩ := writes
      have positive := (regular _ _ known).1
      have word : n < modulus := lt_of_le_of_lt (Nat.le_mul_of_pos_right n positive) fits
      exact ⟨n, scale, writes, word, (Nat.mod_eq_of_lt fits).symm⟩

/-- Both parsers are exact on every text but those whose product wraps. -/
theorem parse_exact_iff (s : String) :
    ((∀ v, parseDuration s = .ok v ↔
        ∃ n scale, Writes duration s n scale ∧ n * scale < modulus ∧ v = n * scale) ↔
      ¬Wraps duration s) ∧
    ((∀ v, parseMemory s = .ok v ↔
        ∃ n scale, Writes memory s n scale ∧ n * scale < modulus ∧ v = n * scale) ↔
      ¬Wraps memory s) :=
  ⟨exact_iff duration_regular s, exact_iff memory_regular s⟩

/-- More than five centuries, in hours, are accepted as twenty-five minutes. -/
theorem long_duration_wraps : parseDuration "5124096h" = .ok 1526290448384 ∧
    ¬∃ n scale, Writes duration "5124096h" n scale ∧ n * scale < modulus ∧
      1526290448384 = n * scale := by
  have writes : Writes duration "5124096h" 5124096 (3600 * 1000000000) :=
    ⟨['5', '1', '2', '4', '0', '9', '6'], ['h'], by decide, by simp, List.all_eq_true.mp rfl,
      by simp [decimal], by decide⟩
  refine ⟨by decide, ?_⟩
  rintro ⟨n, scale, again, fits, _⟩
  obtain ⟨rfl, rfl⟩ := writes.unique duration_regular again
  exact absurd fits (by decide)

end FlowSketch.Source.Ir
