import Mathlib

/-!
# Checked execution

A computation that indexes, slices and counts as a compiled program does ends in a value, in the
absence of one (`return None`, or `?` on an empty option), or in a panic. Word arithmetic is that of
64-bit counters with overflow checks. A computation is shown never to panic by equating it with an
option: `ofOption`.
-/

namespace FlowSketch.Lib

inductive Outcome (α : Type) where
  | value (a : α)
  | absent
  | panic
  deriving DecidableEq, Repr

namespace Outcome
variable {α β : Type}

def bind (x : Outcome α) (f : α → Outcome β) : Outcome β :=
  match x with
  | value a => f a
  | absent => absent
  | panic => panic

instance : Monad Outcome where
  pure := value
  bind := bind

/-- `?` on an option. -/
def ofOption : Option α → Outcome α
  | some a => value a
  | none => absent

/-- `data[i]`. -/
def index (data : List α) (i : Nat) : Outcome α :=
  match data[i]? with
  | some a => value a
  | none => panic

/-- `data[start..stop]`. -/
def range (data : List α) (start stop : Nat) : Outcome (List α) :=
  if start ≤ stop ∧ stop ≤ data.length then value ((data.take stop).drop start) else panic

/-- `data[start..]`. -/
def rangeFrom (data : List α) (start : Nat) : Outcome (List α) :=
  if start ≤ data.length then value (data.drop start) else panic

/-- `data.get(start..stop)?`. -/
def getRange (data : List α) (start stop : Nat) : Outcome (List α) :=
  if start ≤ stop ∧ stop ≤ data.length then value ((data.take stop).drop start) else absent

def add (a b : Nat) : Outcome Nat := if a + b < 2 ^ 64 then value (a + b) else panic
def sub (a b : Nat) : Outcome Nat := if b ≤ a then value (a - b) else panic
def mul (a b : Nat) : Outcome Nat := if a * b < 2 ^ 64 then value (a * b) else panic

/-- `a.checked_add(b)?`. -/
def checkedAdd (a b : Nat) : Outcome Nat := if a + b < 2 ^ 64 then value (a + b) else absent
def checkedSub (a b : Nat) : Outcome Nat := if b ≤ a then value (a - b) else absent
def checkedMul (a b : Nat) : Outcome Nat := if a * b < 2 ^ 64 then value (a * b) else absent

@[simp] theorem value_bind (a : α) (f : α → Outcome β) : (value a >>= f) = f a := rfl

@[simp] theorem absent_bind (f : α → Outcome β) : ((absent : Outcome α) >>= f) = absent := rfl

theorem pure_eq (a : α) : (pure a : Outcome α) = value a := rfl

theorem ofOption_some (a : α) : ofOption (some a) = value a := rfl

theorem ofOption_bind_value (x : Option α) (f : α → β) :
    (ofOption x >>= fun a => value (f a)) = ofOption (x.map f) := by
  cases x <;> rfl

theorem ofOption_ne_panic (x : Option α) : ofOption x ≠ panic := by
  cases x <;> exact nofun

theorem ofOption_eq_value_iff {x : Option α} {a : α} : ofOption x = value a ↔ x = some a := by
  cases x <;> simp [ofOption]

theorem index_of_lt {data : List α} {i : Nat} (inside : i < data.length) (default : α) :
    index data i = value (data.getD i default) := by
  simp [index, inside]

theorem range_of_le {data : List α} {start stop : Nat} (ordered : start ≤ stop)
    (inside : stop ≤ data.length) : range data start stop = value ((data.take stop).drop start) :=
  if_pos ⟨ordered, inside⟩

theorem rangeFrom_of_le {data : List α} {start : Nat} (inside : start ≤ data.length) :
    rangeFrom data start = value (data.drop start) :=
  if_pos inside

theorem add_of_lt {a b : Nat} (fits : a + b < 2 ^ 64) : add a b = value (a + b) := if_pos fits

theorem sub_of_le {a b : Nat} (ordered : b ≤ a) : sub a b = value (a - b) := if_pos ordered

theorem mul_of_lt {a b : Nat} (fits : a * b < 2 ^ 64) : mul a b = value (a * b) := if_pos fits

theorem checkedAdd_of_lt {a b : Nat} (fits : a + b < 2 ^ 64) : checkedAdd a b = value (a + b) :=
  if_pos fits

theorem checkedSub_of_le {a b : Nat} (ordered : b ≤ a) : checkedSub a b = value (a - b) :=
  if_pos ordered

theorem checkedMul_of_lt {a b : Nat} (fits : a * b < 2 ^ 64) : checkedMul a b = value (a * b) :=
  if_pos fits

end Outcome

end FlowSketch.Lib
