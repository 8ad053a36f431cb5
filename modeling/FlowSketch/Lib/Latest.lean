import Mathlib

/-!
# Registers that keep the latest

A register takes a new value unless the one it has is later. After any sequence it holds a latest value
that it was given, and where equal keys mean equal values only the set of given values matters.
-/

namespace FlowSketch.Lib.Latest

variable {α K : Type} [LinearOrder K] (key : α → K)

/-- Keep the old value only if its key is greater. -/
def newest (old : Option α) (new : α) : Option α :=
  match old with
  | none => some new
  | some a => if key new < key a then some a else some new

def latest (given : List α) : Option α := given.foldl (newest key) none

/-- The register holds one of the values with the greatest key. -/
structure IsLatest (given : List α) (held : Option α) : Prop where
  empty : held = none → given = []
  member : ∀ a, held = some a → a ∈ given
  greatest : ∀ a, held = some a → ∀ b ∈ given, key b ≤ key a

variable {key}

theorem IsLatest.newest {given : List α} {held : Option α} (is : IsLatest key given held) (new : α) :
    IsLatest key (given ++ [new]) (newest key held new) := by
  cases held with
  | none =>
    rw [is.empty rfl]
    refine ⟨nofun, ?_, ?_⟩
    · rintro a ⟨⟩
      exact List.mem_singleton_self _
    · rintro a ⟨⟩ b member
      rw [List.mem_singleton.mp member]
  | some a =>
    rw [Latest.newest]
    split
    next less =>
      refine ⟨nofun, ?_, ?_⟩
      · rintro _ ⟨⟩
        exact List.mem_append_left _ (is.member a rfl)
      · rintro _ ⟨⟩ b member
        rcases List.mem_append.mp member with old | last
        · exact is.greatest a rfl b old
        · rw [List.mem_singleton.mp last]
          exact less.le
    next not_less =>
      refine ⟨nofun, ?_, ?_⟩
      · rintro _ ⟨⟩
        exact List.mem_append_right _ (List.mem_singleton_self _)
      · rintro _ ⟨⟩ b member
        rcases List.mem_append.mp member with old | last
        · exact (is.greatest a rfl b old).trans (not_lt.mp not_less)
        · rw [List.mem_singleton.mp last]

theorem IsLatest.foldl {given : List α} {held : Option α} (is : IsLatest key given held)
    (more : List α) : IsLatest key (given ++ more) (more.foldl (Latest.newest key) held) := by
  induction more generalizing given held with
  | nil => rwa [List.append_nil]
  | cons a rest ih =>
    have later := ih (is.newest a)
    rwa [List.append_assoc, List.singleton_append] at later

theorem latest_isLatest (given : List α) : IsLatest key given (latest key given) :=
  (⟨fun _ => rfl, nofun, nofun⟩ : IsLatest key ([] : List α) none).foldl given

/-- Two registers that were given the same values, in any order and any number of times. -/
theorem IsLatest.eq {given given' : List α} {held held' : Option α} (is : IsLatest key given held)
    (is' : IsLatest key given' held') (same : ∀ a, a ∈ given ↔ a ∈ given')
    (consistent : ∀ a ∈ given, ∀ b ∈ given, key a = key b → a = b) : held = held' := by
  cases held with
  | none =>
    cases held' with
    | none => rfl
    | some b =>
      have member := (same b).mpr (is'.member b rfl)
      rw [is.empty rfl] at member
      cases member
  | some a =>
    have mine := is.member a rfl
    cases held' with
    | none =>
      have member := (same a).mp mine
      rw [is'.empty rfl] at member
      cases member
    | some b =>
      have theirs := (same b).mpr (is'.member b rfl)
      have le := is.greatest a rfl b theirs
      have ge := is'.greatest b rfl a ((same a).mp mine)
      rw [consistent a mine b theirs (le_antisymm ge le)]

/-- The key of a register never falls. -/
theorem foldl_newest_le {held : Option α} {a : α} (holds : held = some a) (more : List α) :
    ∃ b, more.foldl (newest key) held = some b ∧ key a ≤ key b := by
  induction more generalizing held a with
  | nil => exact ⟨a, holds, le_rfl⟩
  | cons new rest ih =>
    subst holds
    rw [List.foldl_cons, newest]
    split
    · exact ih rfl
    next not_less =>
      obtain ⟨b, result, le⟩ := @ih (some new) new rfl
      exact ⟨b, result, (not_lt.mp not_less).trans le⟩

end FlowSketch.Lib.Latest
