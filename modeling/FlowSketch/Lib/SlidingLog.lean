import Mathlib

/-!
# A log of timed entries under a sliding window

A log lists entries with their times. `within` is what it holds of a half-open interval. A `Span` is
a run of adjacent buckets of one width: it grows to its full number of buckets and then slides. Both
know nothing of how the buckets are stored.
-/

namespace FlowSketch.Lib.SlidingLog

variable {α : Type}

def within (log : List (Nat × α)) (s e : Nat) : Multiset α :=
  ((log.filter (fun entry => s ≤ entry.1 ∧ entry.1 < e)).map Prod.snd : List α)

@[simp] theorem within_nil (s e : Nat) : within ([] : List (Nat × α)) s e = 0 := rfl

@[simp] theorem within_self (log : List (Nat × α)) (s : Nat) : within log s s = 0 := by
  unfold within
  rw [List.filter_eq_nil_iff.mpr]
  · rfl
  · intro entry _
    simp

theorem within_append (log more : List (Nat × α)) (s e : Nat) :
    within (log ++ more) s e = within log s e + within more s e := by
  simp [within]

theorem within_singleton (ts s e : Nat) (a : α) :
    within [(ts, a)] s e = if s ≤ ts ∧ ts < e then {a} else 0 := by
  unfold within
  by_cases inside : s ≤ ts ∧ ts < e <;> simp [inside]

/-- Adjacent intervals split the log between them. -/
theorem within_add (log : List (Nat × α)) {s m e : Nat} (left : s ≤ m) (right : m ≤ e) :
    within log s m + within log m e = within log s e := by
  induction log with
  | nil => rfl
  | cons entry rest ih =>
    have split : entry :: rest = [(entry.1, entry.2)] ++ rest := rfl
    rw [split, within_append, within_append, within_append, ← ih, within_singleton,
      within_singleton, within_singleton]
    by_cases first : entry.1 < m
    · rw [if_neg (show ¬(m ≤ entry.1 ∧ entry.1 < e) by omega), zero_add, ← add_assoc]
      by_cases inside : s ≤ entry.1
      · rw [if_pos ⟨inside, first⟩, if_pos ⟨inside, by omega⟩]
      · rw [if_neg (by omega), if_neg (by omega)]
    · rw [if_neg (show ¬(s ≤ entry.1 ∧ entry.1 < m) by omega), zero_add]
      by_cases inside : entry.1 < e
      · rw [if_pos ⟨by omega, inside⟩, if_pos ⟨by omega, inside⟩, add_left_comm]
      · rw [if_neg (by omega), if_neg (by omega), zero_add, zero_add]

/-- Nothing is logged past the last entry. -/
theorem within_after {log : List (Nat × α)} {s e : Nat} (before : ∀ entry ∈ log, entry.1 < s) :
    within log s e = 0 := by
  unfold within
  rw [List.filter_eq_nil_iff.mpr]
  · rfl
  · intro entry member
    have early := before entry member
    simp
    omega

/-- Entries outside the interval leave no trace in it. -/
theorem within_cons_outside {ts s e : Nat} {a : α} {log : List (Nat × α)}
    (outside : ¬(s ≤ ts ∧ ts < e)) : within (log ++ [(ts, a)]) s e = within log s e := by
  rw [within_append, within_singleton, if_neg outside, add_zero]

/-! ## Spans -/

structure Span where
  front : Nat
  count : Nat
  deriving DecidableEq, Repr

namespace Span

/-- The end of the last bucket. -/
def stop (slide : Nat) (s : Span) : Nat := s.front + s.count * slide

/-- The start of the last bucket. -/
def back (slide : Nat) (s : Span) : Nat := s.front + (s.count - 1) * slide

/-- One step: grow while there is room, then move by one bucket. -/
def next (slide buckets : Nat) (s : Span) : Span :=
  if s.count < buckets then { s with count := s.count + 1 } else { s with front := s.front + slide }

def after (slide buckets : Nat) : Nat → Span → Span
  | 0, s => s
  | k + 1, s => after slide buckets k (s.next slide buckets)

/-- What every span reached from a first bucket satisfies. -/
structure Valid (slide buckets first : Nat) (s : Span) : Prop where
  positive : 0 < s.count
  bounded : s.count ≤ buckets
  multiple : slide ∣ s.front
  origin : first ≤ s.front
  full : s.count = buckets ∨ s.front = first

variable {slide buckets first : Nat} {s : Span}

theorem stop_eq (positive : 0 < s.count) : s.stop slide = s.back slide + slide := by
  obtain ⟨n, same⟩ := Nat.exists_eq_succ_of_ne_zero (Nat.pos_iff_ne_zero.mp positive)
  simp only [stop, back, same, Nat.succ_eq_add_one, Nat.add_sub_cancel, Nat.add_mul]
  omega

theorem Valid.back_dvd (valid : Valid slide buckets first s) : slide ∣ s.back slide :=
  Nat.dvd_add valid.multiple (Nat.dvd_mul_left _ _)

theorem front_le_back : s.front ≤ s.back slide := Nat.le_add_right _ _

theorem next_stop : (s.next slide buckets).stop slide = s.stop slide + slide := by
  unfold next stop
  split
  · simp only [Nat.add_mul]
    omega
  · simp only
    omega

theorem next_positive (positive : 0 < s.count) : 0 < (s.next slide buckets).count := by
  unfold next
  split
  · simp
  · exact positive

theorem next_back (positive : 0 < s.count) :
    (s.next slide buckets).back slide = s.back slide + slide := by
  have before : s.stop slide = _ := stop_eq positive
  have after : (s.next slide buckets).stop slide = _ := stop_eq (next_positive positive)
  rw [next_stop] at after
  omega

theorem Valid.next (valid : Valid slide buckets first s) :
    Valid slide buckets first (s.next slide buckets) := by
  obtain ⟨positive, bounded, multiple, origin, full⟩ := valid
  unfold Span.next
  split
  next room =>
    refine ⟨by simp, by simp; omega, multiple, origin, Or.inr ?_⟩
    exact full.resolve_left (by omega)
  next filled =>
    refine ⟨positive, bounded, Nat.dvd_add multiple (Nat.dvd_refl _), Nat.le_add_right_of_le origin,
      Or.inl ?_⟩
    simp only
    omega

theorem after_succ (k : Nat) :
    s.after slide buckets (k + 1) = (s.after slide buckets k).next slide buckets := by
  induction k generalizing s with
  | zero => rfl
  | succ k ih =>
    rw [after, ih]
    rfl

theorem after_add (m n : Nat) :
    (s.after slide buckets m).after slide buckets n = s.after slide buckets (m + n) := by
  induction m generalizing s with
  | zero => rw [Nat.zero_add]; rfl
  | succ m ih => rw [Nat.add_right_comm, after, ih, after]

theorem Valid.after (valid : Valid slide buckets first s) (k : Nat) :
    Valid slide buckets first (s.after slide buckets k) := by
  induction k with
  | zero => exact valid
  | succ k ih =>
    rw [after_succ]
    exact ih.next

theorem after_stop (k : Nat) : (s.after slide buckets k).stop slide = s.stop slide + k * slide := by
  induction k with
  | zero => simp [after]
  | succ k ih =>
    rw [after_succ, next_stop, ih, Nat.add_mul]
    omega

theorem Valid.after_back (valid : Valid slide buckets first s) (k : Nat) :
    (s.after slide buckets k).back slide = s.back slide + k * slide := by
  have stops : (s.after slide buckets k).stop slide = _ := after_stop k
  rw [stop_eq valid.positive, stop_eq (valid.after k).positive] at stops
  omega

/-- The front is the first bucket ever opened until the window is full, and trails the back by the
window from then on. -/
theorem Valid.front_eq (valid : Valid slide buckets first s) :
    s.front = max first (s.back slide - (buckets - 1) * slide) := by
  obtain ⟨positive, bounded, _, origin, full⟩ := valid
  unfold back
  rcases full with filled | same
  · rw [filled]
    omega
  · have fewer : (s.count - 1) * slide ≤ (buckets - 1) * slide :=
      Nat.mul_le_mul_right _ (by omega)
    omega

/-- A valid span is determined by its last bucket. -/
theorem Valid.eq_of_back {t : Span} (slidePos : 0 < slide) (left : Valid slide buckets first s)
    (right : Valid slide buckets first t) (same : s.back slide = t.back slide) : s = t := by
  have fronts : s.front = t.front := by rw [left.front_eq, right.front_eq, same]
  have counts : (s.count - 1) * slide = (t.count - 1) * slide := by
    unfold back at same
    omega
  have equal := Nat.eq_of_mul_eq_mul_right slidePos counts
  have posS := left.positive
  have posT := right.positive
  cases s
  cases t
  simp only at fronts equal posS posT
  simp only [mk.injEq]
  omega

/-- The number of steps from the last bucket to the one that starts at `target`. -/
def stepsTo (slide : Nat) (s : Span) (target : Nat) : Nat := (target - s.back slide) / slide

theorem Valid.stepsTo_reaches (valid : Valid slide buckets first s) {target : Nat}
    (multiple : slide ∣ target) (ahead : s.back slide ≤ target) :
    target = s.back slide + s.stepsTo slide target * slide := by
  have gap : slide ∣ target - s.back slide := Nat.dvd_sub multiple valid.back_dvd
  rw [stepsTo, Nat.div_mul_cancel gap]
  omega

theorem stepsTo_behind {target : Nat} (behind : target ≤ s.back slide) :
    s.stepsTo slide target = 0 := by
  rw [stepsTo, Nat.sub_eq_zero_of_le behind, Nat.zero_div]

/-- After as many steps as there are buckets the span is full. -/
theorem Valid.after_full (valid : Valid slide buckets first s) {k : Nat} (enough : buckets ≤ k) :
    (s.after slide buckets k).count = buckets := by
  have grows : ∀ k, min buckets (s.count + k) ≤ (s.after slide buckets k).count := by
    intro k
    induction k with
    | zero => exact Nat.min_le_right _ _
    | succ k ih =>
      have bounded := (valid.after k).bounded
      rw [after_succ, Span.next]
      split <;> simp only <;> omega
  have reached := grows k
  have bounded := (valid.after k).bounded
  omega

/-- As many steps as there are buckets leave the whole span behind. -/
theorem Valid.front_past (valid : Valid slide buckets first s) {k : Nat} (enough : buckets ≤ k) :
    s.stop slide ≤ (s.after slide buckets k).front := by
  have full := valid.after_full enough
  have backs := valid.after_back k
  have stop : s.stop slide = _ := stop_eq valid.positive
  have some_bucket := valid.positive.trans_le valid.bounded
  have further := Nat.mul_le_mul_right slide enough
  have split : buckets * slide = (buckets - 1) * slide + slide := by
    rw [← Nat.succ_mul]
    congr 1
    omega
  unfold back at backs
  rw [full] at backs
  unfold back at stop
  omega

end Span

end FlowSketch.Lib.SlidingLog
