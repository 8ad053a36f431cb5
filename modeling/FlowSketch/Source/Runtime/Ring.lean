import Mathlib
import FlowSketch.Lib.SlidingLog
import FlowSketch.Source.Runtime.Engine

/-!
# The ring of buckets as a log under a window

`logBackend` takes the multiset of its updates for the state of a bucket. A ring of such buckets is
determined by the log of everything applied and by its span, and every path of `advance_to_bucket`
moves the span: slide by slide, or past a gap, where the trailing windows decay and the ring is
rebuilt empty.
-/

namespace FlowSketch.Source.Runtime
open Lib.Word64 Lib.SlidingLog Source.Core

def logBackend : Backend (Multiset Update) where
  build _ := .ok 0
  apply state update := some (update ::ₘ state)
  mergeFrom self other := .ok (self + other)
  updateCount := Multiset.card

abbrev LogQuery := RunningQuery (Multiset Update)

/-- `count` adjacent buckets from `front`, each holding what the log has of its interval. -/
def ring (slide : Nat) (log : List (Nat × Update)) : Nat → Nat → List (Bucket (Multiset Update))
  | _, 0 => []
  | front, count + 1 =>
    { startNanos := front, state := within log front (front + slide) } ::
      ring slide log (front + slide) count

section Ring

variable {slide : Nat} {log : List (Nat × Update)}

@[simp] theorem ring_length (front count : Nat) : (ring slide log front count).length = count := by
  induction count generalizing front with
  | zero => rfl
  | succ count ih => rw [ring, List.length_cons, ih]

theorem ring_starts (front count : Nat) :
    (ring slide log front count).map Bucket.startNanos = List.range' front count slide := by
  induction count generalizing front with
  | zero => rfl
  | succ count ih => rw [ring, List.map_cons, ih, List.range'_succ]

theorem ring_succ (front count : Nat) :
    ring slide log front (count + 1) = ring slide log front count ++
      [{ startNanos := front + count * slide
         state := within log (front + count * slide) (front + count * slide + slide) }] := by
  induction count generalizing front with
  | zero => simp [ring]
  | succ count ih =>
    rw [ring, ih, ring, List.cons_append]
    have shift : front + slide + count * slide = front + (count + 1) * slide := by
      rw [Nat.add_mul]
      omega
    rw [shift]

theorem ring_getLast? {front count : Nat} (positive : 0 < count) :
    (ring slide log front count).getLast?.map Bucket.startNanos =
      some (front + (count - 1) * slide) := by
  obtain ⟨n, rfl⟩ := Nat.exists_eq_succ_of_ne_zero (Nat.pos_iff_ne_zero.mp positive)
  rw [Nat.succ_eq_add_one, ring_succ]
  simp

/-- The buckets of a ring partition the window. -/
theorem ring_total (front count : Nat) :
    ((ring slide log front count).map Bucket.state).sum =
      within log front (front + count * slide) := by
  induction count generalizing front with
  | zero => simp [ring]
  | succ count ih =>
    have shift : front + slide + count * slide = front + (count + 1) * slide := by
      rw [Nat.add_mul]
      omega
    rw [ring, List.map_cons, List.sum_cons, ih, shift, within_add]
    · exact Nat.le_add_right _ _
    · rw [← shift]
      exact Nat.le_add_right _ _

/-- A ring past everything logged is empty. -/
theorem ring_fresh {front : Nat} (before : ∀ entry ∈ log, entry.1 < front) (count : Nat) :
    ring slide log front count = ring slide [] front count := by
  induction count generalizing front with
  | zero => rfl
  | succ count ih =>
    rw [ring, ring, within_after before, within_nil, ih]
    intro entry member
    exact Nat.lt_add_right slide (before entry member)

theorem ring_getElem? {front count i : Nat} (inside : i < count) :
    (ring slide log front count)[i]? =
      some { startNanos := front + i * slide
             state := within log (front + i * slide) (front + i * slide + slide) } := by
  induction count generalizing front i with
  | zero => exact absurd inside (Nat.not_lt_zero i)
  | succ count ih =>
    rw [ring]
    cases i with
    | zero => simp
    | succ i =>
      have shift : front + slide + i * slide = front + (i + 1) * slide := by
        rw [Nat.add_mul]
        omega
      rw [List.getElem?_cons_succ, ih (by omega), shift]

/-- Logging one more entry changes exactly the bucket whose interval holds it. -/
theorem ring_apply {front count i ts : Nat} {update : Update} (inside : i < count)
    (low : front + i * slide ≤ ts) (high : ts < front + i * slide + slide) :
    (ring slide log front count).set i
        { startNanos := front + i * slide
          state := update ::ₘ within log (front + i * slide) (front + i * slide + slide) } =
      ring slide (log ++ [(ts, update)]) front count := by
  induction count generalizing front i with
  | zero => exact absurd inside (Nat.not_lt_zero i)
  | succ count ih =>
    rw [ring, ring]
    cases i with
    | zero =>
      simp only [Nat.zero_mul, Nat.add_zero] at low high ⊢
      rw [List.set_cons_zero, within_append, within_singleton, if_pos ⟨low, high⟩,
        ← Multiset.singleton_add, Multiset.add_comm {update}]
      congr 1
      clear ih inside
      -- the later buckets start past this entry
      have later : ∀ start, front + slide ≤ start → ∀ n,
          ring slide log start n = ring slide (log ++ [(ts, update)]) start n := by
        intro start past n
        induction n generalizing start with
        | zero => rfl
        | succ n ih =>
          rw [ring, ring, within_cons_outside (by omega), ih _ (by omega)]
      exact later _ (Nat.le_refl _) count
    | succ i =>
      have shift : front + slide + i * slide = front + (i + 1) * slide := by
        rw [Nat.add_mul]
        omega
      rw [List.set_cons_succ, within_cons_outside (by rw [← shift] at low; omega), ← shift]
      rw [ih (by omega) (by omega) (by omega)]

end Ring

end FlowSketch.Source.Runtime
