import FlowSketch.Source.Runtime.Ring

/-!
# Advancing, in closed form

A query that tracks a log under a span answers every call by moving the span. `advanceToBucket`
closes the windows passed on the way, at most one full ring of them: after a ring of slides every
further window would be empty.
-/

namespace FlowSketch.Source.Runtime
open Lib.Word64 Lib.SlidingLog Source.Core

/-- The window over a span. -/
def windowOf (slide : Nat) (log : List (Nat × Update)) (s : Span) : WindowState (Multiset Update) where
  state := within log s.front (s.stop slide)
  windowStartNanos := s.front
  windowEndNanos := s.stop slide

/-- The windows closed by sliding `k` times. -/
def closings (slide buckets : Nat) (log : List (Nat × Update)) :
    Nat → Span → List (WindowState (Multiset Update))
  | 0, _ => []
  | k + 1, s => windowOf slide log s :: closings slide buckets log k (s.next slide buckets)

@[simp] theorem closings_length (slide buckets : Nat) (log : List (Nat × Update)) (k : Nat)
    (s : Span) : (closings slide buckets log k s).length = k := by
  induction k generalizing s with
  | zero => rfl
  | succ k ih => rw [closings, List.length_cons, ih]

theorem closings_ends (slide buckets : Nat) (log : List (Nat × Update)) (k : Nat) (s : Span) :
    (closings slide buckets log k s).map WindowState.windowEndNanos =
      List.range' (s.stop slide) k slide := by
  induction k generalizing s with
  | zero => rfl
  | succ k ih => rw [closings, List.map_cons, ih, Span.next_stop, List.range'_succ]; rfl

theorem mem_closings {slide buckets : Nat} {log : List (Nat × Update)} {k : Nat} {s : Span}
    {window : WindowState (Multiset Update)} (member : window ∈ closings slide buckets log k s) :
    ∃ i < k, window = windowOf slide log (s.after slide buckets i) := by
  induction k generalizing s with
  | zero => cases member
  | succ k ih =>
    rcases List.mem_cons.mp member with same | later
    · exact ⟨0, Nat.succ_pos k, same⟩
    · obtain ⟨i, inside, same⟩ := ih later
      exact ⟨i + 1, Nat.succ_lt_succ inside, same⟩

/-- Room for `additional` more completed windows. -/
def Fits {σ : Type} (q : RunningQuery σ) (additional : Nat) : Prop :=
  saturatingAdd q.emitted.length additional ≤ q.plan.pendingWindowCapacity

instance {σ : Type} (q : RunningQuery σ) (additional : Nat) : Decidable (Fits q additional) :=
  inferInstanceAs (Decidable (_ ≤ _))

theorem Fits.mono {σ : Type} {q : RunningQuery σ} {m n : Nat} (fits : Fits q n) (le : m ≤ n) :
    Fits q m :=
  (saturatingAdd_mono (Nat.le_refl _) le).trans fits

theorem ensureEmitCapacity_eq {σ : Type} (q : RunningQuery σ) (additional : Nat) :
    q.ensureEmitCapacity additional =
      if Fits q additional then .ok ()
      else .error (RunningQuery.backpressure q.plan.query.name q.emitted.length additional
        q.plan.pendingWindowCapacity) := by
  unfold RunningQuery.ensureEmitCapacity
  dsimp only
  by_cases room : Fits q additional
  · rw [if_pos room, if_neg (Nat.not_lt.mpr room)]
  · rw [if_neg room, if_pos (Nat.not_le.mp room)]

/-- The query holds exactly what the log has of its span. -/
structure OnLog (q : LogQuery) (log : List (Nat × Update)) (first : Nat) (s : Span) : Prop where
  buckets : q.buckets = ring q.plan.slide log s.front s.count
  valid : s.Valid q.plan.slide q.plan.windowBuckets first
  before : ∀ entry ∈ log, entry.1 < s.stop q.plan.slide
  back_lt : s.back q.plan.slide < modulus

theorem OnLog.backStart {q : LogQuery} {log : List (Nat × Update)} {first : Nat} {s : Span}
    (on : OnLog q log first s) : q.backStart = some (s.back q.plan.slide) := by
  rw [RunningQuery.backStart, on.buckets, ring_getLast? on.valid.positive]
  rfl

/-- The query after `k` slides of which `m` closed a window. -/
def advanced (q : LogQuery) (log : List (Nat × Update)) (s : Span) (k m : Nat) : LogQuery :=
  let moved := s.after q.plan.slide q.plan.windowBuckets k
  { q with buckets := ring q.plan.slide log moved.front moved.count
           emitted := q.emitted ++ closings q.plan.slide q.plan.windowBuckets log m s }

theorem OnLog.advanced {q : LogQuery} {log : List (Nat × Update)} {first : Nat} {s : Span}
    (on : OnLog q log first s) (k m : Nat)
    (fits : s.back q.plan.slide + k * q.plan.slide < modulus) :
    OnLog (advanced q log s k m) log first (s.after q.plan.slide q.plan.windowBuckets k) := by
  refine ⟨rfl, on.valid.after k, ?_, ?_⟩
  · intro entry member
    have early := on.before entry member
    show entry.1 < Span.stop q.plan.slide _
    rw [Span.after_stop]
    omega
  · show Span.back q.plan.slide _ < modulus
    rw [on.valid.after_back]
    exact fits

/-! ## Closing windows -/

theorem mergeBuckets_log (merged : Multiset Update) (rest : List (Bucket (Multiset Update))) :
    RunningQuery.mergeBuckets logBackend merged rest =
      .ok (merged + (rest.map Bucket.state).sum) := by
  induction rest generalizing merged with
  | nil => simp [RunningQuery.mergeBuckets, pure, Except.pure]
  | cons bucket rest ih =>
    have step : RunningQuery.mergeBuckets logBackend merged (bucket :: rest) =
        RunningQuery.mergeBuckets logBackend (merged + bucket.state) rest := rfl
    rw [step, ih, List.map_cons, List.sum_cons, add_assoc]

theorem flushWindow_onLog {q : LogQuery} {log : List (Nat × Update)} {first : Nat} {s : Span}
    (on : OnLog q log first s) (room : Fits q 1) (windowEnd : Nat) :
    q.flushWindow logBackend windowEnd = .done { q with emitted := q.emitted ++
      [{ state := within log s.front (s.stop q.plan.slide)
         windowStartNanos := s.front
         windowEndNanos := windowEnd }] } := by
  obtain ⟨n, count⟩ := Nat.exists_eq_succ_of_ne_zero (Nat.pos_iff_ne_zero.mp on.valid.positive)
  have total := @ring_total q.plan.slide log s.front s.count
  have shape := on.buckets
  rw [count, Nat.succ_eq_add_one, ring] at shape total
  rw [List.map_cons, List.sum_cons, ← Nat.succ_eq_add_one, ← count] at total
  unfold RunningQuery.flushWindow
  rw [shape]
  simp only [ensureEmitCapacity_eq, if_pos room, Run.attempt_ok, mergeBuckets_log, total]
  rfl

def freshBucket (startNanos : Nat) : Bucket (Multiset Update) := { startNanos, state := 0 }

theorem newBucket_log (q : LogQuery) (startNanos : Nat) :
    q.newBucket logBackend startNanos = .ok (freshBucket startNanos) := rfl

theorem slideOnce_onLog {q : LogQuery} {log : List (Nat × Update)} {first : Nat} {s : Span}
    (on : OnLog q log first s) (room : Fits q 1) (fits : s.back q.plan.slide + q.plan.slide < modulus) :
    q.slideOnce logBackend = .done (advanced q log s 1 1) := by
  have stop : s.stop q.plan.slide = _ := Span.stop_eq on.valid.positive
  have next : wrappingAdd (s.back q.plan.slide) q.slideNanos = s.stop q.plan.slide := by
    rw [stop]
    exact wrappingAdd_of_lt fits
  have fresh : within log (s.stop q.plan.slide) (s.stop q.plan.slide + q.plan.slide) = 0 :=
    within_after on.before
  -- one bucket more at the back, and one less in front when the ring was full
  have moved : (q.buckets ++ [freshBucket (s.stop q.plan.slide)]).drop
      ((q.buckets ++ [freshBucket (s.stop q.plan.slide)]).length - q.plan.windowBuckets) =
      ring q.plan.slide log (s.next q.plan.slide q.plan.windowBuckets).front
        (s.next q.plan.slide q.plan.windowBuckets).count := by
    have grown : q.buckets ++ [freshBucket (s.stop q.plan.slide)] =
        ring q.plan.slide log s.front (s.count + 1) := by
      rw [ring_succ, on.buckets, freshBucket, ← fresh]
      rfl
    rw [grown, ring_length, Span.next]
    have bounded := on.valid.bounded
    by_cases more : s.count < q.plan.windowBuckets
    · rw [if_pos more, Nat.sub_eq_zero_of_le (by omega)]
      rfl
    · rw [if_neg more, show s.count + 1 - q.plan.windowBuckets = 1 by omega]
      rfl
  unfold RunningQuery.slideOnce
  rw [on.backStart]
  simp only [next, flushWindow_onLog on room, Run.bind_done, newBucket_log, Run.attempt_ok]
  refine congrArg Run.done ?_
  unfold advanced
  simp only [Span.after, closings, ← moved]
  rfl

theorem Fits.emit {q : LogQuery} {log : List (Nat × Update)} {s : Span} {k m : Nat}
    (fits : Fits q (m + k)) : Fits (Runtime.advanced q log s m m) k := by
  unfold Fits Runtime.advanced saturatingAdd at *
  simp only [List.length_append, closings_length]
  omega

theorem advanced_advanced (q : LogQuery) (log : List (Nat × Update)) (s : Span) (k m : Nat) :
    advanced (advanced q log s 1 1) log (s.next q.plan.slide q.plan.windowBuckets) k m =
      advanced q log s (k + 1) (m + 1) := by
  unfold advanced
  simp [Span.after, closings]

theorem slideTimes_onLog (k : Nat) {q : LogQuery} {log : List (Nat × Update)} {first : Nat}
    {s : Span} (on : OnLog q log first s) (room : Fits q k)
    (fits : s.back q.plan.slide + k * q.plan.slide < modulus) :
    RunningQuery.slideTimes logBackend k q = .done (advanced q log s k k) := by
  induction k generalizing q s with
  | zero =>
    unfold RunningQuery.slideTimes advanced
    simp [Span.after, closings, ← on.buckets]
  | succ k ih =>
    rw [Nat.add_mul] at fits
    have stepFits : s.back q.plan.slide + 1 * q.plan.slide < modulus := by omega
    have back : (s.next q.plan.slide q.plan.windowBuckets).back q.plan.slide =
        s.back q.plan.slide + q.plan.slide := Span.next_back on.valid.positive
    rw [RunningQuery.slideTimes, slideOnce_onLog on (room.mono (by omega)) (by omega),
      Run.bind_done]
    rw [ih (on.advanced 1 1 stepFits) (Fits.emit (by rwa [Nat.add_comm]))
      (by show (s.next q.plan.slide q.plan.windowBuckets).back q.plan.slide + k * q.plan.slide < _
          omega)]
    exact congrArg Run.done (advanced_advanced q log s k k)

theorem slideUntil_onLog {target : Nat} (k : Nat) {rounds : Nat} (enough : k ≤ rounds) {q : LogQuery}
    {log : List (Nat × Update)} {first : Nat} {s : Span} (on : OnLog q log first s)
    (room : Fits q k) (reaches : target = s.back q.plan.slide + k * q.plan.slide)
    (fits : target < modulus) :
    RunningQuery.slideUntil logBackend target rounds q = .done (advanced q log s k k) := by
  have slidePos := q.plan.slide_pos
  induction k generalizing q s rounds with
  | zero =>
    have stay : advanced q log s 0 0 = q := by
      unfold advanced
      simp [Span.after, closings, ← on.buckets]
    rw [stay]
    cases rounds with
    | zero => rfl
    | succ rounds =>
      rw [RunningQuery.slideUntil, on.backStart]
      simp only
      rw [if_neg (by omega)]
  | succ k ih =>
    obtain ⟨rounds, rfl⟩ : ∃ n, rounds = n + 1 := ⟨rounds - 1, by omega⟩
    rw [Nat.add_mul] at reaches
    have positive : 0 < q.plan.slide := slidePos
    have back : (s.next q.plan.slide q.plan.windowBuckets).back q.plan.slide =
        s.back q.plan.slide + q.plan.slide := Span.next_back on.valid.positive
    rw [RunningQuery.slideUntil, on.backStart]
    simp only
    rw [if_pos (by omega), slideOnce_onLog on (room.mono (by omega)) (by omega), Run.bind_done]
    have stepFits : s.back q.plan.slide + 1 * q.plan.slide < modulus := by omega
    rw [ih (by omega) (on.advanced 1 1 stepFits) (Fits.emit (by rwa [Nat.add_comm]))
      (by show target = (s.next q.plan.slide q.plan.windowBuckets).back q.plan.slide + k * q.plan.slide
          omega) slidePos]
    exact congrArg Run.done (advanced_advanced q log s k k)

/-! ## The far-future path -/

theorem pushRing_log {target : Nat} (n : Nat) {rounds start : Nat} (enough : n < rounds)
    {q : LogQuery} (reaches : target = start + n * q.plan.slide) (fits : target < modulus) :
    RunningQuery.pushRing logBackend target rounds start q =
      .done { q with buckets := q.buckets ++ ring q.plan.slide [] start (n + 1) } := by
  induction n generalizing q start rounds with
  | zero =>
    obtain ⟨rounds, rfl⟩ : ∃ r, rounds = r + 1 := ⟨rounds - 1, by omega⟩
    rw [RunningQuery.pushRing, newBucket_log, Run.attempt_ok]
    simp only
    rw [if_pos (by omega)]
    rfl
  | succ n ih =>
    obtain ⟨rounds, rfl⟩ : ∃ r, rounds = r + 1 := ⟨rounds - 1, by omega⟩
    have positive : 0 < q.plan.slide := q.plan.slide_pos
    rw [Nat.add_mul] at reaches
    have next : wrappingAdd start q.plan.slide = start + q.plan.slide :=
      wrappingAdd_of_lt (by omega)
    rw [RunningQuery.pushRing, newBucket_log, Run.attempt_ok]
    simp only
    have reachesNext : target = start + q.plan.slide + n * q.plan.slide := by omega
    have rest := ih (q := { q with buckets := q.buckets ++ [freshBucket start] })
      (show n < rounds by omega) reachesNext
    rw [if_neg (by omega), RunningQuery.slideNanos, next, rest]
    simp [ring, freshBucket]

/-- What `rebuild_trailing_ring` builds after a gap is what sliding across the gap would leave. -/
theorem rebuildTrailingRing_onLog {q : LogQuery} {log : List (Nat × Update)} {first : Nat}
    {s moved : Span} (on : OnLog q log first s) (r : LogQuery) (plan : r.plan = q.plan)
    {target k : Nat} (far : q.plan.windowBuckets < k)
    (reaches : target = s.back q.plan.slide + k * q.plan.slide) (fits : target < modulus)
    (movedIs : moved = s.after q.plan.slide q.plan.windowBuckets k) :
    r.rebuildTrailingRing logBackend target =
      .done { r with buckets := ring q.plan.slide log moved.front moved.count } := by
  have positive : 0 < q.plan.slide := q.plan.slide_pos
  have some_bucket := q.plan.buckets_pos
  have valid : moved.Valid q.plan.slide q.plan.windowBuckets first := movedIs ▸ on.valid.after k
  have full : moved.count = q.plan.windowBuckets := movedIs ▸ on.valid.after_full (by omega)
  have back : moved.back q.plan.slide = target := by rw [movedIs, on.valid.after_back, reaches]
  have front := valid.front_eq
  rw [back] at front
  have wide : (q.plan.windowBuckets - 1) * q.plan.slide + 2 * q.plan.slide ≤ k * q.plan.slide := by
    rw [← Nat.add_mul]
    exact Nat.mul_le_mul_right _ (by omega)
  have origin : first ≤ s.back q.plan.slide := on.valid.origin.trans Span.front_le_back
  have stop : s.stop q.plan.slide = _ := Span.stop_eq on.valid.positive
  have quotient : q.plan.windowBuckets - 1 ≤ target / q.plan.slide := by
    rw [Nat.le_div_iff_mul_le positive]
    omega
  have start : target - q.plan.slide * min (q.plan.windowBuckets - 1) (target / q.plan.slide) =
      moved.front := by
    rw [Nat.min_eq_left quotient, Nat.mul_comm, front]
    omega
  have empty : ring q.plan.slide log moved.front q.plan.windowBuckets =
      ring q.plan.slide [] moved.front q.plan.windowBuckets := by
    refine ring_fresh (fun entry member => ?_) _
    have early := on.before entry member
    omega
  have reachesBack : target = moved.front + (q.plan.windowBuckets - 1) * q.plan.slide := by omega
  have same : q.plan.windowBuckets - 1 + 1 = q.plan.windowBuckets := by omega
  obtain ⟨rplan, rbuckets, remitted, rlate⟩ := r
  obtain rfl : rplan = q.plan := plan
  have pushed := pushRing_log (q := { q with buckets := [], emitted := remitted, lateEvents := rlate })
    (q.plan.windowBuckets - 1) (by omega : _ < q.plan.windowBuckets) reachesBack fits
  rw [RunningQuery.rebuildTrailingRing, RunningQuery.slideNanos, RunningQuery.bucketCount, full,
    empty, start, pushed]
  simp only [List.nil_append, same]

/-! ## `advance_to_bucket` -/

/-- The preflight counts exactly the windows that will be closed. -/
theorem windowsClosedByAdvance_onLog {q : LogQuery} {log : List (Nat × Update)} {first : Nat}
    {s : Span} (on : OnLog q log first s) (target : Nat) :
    q.windowsClosedByAdvance target = min (s.stepsTo q.plan.slide target) q.plan.windowBuckets := by
  unfold RunningQuery.windowsClosedByAdvance
  rw [on.backStart]
  simp only
  split
  next behind => rw [Span.stepsTo_behind behind, Nat.zero_min]
  next => split <;> unfold Span.stepsTo RunningQuery.slideNanos RunningQuery.bucketCount at * <;> omega

theorem advanced_zero {q : LogQuery} {log : List (Nat × Update)} {first : Nat} {s : Span}
    (on : OnLog q log first s) : advanced q log s 0 0 = q := by
  unfold advanced
  simp [Span.after, closings, ← on.buckets]

/-- With room for the windows it closes, `advance_to_bucket` succeeds on every path. -/
theorem advanceToBucket_onLog {q : LogQuery} {log : List (Nat × Update)} {first : Nat} {s : Span}
    (on : OnLog q log first s) {target : Nat} (multiple : q.plan.slide ∣ target)
    (fits : target < modulus)
    (room : Fits q (min (s.stepsTo q.plan.slide target) q.plan.windowBuckets)) :
    q.advanceToBucket logBackend target = .done (advanced q log s (s.stepsTo q.plan.slide target)
      (min (s.stepsTo q.plan.slide target) q.plan.windowBuckets)) := by
  have slidePos : 0 < q.plan.slide := q.plan.slide_pos
  unfold RunningQuery.advanceToBucket RunningQuery.ensureCanAdvance
  rw [windowsClosedByAdvance_onLog on, ensureEmitCapacity_eq, if_pos room, Run.attempt_ok,
    on.backStart]
  simp only
  split
  next far =>
    have beyond : q.plan.windowBuckets < s.stepsTo q.plan.slide target := far.2
    have reaches := on.valid.stepsTo_reaches multiple far.1.le
    rw [Nat.min_eq_right beyond.le] at room ⊢
    have decay : s.back q.plan.slide + q.plan.windowBuckets * q.plan.slide < modulus := by
      have shorter := Nat.mul_le_mul_right q.plan.slide beyond.le
      omega
    rw [RunningQuery.bucketCount, slideTimes_onLog _ on room decay, Run.bind_done,
      rebuildTrailingRing_onLog on (advanced q log s q.plan.windowBuckets q.plan.windowBuckets) rfl
        beyond reaches fits rfl]
    rfl
  next near =>
    rcases Nat.lt_or_ge (s.back q.plan.slide) target with ahead | behind
    · have close : s.stepsTo q.plan.slide target ≤ q.plan.windowBuckets :=
        Nat.le_of_not_gt (fun beyond => near ⟨ahead, beyond⟩)
      have reaches := on.valid.stepsTo_reaches multiple ahead.le
      rw [Nat.min_eq_left close] at room ⊢
      exact slideUntil_onLog _ (Nat.div_le_self _ _) on room reaches fits
    · rw [Span.stepsTo_behind behind, Nat.zero_min, Nat.sub_eq_zero_of_le behind, advanced_zero on]
      rfl

theorem advanceToBucket_blocked {σ : Type} {backend : Backend σ} {q : RunningQuery σ} {target : Nat}
    (full : ¬Fits q (q.windowsClosedByAdvance target)) :
    q.advanceToBucket backend target = .failed (.sketch (RunningQuery.backpressure q.plan.query.name
      q.emitted.length (q.windowsClosedByAdvance target) q.plan.pendingWindowCapacity)) q := by
  unfold RunningQuery.advanceToBucket RunningQuery.ensureCanAdvance
  rw [ensureEmitCapacity_eq, if_neg full, Run.attempt_error]

theorem advanceToBucket_room {σ : Type} {backend : Backend σ} {q q' : RunningQuery σ} {target : Nat}
    (taken : q.advanceToBucket backend target = .done q') :
    Fits q (q.windowsClosedByAdvance target) := by
  by_contra full
  rw [advanceToBucket_blocked full] at taken
  cases taken

end FlowSketch.Source.Runtime
