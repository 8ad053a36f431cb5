import FlowSketch.Source.Runtime.Backpressure

/-!
# The far-future path against the loop it replaces

`slowLoop` is the `while` loop of `advance_to_bucket` run to its end, each window taken out as it
closes so that the pending capacity never stops it. Over a gap of more than a ring the fast path
leaves the same ring, all buckets fresh, and emits the first ring of the loop's windows; the windows
it skips hold nothing.
-/

namespace FlowSketch.Source.Runtime
open Lib.Word64 Lib.SlidingLog Lib.Lists Source.Core

variable {σ : Type}

namespace RunningQuery

/-- One iteration of the loop with the pending windows set aside. -/
def slideTaken (backend : Backend σ) (q : RunningQuery σ) : Run (RunningQuery σ) :=
  (slideOnce backend { q with emitted := [] }).map
    (fun slid => { slid with emitted := q.emitted ++ slid.emitted })

def slowLoop (backend : Backend σ) (target : Nat) : Nat → RunningQuery σ → Run (RunningQuery σ)
  | 0, q => .done q
  | rounds + 1, q =>
    match q.backStart with
    | none => .failed .panic q
    | some back =>
      if back < target then (q.slideTaken backend).bind (slowLoop backend target rounds) else .done q

end RunningQuery

/-! ## On the log -/

theorem closings_add (slide buckets : Nat) (log : List (Nat × Update)) (m n : Nat) (s : Span) :
    closings slide buckets log (m + n) s =
      closings slide buckets log m s ++ closings slide buckets log n (s.after slide buckets m) := by
  induction m generalizing s with
  | zero => simp [closings, Span.after]
  | succ m ih => rw [Nat.add_right_comm, closings, ih, closings, Span.after, List.cons_append]

theorem slideTaken_onLog {q : LogQuery} {log : List (Nat × Update)} {first : Nat} {s : Span}
    (on : OnLog q log first s) (fits : s.back q.plan.slide + q.plan.slide < modulus) :
    q.slideTaken logBackend = .done (advanced q log s 1 1) := by
  have emptied : OnLog { q with emitted := [] } log first s :=
    ⟨on.buckets, on.valid, on.before, on.back_lt⟩
  have room : Fits ({ q with emitted := [] } : LogQuery) 1 := by
    have capacity := q.plan.pending_eq
    have some_bucket := q.plan.buckets_pos
    unfold Fits saturatingAdd
    simp only [List.length_nil]
    omega
  rw [RunningQuery.slideTaken, slideOnce_onLog emptied room fits]
  simp [Run.map, advanced]

theorem slowLoop_onLog {target : Nat} (k : Nat) {rounds : Nat} (enough : k ≤ rounds) {q : LogQuery}
    {log : List (Nat × Update)} {first : Nat} {s : Span} (on : OnLog q log first s)
    (reaches : target = s.back q.plan.slide + k * q.plan.slide) (fits : target < modulus) :
    RunningQuery.slowLoop logBackend target rounds q = .done (advanced q log s k k) := by
  have slidePos : 0 < q.plan.slide := q.plan.slide_pos
  induction k generalizing q s rounds with
  | zero =>
    rw [advanced_zero on]
    cases rounds with
    | zero => rfl
    | succ rounds =>
      rw [RunningQuery.slowLoop, on.backStart]
      simp only
      rw [if_neg (by omega)]
  | succ k ih =>
    obtain ⟨rounds, rfl⟩ : ∃ n, rounds = n + 1 := ⟨rounds - 1, by omega⟩
    rw [Nat.add_mul] at reaches
    have back : (s.next q.plan.slide q.plan.windowBuckets).back q.plan.slide =
        s.back q.plan.slide + q.plan.slide := Span.next_back on.valid.positive
    have stepFits : s.back q.plan.slide + 1 * q.plan.slide < modulus := by omega
    rw [RunningQuery.slowLoop, on.backStart]
    simp only
    rw [if_pos (by omega), slideTaken_onLog on (by omega), Run.bind_done]
    rw [ih (by omega) (on.advanced 1 1 stepFits)
      (by show target = (s.next q.plan.slide q.plan.windowBuckets).back q.plan.slide + k * q.plan.slide
          omega) slidePos]
    exact congrArg Run.done (advanced_advanced q log s k k)

/-! ## On sketches -/

namespace RunningQuery.Follows

variable {backend : Backend σ} {plan : Plan} {q : RunningQuery σ} {l : LogQuery}

theorem slideTaken (total : Total backend plan.sketch) (follows : q.Follows backend plan l) :
    Run.Agree (RunningQuery.Follows backend plan) (q.slideTaken backend)
      (l.slideTaken logBackend) := by
  have emptied : RunningQuery.Follows backend plan { q with emitted := [] } { l with emitted := [] } :=
    ⟨follows.ownPlan, follows.logPlan, follows.buckets, .nil, follows.late⟩
  refine (slideOnce total emptied).map (fun slid slidLog related => ?_)
  exact ⟨related.ownPlan, related.logPlan, related.buckets,
    List.rel_append follows.emitted related.emitted, related.late⟩

theorem slowLoop (total : Total backend plan.sketch) (target rounds : Nat)
    (follows : q.Follows backend plan l) :
    Run.Agree (RunningQuery.Follows backend plan) (RunningQuery.slowLoop backend target rounds q)
      (RunningQuery.slowLoop logBackend target rounds l) := by
  induction rounds generalizing q l with
  | zero => exact .done follows
  | succ rounds ih =>
    unfold RunningQuery.slowLoop
    rw [follows.backStart]
    cases l.backStart with
    | none => exact .failed .panic follows
    | some back =>
      simp only
      split
      · exact (slideTaken total follows).bind (fun _ _ related => ih related)
      · exact .done follows

/-- While there is room, setting the pending windows aside changes nothing. -/
theorem slideTaken_eq (backend : Backend σ) {q : RunningQuery σ} (room : Fits q 1) :
    q.slideTaken backend = q.slideOnce backend := by
  obtain ⟨plan, buckets, emitted, lateEvents⟩ := q
  have aside : Fits (⟨plan, buckets, [], lateEvents⟩ : RunningQuery σ) 1 := by
    have capacity := plan.pending_eq
    have some_bucket := plan.buckets_pos
    unfold Fits saturatingAdd
    simp only [List.length_nil]
    omega
  unfold RunningQuery.slideTaken RunningQuery.slideOnce RunningQuery.flushWindow
  simp only [RunningQuery.backStart, RunningQuery.slideNanos, RunningQuery.newBucket,
    RunningQuery.bucketCount, ensureEmitCapacity_eq, if_pos room, if_pos aside, Run.attempt_ok]
  cases buckets with
  | nil => simp [Run.map]
  | cons front rest =>
    cases ((front :: rest).getLast?.map Bucket.startNanos) with
    | none => simp [Run.map]
    | some last =>
      cases merging : RunningQuery.mergeBuckets backend front.state rest with
      | error error => simp [merging, Run.map]
      | ok merged =>
        cases built : backend.build plan.sketch <;> simp [merging, built, Except.map, Run.map]

/-- The first iterations of the loop are the slides of the fast path. -/
theorem slowLoop_slides (total : Total backend plan.sketch) {target : Nat} (n rounds : Nat)
    (follows : q.Follows backend plan l) {log : List (Nat × Update)} {first : Nat} {s : Span}
    (on : OnLog l log first s) (room : Fits l n)
    (before : s.back l.plan.slide + n * l.plan.slide ≤ target) (word : target < modulus) :
    RunningQuery.slowLoop backend target (n + rounds) q =
      (RunningQuery.slideTimes backend n q).bind (RunningQuery.slowLoop backend target rounds) := by
  induction n generalizing q l s with
  | zero => rw [Nat.zero_add]; rfl
  | succ n ih =>
    have slidePos : 0 < l.plan.slide := l.plan.slide_pos
    rw [Nat.add_mul] at before
    have back : (s.next l.plan.slide l.plan.windowBuckets).back l.plan.slide =
        s.back l.plan.slide + l.plan.slide := Span.next_back on.valid.positive
    have oneRoom : Fits l 1 := room.mono (by omega)
    have slid := slideOnce total follows
    rw [slideOnce_onLog on oneRoom (by omega)] at slid
    obtain ⟨q', stepped, related⟩ := slid.of_done
    rw [Nat.add_right_comm, RunningQuery.slowLoop, follows.backStart, on.backStart]
    simp only
    rw [if_pos (by omega), slideTaken_eq backend ((follows.fits 1).mpr oneRoom),
      RunningQuery.slideTimes, stepped, Run.bind_done, Run.bind_done]
    refine ih related (on.advanced 1 1 (by omega)) (Fits.emit (by rwa [Nat.add_comm])) ?_
    show (s.next l.plan.slide l.plan.windowBuckets).back l.plan.slide + n * l.plan.slide ≤ target
    omega

/-- Queries that follow the same fresh ring have the same buckets. -/
theorem buckets_eq {q' : RunningQuery σ} {l' : LogQuery} (follows : q.Follows backend plan l)
    (follows' : q'.Follows backend plan l') (same : l.buckets = l'.buckets)
    (fresh : ∀ bucket ∈ l.buckets, bucket.state = 0) : q.buckets = q'.buckets := by
  have left := follows.buckets
  have right := follows'.buckets
  rw [← same] at right
  generalize q.buckets = bs, q'.buckets = bs', l.buckets = ls at left right fresh
  induction left generalizing bs' with
  | nil => cases right; rfl
  | @cons b m bs ls head tail ih =>
    cases right with
    | @cons b' _ bs' _ head' tail' =>
      have built := head.state
      have built' := head'.state
      rw [fresh m List.mem_cons_self] at built built'
      have sameState := Except.ok.inj (built.fresh.symm.trans built'.fresh)
      have sameStart := head.start.trans head'.start.symm
      have sameBucket : b = b' := by
        cases b
        cases b'
        simp_all
      rw [sameBucket, ih _ tail' (fun bucket member => fresh bucket (List.mem_cons_of_mem _ member))]

end RunningQuery.Follows

/-! ## What is emitted on the way -/

theorem pushRing_emitted {backend : Backend σ} {target rounds start : Nat} {q q' : RunningQuery σ}
    (pushed : RunningQuery.pushRing backend target rounds start q = .done q') :
    q'.emitted = q.emitted := by
  induction rounds generalizing start q with
  | zero =>
    cases pushed
    rfl
  | succ rounds ih =>
    unfold RunningQuery.pushRing at pushed
    cases opened : q.newBucket backend start with
    | error error =>
      rw [opened] at pushed
      cases pushed
    | ok bucket =>
      rw [opened, Run.attempt_ok] at pushed
      simp only at pushed
      split at pushed
      · cases pushed
        rfl
      · have kept := ih pushed
        exact kept

theorem rebuildTrailingRing_emitted {backend : Backend σ} {target : Nat} {q q' : RunningQuery σ}
    (rebuilt : q.rebuildTrailingRing backend target = .done q') : q'.emitted = q.emitted := by
  have pushed := pushRing_emitted rebuilt
  exact pushed

theorem slowLoop_emitted {backend : Backend σ} {target rounds : Nat} {q slow : RunningQuery σ}
    (looped : RunningQuery.slowLoop backend target rounds q = .done slow) :
    ∃ more, slow.emitted = q.emitted ++ more := by
  induction rounds generalizing q with
  | zero =>
    cases looped
    exact ⟨[], (List.append_nil _).symm⟩
  | succ rounds ih =>
    unfold RunningQuery.slowLoop at looped
    split at looped
    · cases looped
    · split at looped
      · cases slid : RunningQuery.slideOnce backend { q with emitted := [] } with
        | failed fault stopped =>
          rw [RunningQuery.slideTaken, slid] at looped
          cases looped
        | done next =>
          rw [RunningQuery.slideTaken, slid] at looped
          obtain ⟨more, emitted⟩ := ih looped
          exact ⟨next.emitted ++ more, by rw [emitted, List.append_assoc]⟩
      · cases looped
        exact ⟨[], (List.append_nil _).symm⟩

/-- Beyond a ring `advance_to_bucket` slides a ring of times and rebuilds. -/
theorem advanceToBucket_far {backend : Backend σ} {q : RunningQuery σ} {back target : Nat}
    (last : q.backStart = some back) (room : Fits q (q.windowsClosedByAdvance target))
    (far : q.plan.windowBuckets < (target - back) / q.plan.slide) :
    q.advanceToBucket backend target =
      (RunningQuery.slideTimes backend q.plan.windowBuckets q).bind
        (fun slid => slid.rebuildTrailingRing backend target) := by
  have ahead : target > back := by
    by_contra behind
    rw [Nat.sub_eq_zero_of_le (by omega), Nat.zero_div] at far
    omega
  unfold RunningQuery.advanceToBucket RunningQuery.ensureCanAdvance
  rw [ensureEmitCapacity_eq, if_pos room, Run.attempt_ok, last]
  exact if_pos ⟨ahead, far⟩

/-! ## The two paths -/

/-- The update counter counts, as a word. -/
def Counts (backend : Backend σ) (sketch : PhysicalSketch) : Prop :=
  ∀ state seen, Represents backend sketch state seen →
    backend.updateCount state = Multiset.card seen % modulus

/-- What the fast path leaves, compared with what the loop leaves. -/
structure FastForwards (backend : Backend σ) (q fast slow : RunningQuery σ) (target : Nat) : Prop where
  starts : fast.buckets.map Bucket.startNanos =
    List.range' (target - (q.plan.windowBuckets - 1) * q.plan.slide) q.plan.windowBuckets
      q.plan.slide
  fresh : ∀ bucket ∈ fast.buckets, backend.build q.plan.sketch = .ok bucket.state
  /-- From here on the two are one query. -/
  later : { fast with emitted := [] } = { slow with emitted := [] }
  emits : fast.emitted.length = q.emitted.length + q.plan.windowBuckets
  skips : ∃ skipped, slow.emitted = fast.emitted ++ skipped ∧
    ∀ window ∈ skipped, backend.updateCount window.state = 0
  nonempty : fast.emitted.filter (fun window => backend.updateCount window.state ≠ 0) =
    slow.emitted.filter (fun window => backend.updateCount window.state ≠ 0)

/-- The ring and the skipped windows of the far-future path, on the log. -/
theorem advanced_past_ring {q : LogQuery} {log : List (Nat × Update)} {first : Nat} {s : Span}
    (on : OnLog q log first s) {k : Nat} (far : q.plan.windowBuckets < k) :
    (∀ m, ∀ bucket ∈ (advanced q log s k m).buckets, bucket.state = 0) ∧
    (∀ m, (advanced q log s k m).buckets.map Bucket.startNanos =
      List.range' (s.back q.plan.slide + k * q.plan.slide -
        (q.plan.windowBuckets - 1) * q.plan.slide) q.plan.windowBuckets q.plan.slide) ∧
    ∃ skipped, (advanced q log s k k).emitted =
        (advanced q log s k q.plan.windowBuckets).emitted ++ skipped ∧
      ∀ window ∈ skipped, window.state = 0 := by
  have past := on.valid.front_past far.le
  have full := on.valid.after_full far.le
  have back := on.valid.after_back k
  refine ⟨?_, ?_, ?_⟩
  · intro m bucket member
    obtain ⟨i, inside⟩ := List.getElem?_of_mem member
    have bound := (List.getElem?_eq_some_iff.mp inside).1
    simp only [advanced, ring_length] at bound inside
    rw [ring_getElem? bound, Option.some.injEq] at inside
    rw [← inside]
    refine within_after (fun entry logged => ?_)
    have early := on.before entry logged
    omega
  · intro m
    simp only [advanced, ring_starts, full]
    congr 1
    unfold Span.back at back
    rw [full] at back
    unfold Span.back
    omega
  · obtain ⟨r, rfl⟩ := Nat.exists_eq_add_of_lt far
    refine ⟨closings q.plan.slide q.plan.windowBuckets log (r + 1)
      (s.after q.plan.slide q.plan.windowBuckets q.plan.windowBuckets), ?_, ?_⟩
    · simp only [advanced, Nat.add_assoc, closings_add, List.append_assoc]
    · intro window member
      obtain ⟨i, _, rfl⟩ := mem_closings member
      have later := on.valid.front_past (Nat.le_add_right q.plan.windowBuckets i)
      refine within_after (fun entry logged => ?_)
      have early := on.before entry logged
      rw [Span.after_add]
      omega

theorem Sound.fastForward {backend : Backend σ} {q : RunningQuery σ} (sound : Sound backend q)
    (counts : Counts backend q.plan.sketch) {back target : Nat} (last : q.backStart = some back)
    (multiple : q.plan.slide ∣ target) (word : target < modulus)
    (far : q.plan.windowBuckets < (target - back) / q.plan.slide) {fast : RunningQuery σ}
    (taken : q.advanceToBucket backend target = .done fast) :
    ∃ slow, RunningQuery.slowLoop backend target (target - back) q = .done slow ∧
      FastForwards backend q fast slow target := by
  obtain ⟨total, l, t, follows, tracks⟩ := sound
  have logPlan := follows.logPlan
  have lastLog := follows.backStart.symm.trans last
  unfold Tracks at tracks
  split at tracks
  next => simp [RunningQuery.backStart, tracks.1] at lastLog
  next _ first s _ =>
    have on : OnLog l t.log first s := tracks
    rw [on.backStart, Option.some.injEq] at lastLog
    have room : Fits l (min (s.stepsTo l.plan.slide target) l.plan.windowBuckets) := by
      rw [← windowsClosedByAdvance_onLog on, ← follows.windowsClosedByAdvance, ← follows.fits]
      exact advanceToBucket_room taken
    obtain ⟨_, _, _, _⟩ := l
    obtain rfl := logPlan
    have beyond : q.plan.windowBuckets < s.stepsTo q.plan.slide target := by
      rw [Span.stepsTo, lastLog]
      exact far
    have ahead : s.back q.plan.slide ≤ target := by
      by_contra behind
      rw [Span.stepsTo_behind (by omega)] at beyond
      omega
    have reaches : target = s.back q.plan.slide + s.stepsTo q.plan.slide target * q.plan.slide :=
      on.valid.stepsTo_reaches multiple ahead
    have fastLog := advanceToBucket_onLog on multiple word room
    have slowLog := slowLoop_onLog (s.stepsTo q.plan.slide target) (Nat.div_le_self _ _) on
      reaches word
    rw [Nat.min_eq_right beyond.le] at fastLog room
    have decay : s.back q.plan.slide + q.plan.windowBuckets * q.plan.slide ≤ target := by
      have shorter := Nat.mul_le_mul_right q.plan.slide beyond.le
      omega
    have fastAgree := RunningQuery.Follows.advanceToBucket total target follows
    rw [taken, fastLog] at fastAgree
    have slowAgree := RunningQuery.Follows.slowLoop total target (target - back) follows
    rw [← lastLog, slowLog] at slowAgree
    obtain ⟨slow, slowDone, slowFollows⟩ := slowAgree.of_done
    -- the slides the two paths share
    obtain ⟨rounds, enough⟩ : ∃ rounds, target - s.back q.plan.slide = q.plan.windowBuckets + rounds :=
      Nat.exists_eq_add_of_le (beyond.le.trans (Nat.div_le_self _ _))
    have shared := slowDone
    rw [enough, RunningQuery.Follows.slowLoop_slides total _ _ follows on room decay word] at shared
    have rebuilt := taken
    rw [advanceToBucket_far last (advanceToBucket_room taken) far] at rebuilt
    have sameEmissions : ∃ more, slow.emitted = fast.emitted ++ more := by
      cases slid : RunningQuery.slideTimes backend q.plan.windowBuckets q with
      | failed fault stopped =>
        rw [slid] at rebuilt
        cases rebuilt
      | done middle =>
        rw [slid, Run.bind_done] at rebuilt shared
        rw [rebuildTrailingRing_emitted rebuilt]
        exact slowLoop_emitted shared
    cases fastAgree with
    | done fastFollows =>
      obtain ⟨empty, starts, skipped, split, skippedEmpty⟩ := advanced_past_ring on beyond
      obtain ⟨more, appended⟩ := sameEmissions
      have moreEmpty : ∀ window ∈ more, backend.updateCount window.state = 0 := by
        intro window member
        have all := slowFollows.emitted
        rw [appended, split] at all
        have aligned := List.forall₂_drop fast.emitted.length all
        rw [List.drop_left, fastFollows.emitted.length_eq, List.drop_left] at aligned
        obtain ⟨logWindow, inside, related⟩ := exists_right_of_mem aligned member
        rw [counts _ _ related.state, skippedEmpty logWindow inside]
        rfl
      have sameBuckets := fastFollows.buckets_eq slowFollows rfl (empty _)
      refine ⟨slow, by rw [← lastLog]; exact slowDone, ?_, ?_, ?_, ?_, ⟨more, appended, moreEmpty⟩, ?_⟩
      · rw [fastFollows.starts, starts, ← reaches]
      · intro bucket member
        obtain ⟨logBucket, inside, related⟩ := exists_right_of_mem fastFollows.buckets member
        have unfed := related.state
        rw [empty _ logBucket inside] at unfed
        exact unfed.fresh
      · have samePlan := fastFollows.ownPlan.trans slowFollows.ownPlan.symm
        have sameLate := fastFollows.late.trans slowFollows.late.symm
        rw [samePlan, sameBuckets, sameLate]
      · rw [fastFollows.emitted.length_eq]
        simp [advanced, follows.emitted.length_eq]
      · have none_left : more.filter (fun window => backend.updateCount window.state ≠ 0) = [] := by
          rw [List.filter_eq_nil_iff]
          intro window member
          simp [moreEmpty window member]
        rw [appended, List.filter_append, none_left, List.append_nil]

end FlowSketch.Source.Runtime
