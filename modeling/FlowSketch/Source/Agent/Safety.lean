import FlowSketch.Source.Agent.Barrier

/-!
# Safety of the checkpoints

Whatever the order of events, messages and checkpoints: the coordinator finds every lane's answer and
every current window where it expects them, and publishes each window once, whole.
-/

namespace FlowSketch.Source.Agent
open Lib Lib.Word64 Lib.Lists Source.Core Source.Runtime Source.Runtime.Session

def System.lanes (s : LogSystem) : List Log := s.workers.map Worker.session

/-- All timestamps that arrived are small. -/
def System.Bounded (bound : Nat) (s : LogSystem) : Prop :=
  ∀ w ∈ s.workers, ∀ event ∈ w.accepted, event.ts ≤ bound

/-- What holds between any two steps, the last checkpoint having been at `level`. -/
structure Barrier (display : Ipv6Text) (plans : List Plan) (opening bound level : Nat) (s : LogSystem) :
    Prop where
  someLane : s.workers ≠ []
  queues : ∀ w ∈ s.workers, w.Queues
  stands : ∀ lane w, s.workers[lane]? = some w → Stands display plans opening level s.phase lane w
  closed : s.phase.finishing = true → ∀ w ∈ s.workers, w.dataOpen = false
  drained : Gathered PauseAck.lane (fun _ (w : LogWorker) => w.dataOpen = false) s.workers
    (s.phase.drainedAcks ++ s.drained)
  acks : Gathered PauseAck.lane (AckFits s.phase) s.workers (s.phase.pauseAcks ++ s.acks)
  reports : Gathered WorkerReport.lane (ReportFits display plans opening level s.phase) s.workers
    (s.phase.heard ++ s.reports)
  published : Published display plans opening (s.phase.mark level) s.lanes s.published.flatten
  level_le : level ≤ bound
  watermark_le : ∀ ts ∈ s.phase.watermark, ts.toNat ≤ bound

variable {display : Ipv6Text} {plans : List Plan} {opening bound level : Nat} {lane batchSize : Nat}
  {capacities : List Nat} {s s' : LogSystem}

/-! ## Workers -/

/-- Phases that differ in what the coordinator has told one lane. -/
structure Counts (display : Ipv6Text) (plans : List Plan) (opening level : Nat)
    (phase phase' : Phase (Multiset Update)) (lane : Nat) : Prop where
  mark : phase'.mark level = phase.mark level
  finishing : phase'.finishing = phase.finishing
  drainedAcks : phase'.drainedAcks = phase.drainedAcks
  pauseAcks : phase'.pauseAcks = phase.pauseAcks
  heard : phase'.heard = phase.heard
  watermark : phase'.watermark = phase.watermark
  acks : AckFits phase' = AckFits phase
  reports : ReportFits display plans opening level phase' = ReportFits display plans opening level phase
  others : ∀ i w, i ≠ lane → Stands display plans opening level phase i w →
    Stands display plans opening level phase' i w

theorem Counts.refl (phase : Phase (Multiset Update)) (lane : Nat) :
    Counts display plans opening level phase phase lane :=
  ⟨rfl, rfl, rfl, rfl, rfl, rfl, rfl, rfl, fun _ _ _ => id⟩

/-- One lane moves on. -/
theorem Barrier.moves (barrier : Barrier display plans opening bound level s)
    {phase : Phase (Multiset Update)} (counts : Counts display plans opening level s.phase phase lane)
    {w w' : LogWorker} {message : Option (Message (Multiset Update))}
    (worker : s.workers[lane]? = some w)
    (moves : Moves display plans opening level phase lane w w' message) :
    Barrier display plans opening bound level (({ s with phase }.set lane w').send message) := by
  have inside : lane < s.workers.length := (List.getElem?_eq_some_iff.mp worker).1
  have someLane : s.workers.set lane w' ≠ [] := by
    intro none
    rw [List.set_eq_nil_iff] at none
    exact barrier.someLane none
  have queues : ∀ v ∈ s.workers.set lane w', v.Queues := fun v member =>
    (List.mem_or_eq_of_mem_set member).elim (barrier.queues v) fun same => same ▸ moves.queues
  have stands : ∀ i v, (s.workers.set lane w')[i]? = some v →
      Stands display plans opening level phase i v := by
    intro i v found
    by_cases same : i = lane
    · rw [same, List.getElem?_set_self inside] at found
      rw [same, ← Option.some.inj found]
      exact moves.stands
    · rw [List.getElem?_set_ne (Ne.symm same)] at found
      exact counts.others i v same (barrier.stands i v found)
  have closed : phase.finishing = true → ∀ v ∈ s.workers.set lane w', v.dataOpen = false := by
    intro finishing v member
    rw [counts.finishing] at finishing
    rcases List.mem_or_eq_of_mem_set member with old | rfl
    · exact barrier.closed finishing v old
    · exact moves.closed (barrier.closed finishing w (List.mem_of_getElem? worker))
  have oldDrained := barrier.drained
  have oldAcks := barrier.acks
  have oldReports := barrier.reports
  rw [← counts.drainedAcks] at oldDrained
  rw [← counts.pauseAcks, ← counts.acks] at oldAcks
  rw [← counts.heard, ← counts.reports] at oldReports
  have drained := oldDrained.set worker fun _ => moves.closed
  have acks := oldAcks.set worker moves.acks
  have reports := oldReports.set worker moves.reports
  have published : Published display plans opening (phase.mark level)
      ((s.workers.set lane w').map Worker.session) s.published.flatten := by
    have kept := moves.kept
    rw [counts.mark] at kept ⊢
    rw [List.map_set]
    refine barrier.published.extend (forall₂_set_right (fun _ _ _ _ => rfl) ?_ kept)
    rw [System.lanes, List.getElem?_map, worker]
    rfl
  have watermark_le : ∀ ts ∈ phase.watermark, ts.toNat ≤ bound := counts.watermark ▸ barrier.watermark_le
  cases message with
  | none =>
    exact ⟨someLane, queues, stands, closed, drained, acks, reports, published, barrier.level_le,
      watermark_le⟩
  | some message =>
    cases message with
    | drained ack =>
      obtain ⟨sender, isOpen, shut⟩ := moves.drains ack rfl
      refine ⟨someLane, queues, stands, closed, ?_, acks, reports, published, barrier.level_le,
        watermark_le⟩
      refine oldDrained.send worker (fun _ ended => ?_) sender shut
      rw [isOpen] at ended
      cases ended
    | paused ack =>
      obtain ⟨sender, fits, first⟩ := moves.answers ack rfl
      exact ⟨someLane, queues, stands, closed, drained, oldAcks.send worker first sender fits, reports,
        published, barrier.level_le, watermark_le⟩
    | report report =>
      obtain ⟨sender, fits, first⟩ := moves.tells report rfl
      exact ⟨someLane, queues, stands, closed, drained, acks, oldReports.send worker first sender fits,
        published, barrier.level_le, watermark_le⟩

/-- Timestamps that a worker has seen have arrived. -/
theorem Barrier.seen_le (barrier : Barrier display plans opening bound level s)
    (bounded : s.Bounded bound) {w : LogWorker} (member : w ∈ s.workers) {ts : UInt64}
    (seen : ts ∈ w.maxTimestampNanos) : ts.toNat ≤ bound := by
  have queues := barrier.queues w member
  obtain ⟨event, processed, rfl⟩ := queues.seen ts seen
  exact bounded w member event (queues.accepted ▸ List.mem_append_left _ processed)

theorem Barrier.work (barrier : Barrier display plans opening bound level s)
    (fits : ∀ plan ∈ plans, bound + plan.slide < modulus) {w w' : LogWorker}
    {message : Option (Message (Multiset Update))} (worker : s.workers[lane]? = some w)
    (step : WorkerStep logBackend display batchSize lane w w' message) :
    Barrier display plans opening bound level ((s.set lane w').send message) := by
  have member := List.mem_of_getElem? worker
  refine barrier.moves (.refl _ _) worker ((barrier.stands lane w worker).step (barrier.queues w member) ?_ step)
  intro _ plan listed
  have top : topOf level s.phase.watermark ≤ bound := by
    cases mark : s.phase.watermark with
    | none => exact barrier.level_le
    | some ts => exact Nat.max_le.mpr ⟨barrier.level_le, barrier.watermark_le ts mark⟩
  have below : levelMark (topOf level s.phase.watermark) plan ≤ bound := by
    refine le_trans ?_ top
    exact Nat.sub_le _ _
  exact (Nat.add_le_add_right below _).trans_lt (fits plan listed)

/-! ## The coordinator -/

theorem checkLanes_range (message : Nat → Nat → String) (first count : Nat) :
    checkLanes message first (List.range' first count) = .ok () := by
  induction count generalizing first with
  | zero => rfl
  | succ count ih =>
    rw [List.range'_succ, checkLanes, if_neg (not_not.mpr rfl)]
    exact ih (first + 1)

/-- All lanes have answered, each once. -/
theorem checkLanes_gathered {α : Type} {number : α → Nat} {Fits : α → LogWorker → Prop}
    {workers : List LogWorker} {answers : List α} (gathered : Gathered number Fits workers answers)
    (all : answers.length = workers.length) (message : Nat → Nat → String) :
    checkLanes message 0 ((sortByLane number answers).map number) = .ok () := by
  rw [sortByLane, gathered.sorted_numbers all, List.range_eq_range']
  exact checkLanes_range message 0 _

/-- The coordinator reads on or changes its phase; the workers and what is published stay. -/
theorem Barrier.turn (barrier : Barrier display plans opening bound level s) (same : s'.workers = s.workers)
    (entries : s'.published = s.published) (mark : s'.phase.mark level = s.phase.mark level)
    (stands : ∀ lane w, s.workers[lane]? = some w → Stands display plans opening level s.phase lane w →
      Stands display plans opening level s'.phase lane w)
    (closed : s'.phase.finishing = true → ∀ w ∈ s.workers, w.dataOpen = false)
    (drained : (s'.phase.drainedAcks ++ s'.drained).Sublist (s.phase.drainedAcks ++ s.drained))
    (acks : Gathered PauseAck.lane (AckFits s'.phase) s.workers (s'.phase.pauseAcks ++ s'.acks))
    (reports : Gathered WorkerReport.lane (ReportFits display plans opening level s'.phase) s.workers
      (s'.phase.heard ++ s'.reports))
    (watermark_le : ∀ ts ∈ s'.phase.watermark, ts.toNat ≤ bound) :
    Barrier display plans opening bound level s' where
  someLane := same ▸ barrier.someLane
  queues := same ▸ barrier.queues
  stands := fun lane w found => by
    rw [same] at found
    exact stands lane w found (barrier.stands lane w found)
  closed := same ▸ closed
  drained := same ▸ barrier.drained.sublist drained
  acks := same ▸ acks
  reports := same ▸ reports
  published := by
    rw [mark, entries, System.lanes, same]
    exact barrier.published
  level_le := barrier.level_le
  watermark_le := watermark_le

theorem Barrier.begin (barrier : Barrier display plans opening bound level s) (idle : s.phase = .idle)
    (finish : Bool) :
    Barrier display plans opening bound level
      { s with phase := if finish then .draining [] else .pausing false 0 [] } := by
  obtain ⟨workers, phase, drained, acks, reports, published⟩ := s
  cases idle
  have silent : acks = [] := barrier.acks.eq_nil fun _ _ _ _ => id
  have unheard : reports = [] := barrier.reports.eq_nil fun _ _ _ _ => id
  subst silent unheard
  cases finish with
  | true =>
    exact barrier.turn rfl rfl rfl (fun _ _ _ => id) nofun (.refl _) (.nil _ _ _) (.nil _ _ _) nofun
  | false =>
    refine barrier.turn rfl rfl rfl (fun lane w _ stands => .inl ?_) nofun (.refl _) (.nil _ _ _)
      (.nil _ _ _) nofun
    exact stands

theorem Barrier.allDrained (barrier : Barrier display plans opening bound level s)
    {drained : List PauseAck} (draining : s.phase = .draining drained)
    (all : drained.length = s.workers.length) :
    Barrier display plans opening bound level { s with phase := afterDrain drained } := by
  obtain ⟨workers, phase, waiting, acks, reports, published⟩ := s
  cases draining
  have silent : acks = [] := barrier.acks.eq_nil fun _ _ _ _ => id
  have unheard : reports = [] := barrier.reports.eq_nil fun _ _ _ _ => id
  subst silent unheard
  have heard := barrier.drained.sublist (List.sublist_append_left drained waiting)
  have after : (afterDrain drained : Phase (Multiset Update)) = .pausing true 0 [] := by
    rw [afterDrain, checkLanes_gathered heard all]
  rw [after]
  refine barrier.turn rfl rfl rfl (fun lane w _ stands => .inl ?_) (fun _ w member => ?_)
    (List.sublist_append_right ..) (.nil _ _ _) (.nil _ _ _) nofun
  · exact stands
  · obtain ⟨_, _, ended⟩ := heard.each all w member
    exact ended

/-- Telling a worker something. -/
theorem Moves.tell {phase : Phase (Multiset Update)} {w : LogWorker} {control : WorkerControl}
    (queues : w.Queues) (stands : Stands display plans opening level phase lane (tell control w)) :
    Moves display plans opening level phase lane w (tell control w) none where
  stands := stands
  queues := ⟨queues.accepted, queues.closed, queues.seen⟩
  kept := fun _ _ => rfl
  closed := id
  acks := fun ack fits => by cases phase <;> exact fits
  reports := fun report fits => by cases phase <;> exact fits
  drains := nofun
  answers := nofun
  tells := nofun

theorem lt_succ_iff_of_ne {i sent : Nat} (different : i ≠ sent) : i < sent + 1 ↔ i < sent := by
  omega

theorem Barrier.sendPause (barrier : Barrier display plans opening bound level s) {finish : Bool}
    {sent : Nat} {acknowledgements : List PauseAck} {w : LogWorker}
    (pausing : s.phase = .pausing finish sent acknowledgements) (worker : s.workers[sent]? = some w) :
    Barrier display plans opening bound level
      { s.set sent (tell .pause w) with phase := .pausing finish (sent + 1) acknowledgements } := by
  have counts : Counts display plans opening level s.phase (.pausing finish (sent + 1) acknowledgements)
      sent := by
    rw [pausing]
    refine ⟨rfl, rfl, rfl, rfl, rfl, rfl, rfl, rfl, fun i v different stands => ?_⟩
    simp only [Stands, lt_succ_iff_of_ne different] at stands ⊢
    exact stands
  refine barrier.moves counts worker (.tell (barrier.queues w (List.mem_of_getElem? worker)) ?_)
  have stood := barrier.stands sent w worker
  rw [pausing] at stood
  rcases stood with ⟨active, at_level, quiet⟩ | ⟨_, _, _, below⟩
  · rw [if_neg (lt_irrefl _)] at quiet
    refine .inl ⟨active, at_level, ?_⟩
    show w.control ++ [.pause] = _
    rw [quiet, if_pos (Nat.lt_succ_self sent)]
    rfl
  · exact absurd below (lt_irrefl _)

theorem Barrier.sendCheckpoint (barrier : Barrier display plans opening bound level s)
    {finish includeCurrent : Bool} {watermark : Option UInt64} {sent : Nat}
    {reports : List (WorkerReport (Multiset Update))} {w : LogWorker}
    (reporting : s.phase = .reporting finish includeCurrent watermark sent reports)
    (worker : s.workers[sent]? = some w) :
    Barrier display plans opening bound level
      { s.set sent (tell (.checkpoint watermark includeCurrent finish) w) with
          phase := .reporting finish includeCurrent watermark (sent + 1) reports } := by
  have counts : Counts display plans opening level s.phase
      (.reporting finish includeCurrent watermark (sent + 1) reports) sent := by
    rw [reporting]
    refine ⟨rfl, rfl, rfl, rfl, rfl, rfl, rfl, rfl, fun i v different stands => ?_⟩
    simp only [Stands, lt_succ_iff_of_ne different] at stands ⊢
    exact stands
  refine barrier.moves counts worker (.tell (barrier.queues w (List.mem_of_getElem? worker)) ?_)
  have stood := barrier.stands sent w worker
  rw [reporting] at stood
  rcases stood with ⟨paused, at_level, covers, quiet⟩ | ⟨below, _⟩
  · rw [if_neg (lt_irrefl _)] at quiet
    refine .inl ⟨paused, at_level, covers, ?_⟩
    show w.control ++ [.checkpoint watermark includeCurrent finish] = _
    rw [quiet, if_pos (Nat.lt_succ_self sent)]
    rfl
  · exact absurd below (lt_irrefl _)

theorem watermarkOf_covers {acknowledgements : List PauseAck} {ack : PauseAck}
    (member : ack ∈ acknowledgements) : Covers (watermarkOf acknowledgements) ack.maxTimestampNanos := by
  intro ts seen
  have listed : ts ∈ acknowledgements.filterMap PauseAck.maxTimestampNanos :=
    List.mem_filterMap.mpr ⟨ack, member, seen⟩
  cases most : watermarkOf acknowledgements with
  | none =>
    rw [watermarkOf, List.max?_eq_none_iff] at most
    rw [most] at listed
    cases listed
  | some mark => exact ⟨mark, rfl, (List.max?_eq_some_iff.mp most).2 ts listed⟩

theorem Barrier.allPaused (barrier : Barrier display plans opening bound level s)
    (bounded : s.Bounded bound) {finish : Bool} {sent : Nat} {acknowledgements : List PauseAck}
    (includeCurrent : Bool) (pausing : s.phase = .pausing finish sent acknowledgements)
    (all : acknowledgements.length = s.workers.length) :
    Barrier display plans opening bound level
      { s with phase := afterPause finish includeCurrent acknowledgements } := by
  have stamps := fun w member ts => @Barrier.seen_le _ _ _ _ _ _ barrier bounded w member ts
  obtain ⟨workers, phase, drained, waiting, reports, published⟩ := s
  cases pausing
  obtain rfl : waiting = [] := barrier.acks.rest_nil all
  have unheard : reports = [] := barrier.reports.eq_nil fun _ _ _ _ => id
  subst unheard
  have heard := barrier.acks
  rw [List.append_nil] at heard
  change Gathered PauseAck.lane _ workers acknowledgements at heard
  have after : (afterPause finish includeCurrent acknowledgements : Phase (Multiset Update)) =
      .reporting finish includeCurrent (watermarkOf acknowledgements) 0 [] := by
    rw [afterPause, checkLanes_gathered heard all]
  rw [after]
  refine barrier.turn rfl rfl rfl (fun lane w found stands => ?_) barrier.closed (.refl _) (.nil _ _ _)
    (.nil _ _ _) fun ts mark => ?_
  · obtain ⟨ack, member, paused, seen⟩ := heard.each all w (List.mem_of_getElem? found)
    rcases stands with ⟨active, _⟩ | ⟨_, at_level, quiet, _⟩
    · exact absurd paused active.not_paused
    · exact .inl ⟨paused, at_level, seen ▸ watermarkOf_covers member, quiet⟩
  · have listed := List.max?_mem mark
    obtain ⟨ack, member, held⟩ := List.mem_filterMap.mp listed
    obtain ⟨w, found, _, seen⟩ := heard.fits ack member
    exact stamps w (List.mem_of_getElem? found) ts (seen ▸ held)

theorem reportMark_mono {level top : Nat} (finish : Bool) (le : level ≤ top) (plan : Plan) :
    levelMark level plan ≤ reportMark finish top plan :=
  (levelMark_mono le plan).trans (Nat.le_add_right _ _)

/-- A checkpoint is published, and the level moves to its watermark. -/
theorem Barrier.allReported (barrier : Barrier display plans opening bound level s)
    (names : (plans.map (fun plan => plan.query.name)).Nodup) {finish includeCurrent : Bool}
    {watermark : Option UInt64} {sent : Nat} {reports : List (WorkerReport (Multiset Update))}
    (reporting : s.phase = .reporting finish includeCurrent watermark sent reports)
    (all : reports.length = s.workers.length) :
    Barrier display plans opening bound (topOf level watermark)
      (afterReports logBackend plans s finish includeCurrent reports) := by
  have marks := barrier.watermark_le
  obtain ⟨workers, phase, drained, acks, waiting, published⟩ := s
  cases reporting
  obtain rfl : waiting = [] := barrier.reports.rest_nil all
  have silent : acks = [] := barrier.acks.eq_nil fun _ _ _ _ => id
  subst silent
  have heard := barrier.reports
  rw [List.append_nil] at heard
  change Gathered WorkerReport.lane _ workers reports at heard
  -- every worker has gone on
  have answered : ∀ (lane : Nat) (w : LogWorker), workers[lane]? = some w → w.control = [] ∧
      if finish then w.Done plans opening (topOf level watermark)
      else w.Active ∧ w.At display plans opening (topOf level watermark) := by
    intro lane w found
    obtain ⟨report, _, notPaused, _⟩ := heard.each all w (List.mem_of_getElem? found)
    rcases barrier.stands lane w found with ⟨paused, _⟩ | ⟨_, quiet, gone⟩
    · exact absurd paused notPaused
    · exact ⟨quiet, gone⟩
  have opened : ∀ session ∈ workers.map Worker.session, session.Opened plans opening := by
    intro session listed
    obtain ⟨w, member, rfl⟩ := List.mem_map.mp listed
    obtain ⟨lane, _, found⟩ := List.mem_iff_getElem.mp member
    have gone := (answered lane w (found ▸ List.getElem?_eq_getElem _)).2
    cases finish with
    | true => exact gone.opened
    | false => exact gone.2.isOpened
  have beside : List.Forall₂ (fun report session =>
      Report display plans opening level (topOf level watermark) finish report session)
      (sortByLane WorkerReport.lane reports) (workers.map Worker.session) := by
    rw [List.forall₂_map_right_iff]
    exact (heard.beside all).imp fun _ _ fits => fits.2
  obtain ⟨publication, done, totals⟩ := @reports_published _ _ _ _ _ _ _ includeCurrent _ names opened beside
  have after : afterReports logBackend plans ⟨workers, .reporting finish includeCurrent watermark sent
      reports, drained, [], [], published⟩ finish includeCurrent reports =
      { workers, phase := if finish then .finished else .idle, drained, acks := [], reports := [],
        published := published ++ [publication.completed] } := by
    simp only [afterReports, checkLanes_gathered heard all, done]
  have reported : List.Forall₂ (fun report session => Reported display (levelMark level)
      (reportMark finish (topOf level watermark)) report session)
      ((sortByLane WorkerReport.lane reports).map WorkerReport.completed) (workers.map Worker.session) := by
    rw [List.forall₂_map_left_iff]
    exact beside.imp fun _ _ holds => holds.completed
  have grown := barrier.published.checkpoint names opened reported
    (fun plan _ => reportMark_mono finish (le_topOf level watermark) plan) totals
  have entries : (published ++ [publication.completed]).flatten = published.flatten ++ publication.completed := by
    rw [List.flatten_append, List.flatten_singleton]
  have level_le : topOf level watermark ≤ bound := by
    cases mark : watermark with
    | none => exact barrier.level_le
    | some ts => exact Nat.max_le.mpr ⟨barrier.level_le, marks ts mark⟩
  rw [after]
  cases finish with
  | true =>
    refine ⟨barrier.someLane, barrier.queues, fun lane w found => (answered lane w found).2, barrier.closed,
      barrier.drained, .nil _ _ _, .nil _ _ _, ?_, level_le, nofun⟩
    rw [entries]
    exact grown
  | false =>
    refine ⟨barrier.someLane, barrier.queues, fun lane w found => ?_, nofun, barrier.drained, .nil _ _ _,
      .nil _ _ _, ?_, level_le, nofun⟩
    · obtain ⟨quiet, active, at_level⟩ := answered lane w found
      exact ⟨active, at_level, quiet⟩
    · rw [entries]
      exact grown

/-! ## Runs -/

theorem System.Bounded.before {w w' : LogWorker} (bounded : (s.set lane w').Bounded bound)
    (worker : s.workers[lane]? = some w) (more : ∀ event ∈ w.accepted, event ∈ w'.accepted) :
    s.Bounded bound := by
  intro v member event accepted
  obtain ⟨i, inside, rfl⟩ := List.getElem_of_mem member
  have inside' : i < (s.workers.set lane w').length := by rwa [List.length_set]
  by_cases same : i = lane
  · subst same
    have here := Option.some.inj ((List.getElem?_eq_getElem inside).symm.trans worker)
    refine bounded w' (List.mem_iff_getElem.mpr ⟨i, inside', List.getElem_set_self _⟩) event ?_
    exact more event (here ▸ accepted)
  · refine bounded _ (List.mem_iff_getElem.mpr ⟨i, inside', ?_⟩) event accepted
    exact List.getElem_set_ne (Ne.symm same) _

/-- What has arrived stays noted. -/
theorem Step.bounded {backend : Backend (Multiset Update)}
    (step : Step backend display plans batchSize capacities s s') (bounded : s'.Bounded bound) :
    s.Bounded bound := by
  cases step with
  | arrive event worker _ _ _ => exact bounded.before worker fun _ => List.mem_append_left _
  | hangUp worker => exact bounded.before worker fun _ => id
  | @work lane w w' message worker step =>
    have same : w'.accepted = w.accepted := by cases step <;> rfl
    have moved : (s.set lane w').Bounded bound := by
      cases message with
      | none => exact bounded
      | some message => cases message <;> exact bounded
    exact moved.before worker (same ▸ fun _ => id)
  | @sendPause finish sent acknowledgements w _ worker =>
    have moved : (s.set sent (tell .pause w)).Bounded bound := bounded
    exact moved.before worker fun _ => id
  | @sendCheckpoint finish includeCurrent watermark sent reports w _ worker =>
    have moved : (s.set sent (tell (.checkpoint watermark includeCurrent finish) w)).Bounded bound := bounded
    exact moved.before worker fun _ => id
  | allReported _ _ =>
    unfold afterReports at bounded
    dsimp only at bounded
    split at bounded
    · exact bounded
    · split at bounded <;> exact bounded
  | begin | hearDrained | allDrained | hearPause | allPaused | hearReport => exact bounded

/-- One step. -/
theorem Barrier.step (barrier : Barrier display plans opening bound level s)
    (names : (plans.map (fun plan => plan.query.name)).Nodup)
    (fits : ∀ plan ∈ plans, bound + plan.slide < modulus) (bounded : s.Bounded bound)
    (step : Step logBackend display plans batchSize capacities s s') :
    ∃ level', Barrier display plans opening bound level' s' := by
  cases step with
  | @arrive lane capacity w event worker room connected space =>
    have queues := barrier.queues w (List.mem_of_getElem? worker)
    refine ⟨level, barrier.moves (.refl _ _) worker (.queue (barrier.stands lane w worker) ?_)⟩
    refine ⟨?_, fun shut => ?_, queues.seen⟩
    · show w.accepted ++ [event] = w.processed ++ (w.events ++ [event])
      rw [queues.accepted, List.append_assoc]
    · rw [(queues.closed shut).2.1] at connected
      cases connected
  | @hangUp lane w worker =>
    have queues := barrier.queues w (List.mem_of_getElem? worker)
    refine ⟨level, barrier.moves (.refl _ _) worker (.queue (barrier.stands lane w worker) ?_)⟩
    refine ⟨queues.accepted, fun shut => ?_, queues.seen⟩
    obtain ⟨nothing, _, still⟩ := queues.closed shut
    exact ⟨nothing, rfl, still⟩
  | work worker step => exact ⟨level, barrier.work fits worker step⟩
  | begin idle finish => exact ⟨level, barrier.begin idle finish⟩
  | @hearDrained drained rest ack draining short next =>
    refine ⟨level, barrier.turn rfl rfl (by rw [draining]; rfl) (fun lane w _ stands => ?_) nofun ?_ ?_ ?_
      nofun⟩
    · rw [draining] at stands
      exact stands
    · rw [draining, next]
      show ((drained ++ [ack]) ++ rest).Sublist (drained ++ (ack :: rest))
      rw [List.append_assoc]
      exact .refl _
    · have acks := barrier.acks
      rw [draining] at acks
      exact acks
    · have reports := barrier.reports
      rw [draining] at reports
      exact reports
  | allDrained draining all => exact ⟨level, barrier.allDrained draining all⟩
  | sendPause pausing worker => exact ⟨level, barrier.sendPause pausing worker⟩
  | @hearPause finish sent acknowledgements rest ack pausing all short next =>
    have closed := barrier.closed
    have drained := barrier.drained
    have acks := barrier.acks
    have reports := barrier.reports
    rw [pausing] at closed drained acks reports
    refine ⟨level, barrier.turn rfl rfl (by rw [pausing]; rfl) (fun lane w _ stands => ?_) closed ?_ ?_
      reports nofun⟩
    · rw [pausing] at stands
      exact stands
    · rw [pausing]
      exact .refl _
    · rw [next] at acks
      show Gathered _ _ _ ((acknowledgements ++ [ack]) ++ rest)
      rw [List.append_assoc]
      exact acks
  | allPaused includeCurrent pausing all =>
    exact ⟨level, barrier.allPaused bounded includeCurrent pausing all⟩
  | sendCheckpoint reporting worker => exact ⟨level, barrier.sendCheckpoint reporting worker⟩
  | @hearReport finish includeCurrent watermark sent reports rest report reporting all short next =>
    have closed := barrier.closed
    have marks := barrier.watermark_le
    have acks := barrier.acks
    have heard := barrier.reports
    rw [reporting] at closed marks acks heard
    refine ⟨level, barrier.turn rfl rfl (by rw [reporting]; rfl) (fun lane w _ stands => ?_) closed ?_ acks ?_
      marks⟩
    · rw [reporting] at stands
      exact stands
    · rw [reporting]
      exact .refl _
    · rw [next] at heard
      show Gathered _ _ _ ((reports ++ [report]) ++ rest)
      rw [List.append_assoc]
      exact heard
  | allReported reporting all => exact ⟨_, barrier.allReported names reporting all⟩

theorem Barrier.start {laneCount totalChannelCapacity : Nat} {initialWatermark : UInt64}
    (built : newSystem logBackend display plans laneCount batchSize totalChannelCapacity
      initialWatermark = some s) (first : initialWatermark.toNat ≤ bound) :
    (plans.map (fun plan => plan.query.name)).Nodup ∧
      Barrier display plans initialWatermark.toNat bound initialWatermark.toNat s := by
  unfold newSystem at built
  split at built
  · cases built
  next accepted =>
  obtain ⟨worker, made, rfl⟩ := Option.map_eq_some_iff.mp built
  unfold newWorker at made
  split at made
  next engine fresh =>
    obtain ⟨session, opened, rfl⟩ := Option.map_eq_some_iff.mp made
    obtain ⟨moved, done, rfl⟩ := observe_some.mp opened
    obtain ⟨names, _, _⟩ := QueryEngine.new_ok.mp fresh
    have only : ∀ w ∈ List.replicate laneCount
        (freshWorker ((Session.start engine).after (.advanceTo initialWatermark) moved)),
        w = freshWorker ((Session.start engine).after (.advanceTo initialWatermark) moved) :=
      fun w member => List.eq_of_mem_replicate member
    refine ⟨names, fun none => ?_, fun w member => ?_, fun lane w found => ?_, nofun, .nil _ _ _, .nil _ _ _,
      .nil _ _ _, .start .., first, nofun⟩
    · exact accepted (.inl ((List.replicate_eq_nil_iff _).mp none))
    · rw [only w member]
      exact ⟨rfl, nofun, nofun⟩
    · rw [only w (List.mem_of_getElem? found)]
      exact ⟨.inl rfl, AtLevel.start fresh done, rfl⟩
  next => cases made

theorem Reached.barrier {laneCount totalChannelCapacity : Nat} {initialWatermark : UInt64}
    (fits : ∀ plan ∈ plans, bound + plan.slide < modulus) (first : initialWatermark.toNat ≤ bound)
    (reached : Reached logBackend display plans laneCount batchSize totalChannelCapacity
      initialWatermark s) (bounded : s.Bounded bound) :
    (plans.map (fun plan => plan.query.name)).Nodup ∧
      ∃ level, Barrier display plans initialWatermark.toNat bound level s := by
  induction reached with
  | start built =>
    obtain ⟨names, barrier⟩ := Barrier.start built first
    exact ⟨names, _, barrier⟩
  | step _ step ih =>
    have before := step.bounded bounded
    obtain ⟨names, level, barrier⟩ := ih before
    exact ⟨names, barrier.step names fits before step⟩

/-- Every lane has passed what is published. -/
theorem Stands.backs {phase : Phase (Multiset Update)} {w : LogWorker}
    (stands : Stands display plans opening level phase lane w) :
    ∀ c ∈ w.session.clocks, ∃ back ∈ c.back, levelMark level c.plan ≤ back ∧
      (phase = .finished → back = levelMark level c.plan) := by
  have running : ∀ {m}, level ≤ m → w.At display plans opening m → ∀ c ∈ w.session.clocks,
      ∃ back ∈ c.back, levelMark level c.plan ≤ back := by
    intro m le at_level c member
    obtain ⟨_, back, stood, low, _⟩ := at_level.opened c member
    exact ⟨back, stood, (levelMark_mono le c.plan).trans low⟩
  have done : ∀ {m}, level ≤ m → w.Done plans opening m → ∀ c ∈ w.session.clocks,
      ∃ back ∈ c.back, levelMark level c.plan ≤ back := fun le gone c member =>
    ⟨_, gone.backs c member, levelMark_mono le c.plan⟩
  intro c member
  cases phase with
  | idle =>
    obtain ⟨back, stood, low⟩ := running le_rfl stands.2.1 c member
    exact ⟨back, stood, low, nofun⟩
  | draining drained =>
    obtain ⟨back, stood, low⟩ := running le_rfl stands.2.1 c member
    exact ⟨back, stood, low, nofun⟩
  | pausing finish sent acknowledgements =>
    rcases stands with ⟨_, at_level, _⟩ | ⟨_, at_level, _⟩
    all_goals
      obtain ⟨back, stood, low⟩ := running le_rfl at_level c member
      exact ⟨back, stood, low, nofun⟩
  | reporting finish includeCurrent watermark sent reports =>
    obtain ⟨back, stood, low⟩ : ∃ back ∈ c.back, levelMark level c.plan ≤ back := by
      rcases stands with ⟨_, at_level, _⟩ | ⟨_, _, answered⟩
      · exact running le_rfl at_level c member
      · cases finish with
        | true => exact done (le_topOf level watermark) answered c member
        | false => exact running (le_topOf level watermark) answered.2 c member
    exact ⟨back, stood, low, nofun⟩
  | finished => exact ⟨_, Worker.Done.backs stands c member, le_rfl, fun _ => rfl⟩
  | failed error => exact stands.elim

/-- In every run in which no engine call fails the coordinator never gives up: each lane answers each
request once, in turn, and the current windows of all lanes agree. Up to the level of the last checkpoint,
which every lane has passed, each window with updates is published once, with what all lanes took in
there before they closed it. After the final checkpoint every event that arrived was processed, and the
level is where each query has its last bucket. -/
theorem checkpoints_safe {laneCount totalChannelCapacity : Nat} {initialWatermark : UInt64}
    (reached : Reached logBackend display plans laneCount batchSize totalChannelCapacity
      initialWatermark s)
    (fits : ∀ plan ∈ plans, bound + plan.slide < modulus) (first : initialWatermark.toNat ≤ bound)
    (bounded : s.Bounded bound) :
    (∀ error, s.phase ≠ .failed error) ∧
    (∀ w ∈ s.workers, ¬w.Confused ∧ w.accepted = w.processed ++ w.events) ∧
    (∀ r ∈ s.phase.heard ++ s.reports, ∀ r' ∈ s.phase.heard ++ s.reports, ∀ window ∈ r.current,
      ∀ window' ∈ r'.current, window.queryName = window'.queryName → boundsOf window = boundsOf window') ∧
    (∃ level, Published display plans initialWatermark.toNat (s.phase.mark level) s.lanes
        s.published.flatten ∧
      ∀ w ∈ s.workers, ∀ c ∈ w.session.clocks, ∃ back ∈ c.back, levelMark level c.plan ≤ back ∧
        (s.phase = .finished → back = levelMark level c.plan)) ∧
    (s.phase = .finished → ∀ w ∈ s.workers, w.processed = w.accepted) := by
  obtain ⟨names, level, barrier⟩ := reached.barrier fits first bounded
  have standing : ∀ w ∈ s.workers, ∃ lane, s.workers[lane]? = some w ∧
      Stands display plans initialWatermark.toNat level s.phase lane w := by
    intro w member
    obtain ⟨lane, found⟩ := List.mem_iff_getElem?.mp member
    exact ⟨lane, found, barrier.stands lane w found⟩
  refine ⟨fun error failed => ?_, fun w member => ?_, fun r member r' member' window current window' current'
    same => ?_, ⟨level, barrier.published, fun w member => ?_⟩, fun finished w member => ?_⟩
  · obtain ⟨w, member⟩ := List.exists_mem_of_ne_nil _ barrier.someLane
    obtain ⟨_, _, stands⟩ := standing w member
    rw [failed] at stands
    exact stands
  · obtain ⟨_, _, stands⟩ := standing w member
    exact ⟨stands.not_confused, (barrier.queues w member).accepted⟩
  · obtain ⟨w, _, fits⟩ := barrier.reports.fits r member
    obtain ⟨w', _, fits'⟩ := barrier.reports.fits r' member'
    obtain ⟨top, bounds, bounds'⟩ : ∃ top, (∀ window ∈ r.current, ∃ plan ∈ plans,
        window.queryName = plan.query.name ∧ boundsOf window = currentBounds initialWatermark.toNat top plan) ∧
        ∀ window ∈ r'.current, ∃ plan ∈ plans, window.queryName = plan.query.name ∧
          boundsOf window = currentBounds initialWatermark.toNat top plan := by
      cases phase : s.phase with
      | reporting finish includeCurrent watermark sent reports =>
        rw [phase] at fits fits'
        exact ⟨_, fits.2.current, fits'.2.current⟩
      | idle | draining | pausing | finished | failed =>
        rw [phase] at fits
        exact fits.elim
    obtain ⟨plan, listed, named, held⟩ := bounds window current
    obtain ⟨plan', listed', named', held'⟩ := bounds' window' current'
    rw [held, held', List.inj_on_of_nodup_map names listed listed' (named.symm.trans (same.trans named'))]
  · obtain ⟨_, _, stands⟩ := standing w member
    exact stands.backs
  · have queues := barrier.queues w member
    have ended := barrier.closed (by rw [finished]; rfl) w member
    rw [queues.accepted, (queues.closed ended).1, List.append_nil]

/-- Where the coordinator is after a checkpoint that did not fail. -/
theorem afterReports_phase {σ : Type} {backend : Backend σ} {plans : List Plan} {s : System σ}
    {finish includeCurrent : Bool} {reports : List (WorkerReport σ)}
    (works : ∀ error, (afterReports backend plans s finish includeCurrent reports).phase ≠ .failed error) :
    (afterReports backend plans s finish includeCurrent reports).phase =
      if finish then .finished else .idle := by
  unfold afterReports at works ⊢
  dsimp only at works ⊢
  split
  next failed =>
    rw [failed] at works
    exact absurd rfl (works _)
  next done =>
    rw [done] at works
    split
    next failed =>
      rw [failed] at works
      exact absurd rfl (works _)
    next => rfl

theorem afterReports_workers {σ : Type} {backend : Backend σ} {plans : List Plan} {s : System σ}
    {finish includeCurrent : Bool} {reports : List (WorkerReport σ)} :
    (afterReports backend plans s finish includeCurrent reports).workers = s.workers := by
  unfold afterReports
  dsimp only
  split
  · rfl
  · split <;> rfl

theorem checkLanes_two {α : Type} {number : α → Nat} {a b : α} (first : number a = 0) (second : number b = 1)
    (message : Nat → Nat → String) : checkLanes message 0 ((sortByLane number [a, b]).map number) = .ok () := by
  have sorted : sortByLane number [a, b] = [a, b] := by
    refine List.mergeSort_of_pairwise ?_
    simp [first, second]
  rw [sorted]
  simp [checkLanes, first, second]

theorem afterDrain_two {a b : PauseAck} (first : a.lane = 0) (second : b.lane = 1) :
    (afterDrain [a, b] : Phase (Multiset Update)) = .pausing true 0 [] := by
  rw [afterDrain, checkLanes_two first second]

theorem afterPause_two {a b : PauseAck} (first : a.lane = 0) (second : b.lane = 1)
    (finish includeCurrent : Bool) :
    (afterPause finish includeCurrent [a, b] : Phase (Multiset Update)) =
      .reporting finish includeCurrent (watermarkOf [a, b]) 0 [] := by
  rw [afterPause, checkLanes_two first second]

/-- Two lanes with room for four events each. -/
abbrev TwoLanes := Reached logBackend Ipv6Text.expanded [Plan.slidingCounts] 2 4 8 20

/-- Both lanes take an event in and end; the last checkpoint hears them out of order. -/
theorem two_lanes_run : ∃ (s : LogSystem) (reports : List (WorkerReport (Multiset Update))),
    TwoLanes (afterReports logBackend [Plan.slidingCounts] s true true reports) ∧
      s.workers.map Worker.accepted = [[.at 25], [.at 31]] := by
  have r : TwoLanes _ := .start rfl
  have r : TwoLanes _ := r.step (@Step.arrive _ _ _ _ _ _ _ 0 _ _ (.at 25) rfl rfl rfl (by decide))
  have r : TwoLanes _ := r.step (@Step.arrive _ _ _ _ _ _ _ 1 _ _ (.at 31) rfl rfl rfl (by decide))
  have r : TwoLanes _ := r.step (@Step.hangUp _ _ _ _ _ _ _ 0 _ rfl)
  have r : TwoLanes _ := r.step (@Step.hangUp _ _ _ _ _ _ _ 1 _ rfl)
  have r : TwoLanes _ := r.step (@Step.work _ _ _ _ _ _ _ 0 _ _ _ rfl (.poll rfl rfl rfl))
  have r : TwoLanes _ := r.step (@Step.work _ _ _ _ _ _ _ 0 _ _ _ rfl (.receive rfl rfl rfl))
  have r : TwoLanes _ := r.step (@Step.work _ _ _ _ _ _ _ 0 _ _ _ rfl (.disconnected rfl rfl rfl))
  have r : TwoLanes _ := r.step (@Step.work _ _ _ _ _ _ _ 1 _ _ _ rfl (.poll rfl rfl rfl))
  have r : TwoLanes _ := r.step (@Step.work _ _ _ _ _ _ _ 1 _ _ _ rfl (.receive rfl rfl rfl))
  have r : TwoLanes _ := r.step (@Step.work _ _ _ _ _ _ _ 1 _ _ _ rfl (.disconnected rfl rfl rfl))
  have r : TwoLanes _ := r.step (.begin rfl true)
  have r : TwoLanes _ := r.step (.hearDrained rfl (by decide) rfl)
  have r : TwoLanes _ := r.step (.hearDrained rfl (by decide) rfl)
  have r : TwoLanes _ := r.step (.allDrained rfl rfl)
  have r : TwoLanes _ := r.step (.sendPause (afterDrain_two rfl rfl) rfl)
  have r : TwoLanes _ := r.step (.sendPause rfl rfl)
  have r : TwoLanes _ := r.step (@Step.work _ _ _ _ _ _ _ 0 _ _ _ rfl (.pause rfl rfl))
  have r : TwoLanes _ := r.step (@Step.work _ _ _ _ _ _ _ 1 _ _ _ rfl (.pause rfl rfl))
  have r : TwoLanes _ := r.step (.hearPause rfl rfl (by decide) rfl)
  have r : TwoLanes _ := r.step (.hearPause rfl rfl (by decide) rfl)
  have r : TwoLanes _ := r.step (.allPaused true rfl rfl)
  have r : TwoLanes _ := r.step (.sendCheckpoint (afterPause_two rfl rfl true true) rfl)
  have r : TwoLanes _ := r.step (.sendCheckpoint rfl rfl)
  have r : TwoLanes _ := r.step (@Step.work _ _ _ _ _ _ _ 1 _ _ _ rfl (.checkpoint rfl rfl rfl))
  have r : TwoLanes _ := r.step (@Step.work _ _ _ _ _ _ _ 0 _ _ _ rfl (.checkpoint rfl rfl rfl))
  have r : TwoLanes _ := r.step (.hearReport rfl rfl (by decide) rfl)
  have r : TwoLanes _ := r.step (.hearReport rfl rfl (by decide) rfl)
  exact ⟨_, _, r.step (.allReported rfl rfl), rfl⟩

theorem two_lanes_safe : ∃ s : LogSystem, TwoLanes s ∧ s.phase = .finished ∧
    s.workers.map Worker.processed = [[.at 25], [.at 31]] := by
  obtain ⟨s, reports, run, accepted⟩ := two_lanes_run
  rw [← afterReports_workers] at accepted
  have phase := @afterReports_phase _ logBackend [Plan.slidingCounts] s true true reports
  generalize afterReports logBackend [Plan.slidingCounts] s true true reports = last at run accepted phase
  have fits : ∀ plan ∈ [Plan.slidingCounts], 31 + plan.slide < modulus :=
    List.forall_mem_singleton.mpr (by decide)
  have bounded : last.Bounded 31 := fun w member event arrived => by
    have listed : w.accepted ∈ [[FlowEvent.at 25], [FlowEvent.at 31]] :=
      accepted ▸ List.mem_map_of_mem member
    rcases List.mem_pair.mp listed with same | same
    all_goals
      rw [same, List.mem_singleton] at arrived
      rw [arrived]
      decide
  obtain ⟨works, _, _, _, complete⟩ := checkpoints_safe run fits (by decide) bounded
  exact ⟨last, run, phase works, (List.map_congr_left (complete (phase works))).trans accepted⟩

end FlowSketch.Source.Agent
