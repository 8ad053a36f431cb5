import FlowSketch.Lib.Gather
import FlowSketch.Source.Agent.Publication

/-!
# The barrier

Where each worker stands while the coordinator is in a phase, and which messages are on their way. A
worker that acts keeps its place: nothing that it does on its own can be seen in what was published.
-/

namespace FlowSketch.Source.Agent
open Lib Lib.Word64 Source.Core Source.Runtime Source.Runtime.Session

abbrev LogWorker := Worker (Multiset Update)
abbrev LogSystem := System (Multiset Update)

/-! ## Workers -/

namespace Worker

/-- In the loop, not between an acknowledgement and its checkpoint. -/
def Active (w : LogWorker) : Prop := w.phase = .head ∨ ∃ n, w.phase = .receiving n

/-- The worker has reported up to a level, and has gone on with what it processed. -/
def At (display : Ipv6Text) (plans : List Plan) (opening level : Nat) (w : LogWorker) : Prop :=
  w.session.AtLevel display plans opening level (topOf level w.maxTimestampNanos)

/-- The worker has made its last report. -/
structure Done (plans : List Plan) (opening level : Nat) (w : LogWorker) : Prop where
  stopped : w.phase = .stopped
  opened : w.session.Opened plans opening
  backs : ∀ c ∈ w.session.clocks, c.back = some (levelMark level c.plan)

/-- What has arrived was processed or waits; after the lane's end nothing waits. -/
structure Queues (w : LogWorker) : Prop where
  accepted : w.accepted = w.processed ++ w.events
  closed : w.dataOpen = false → w.events = [] ∧ w.connected = false ∧ ∀ n, w.phase ≠ .receiving n
  seen : ∀ ts ∈ w.maxTimestampNanos, ∃ event ∈ w.processed, event.tsNanos = ts

end Worker

/-! ## Phases -/

namespace Phase

variable {σ : Type}

def drainedAcks : Phase σ → List PauseAck
  | .draining drained => drained
  | _ => []

def pauseAcks : Phase σ → List PauseAck
  | .pausing _ _ acknowledgements => acknowledgements
  | _ => []

def heard : Phase σ → List (WorkerReport σ)
  | .reporting _ _ _ _ reports => reports
  | _ => []

def watermark : Phase σ → Option UInt64
  | .reporting _ _ watermark _ _ => watermark
  | _ => none

/-- All lanes have ended. -/
def finishing : Phase σ → Bool
  | .pausing finish _ _ | .reporting finish _ _ _ _ => finish
  | .finished => true
  | _ => false

/-- Up to where windows are published, after the checkpoint at a level. -/
def mark (level : Nat) : Phase σ → Plan → Nat
  | .finished => reportMark true level
  | _ => levelMark level

end Phase

section

variable (display : Ipv6Text) (plans : List Plan) (opening level : Nat)

/-- Where a worker stands. -/
def Stands (phase : Phase (Multiset Update)) (lane : Nat) (w : LogWorker) : Prop :=
  match phase with
  | .idle | .draining _ => w.Active ∧ w.At display plans opening level ∧ w.control = []
  | .pausing _ sent _ =>
    (w.Active ∧ w.At display plans opening level ∧ w.control = if lane < sent then [.pause] else []) ∨
    (w.phase = .paused ∧ w.At display plans opening level ∧ w.control = [] ∧ lane < sent)
  | .reporting finish includeCurrent watermark sent _ =>
    (w.phase = .paused ∧ w.At display plans opening level ∧ Covers watermark w.maxTimestampNanos ∧
      w.control = if lane < sent then [.checkpoint watermark includeCurrent finish] else []) ∨
    (lane < sent ∧ w.control = [] ∧ if finish then w.Done plans opening (topOf level watermark)
      else w.Active ∧ w.At display plans opening (topOf level watermark))
  | .finished => w.Done plans opening level
  | .failed _ => False

/-- The acknowledgement of a worker that waits. -/
def AckFits (phase : Phase (Multiset Update)) (ack : PauseAck) (w : LogWorker) : Prop :=
  match phase with
  | .pausing _ _ _ => w.phase = .paused ∧ ack.maxTimestampNanos = w.maxTimestampNanos
  | _ => False

/-- The report of a worker that has gone on. -/
def ReportFits (phase : Phase (Multiset Update)) (report : WorkerReport (Multiset Update))
    (w : LogWorker) : Prop :=
  match phase with
  | .reporting finish _ watermark _ _ => w.phase ≠ .paused ∧
    Report display plans opening level (topOf level watermark) finish report w.session
  | _ => False

end

variable {display : Ipv6Text} {plans : List Plan} {opening level m : Nat} {lane batchSize : Nat}
  {phase : Phase (Multiset Update)} {w w' : LogWorker} {message : Option (Message (Multiset Update))}

theorem Worker.Active.not_paused (active : w.Active) : w.phase ≠ .paused := by
  rcases active with head | ⟨n, receiving⟩
  · rw [head]
    nofun
  · rw [receiving]
    nofun

theorem Worker.Active.not_stopped (active : w.Active) : w.phase ≠ .stopped := by
  rcases active with head | ⟨n, receiving⟩
  · rw [head]
    nofun
  · rw [receiving]
    nofun

/-- A worker has passed what was published up to a level below its own. -/
theorem Worker.At.passes (at_level : w.At display plans opening m) (le : level ≤ m) {key : WindowKey}
    (window : IsWindow plans opening (fun _ => 0) (levelMark level) key) : w.session.Passes key := by
  obtain ⟨plan, member, within⟩ := window
  obtain ⟨c, clock, rfl⟩ := at_level.isOpened.clock member
  exact ⟨c, clock, AtLevel.passes at_level clock ((at_level.isOpened.within clock).mpr within)
    (levelMark_mono le c.plan)⟩

/-- Later states of a lane confirm its report. -/
theorem Report.extend {top : Nat} {report : WorkerReport (Multiset Update)} {s s' : Log}
    (holds : Report display plans opening level top false report s)
    (at_level : s.AtLevel display plans opening top m) (later : Extends display s s') :
    Report display plans opening level top false report s' :=
  ⟨holds.completed.extend at_level (fun _ => le_rfl) later, holds.current⟩

/-- A worker in the loop is at some level, may do anything that keeps it there, and has not
acknowledged a pause. -/
theorem Stands.active (stands : Stands display plans opening level phase lane w) (active : w.Active) :
    ∃ m, level ≤ m ∧ w.At display plans opening m ∧ phase.mark level = levelMark level ∧
      (∀ w', w'.Active → w'.control = w.control → w'.At display plans opening m →
        Stands display plans opening level phase lane w') ∧
      (∀ ack, ¬AckFits phase ack w) ∧
      ∀ report w', w'.Active → Extends display w.session w'.session →
        ReportFits display plans opening level phase report w →
        ReportFits display plans opening level phase report w' := by
  cases phase with
  | idle =>
    obtain ⟨_, at_level, quiet⟩ := stands
    exact ⟨level, le_rfl, at_level, rfl, fun w' active' same there => ⟨active', there, same.trans quiet⟩,
      fun _ => id, fun _ _ _ _ => id⟩
  | draining drained =>
    obtain ⟨_, at_level, quiet⟩ := stands
    exact ⟨level, le_rfl, at_level, rfl, fun w' active' same there => ⟨active', there, same.trans quiet⟩,
      fun _ => id, fun _ _ _ _ => id⟩
  | pausing finish sent acknowledgements =>
    rcases stands with ⟨_, at_level, told⟩ | ⟨paused, _⟩
    · exact ⟨level, le_rfl, at_level, rfl,
        fun w' active' same there => .inl ⟨active', there, same.trans told⟩,
        fun ack fits => active.not_paused fits.1, fun _ _ _ _ => id⟩
    · exact absurd paused active.not_paused
  | reporting finish includeCurrent watermark sent reports =>
    rcases stands with ⟨paused, _⟩ | ⟨below, told, answered⟩
    · exact absurd paused active.not_paused
    · cases finish with
      | true => exact absurd answered.stopped active.not_stopped
      | false =>
        obtain ⟨_, at_level⟩ := answered
        refine ⟨topOf level watermark, le_topOf level watermark, at_level, rfl,
          fun w' active' same there => .inr ⟨below, same.trans told, active', there⟩, fun _ => id,
          fun report w' active' later fits => ⟨active'.not_paused, fits.2.extend at_level later⟩⟩
  | finished => exact absurd stands.stopped active.not_stopped
  | failed error => exact stands.elim

/-! ## What a worker does -/

/-- What can be seen of a step of a worker, or of its lane. -/
structure Moves (display : Ipv6Text) (plans : List Plan) (opening level : Nat)
    (phase : Phase (Multiset Update)) (lane : Nat) (w w' : LogWorker)
    (message : Option (Message (Multiset Update))) : Prop where
  stands : Stands display plans opening level phase lane w'
  queues : w'.Queues
  kept : ∀ key, IsWindow plans opening (fun _ => 0) (phase.mark level) key →
    w'.session.share display key = w.session.share display key
  closed : w.dataOpen = false → w'.dataOpen = false
  acks : ∀ ack, AckFits phase ack w → AckFits phase ack w'
  reports : ∀ report, ReportFits display plans opening level phase report w →
    ReportFits display plans opening level phase report w'
  drains : ∀ ack, message = some (.drained ack) →
    ack.lane = lane ∧ w.dataOpen = true ∧ w'.dataOpen = false
  answers : ∀ ack, message = some (.paused ack) →
    ack.lane = lane ∧ AckFits phase ack w' ∧ ∀ other, ¬AckFits phase other w
  tells : ∀ report, message = some (.report report) →
    report.lane = lane ∧ ReportFits display plans opening level phase report w' ∧
      ∀ other, ¬ReportFits display plans opening level phase other w

/-- The lane's queue changes. -/
theorem Moves.queue (stands : Stands display plans opening level phase lane w) {events : List FlowEvent}
    {connected : Bool} {accepted : List FlowEvent}
    (queues : Worker.Queues { w with events, connected, accepted }) :
    Moves display plans opening level phase lane w { w with events, connected, accepted } none where
  stands := by
    cases phase with
    | reporting finish includeCurrent watermark sent reports =>
      rcases stands with waiting | ⟨below, quiet, answered⟩
      · exact .inl waiting
      · refine .inr ⟨below, quiet, ?_⟩
        cases finish with
        | true => exact ⟨answered.stopped, answered.opened, answered.backs⟩
        | false => exact answered
    | finished => exact ⟨stands.stopped, stands.opened, stands.backs⟩
    | idle | draining | pausing | failed => exact stands
  queues := queues
  kept := fun _ _ => rfl
  closed := id
  acks := fun ack fits => by cases phase <;> exact fits
  reports := fun report fits => by cases phase <;> exact fits
  drains := nofun
  answers := nofun
  tells := nofun

theorem Moves.active (stands : Stands display plans opening level phase lane w) (active : w.Active)
    (active' : w'.Active) (control : w'.control = w.control) (queues : w'.Queues)
    (goes : ∀ m, w.At display plans opening m →
      w'.At display plans opening m ∧ Extends display w.session w'.session)
    (closed : w.dataOpen = false → w'.dataOpen = false)
    (sends : ∀ sent, message = some sent → ∃ ack, sent = .drained ack ∧ ack.lane = lane ∧
      w.dataOpen = true ∧ w'.dataOpen = false) :
    Moves display plans opening level phase lane w w' message := by
  obtain ⟨m, le, at_level, mark, stays, unacked, reports⟩ := stands.active active
  obtain ⟨there, later⟩ := goes m at_level
  refine ⟨stays w' active' control there, queues, fun key window => ?_, closed,
    fun ack fits => absurd fits (unacked ack), fun report => reports report w' active' later,
    fun ack sent => ?_, fun ack sent => ?_, fun report sent => ?_⟩
  · rw [mark] at window
    exact (later.kept key (at_level.passes le window)).2
  · obtain ⟨other, same, rest⟩ := sends _ sent
    cases same
    exact rest
  · obtain ⟨other, same, _⟩ := sends _ sent
    cases same
  · obtain ⟨other, same, _⟩ := sends _ sent
    cases same

theorem topOf_laterOf (m : Nat) (seen : Option UInt64) (event : FlowEvent) :
    topOf m (laterOf seen event) = max (topOf m seen) event.ts := by
  cases seen with
  | none => rfl
  | some ts =>
    show max m (max ts event.tsNanos).toNat = max (max m ts.toNat) event.tsNanos.toNat
    rw [Nat.max_assoc]
    congr 1
    rcases le_total ts event.tsNanos with le | le
    · rw [max_eq_right le, Nat.max_eq_right (UInt64.le_iff_toNat_le.mp le)]
    · rw [max_eq_left le, Nat.max_eq_left (UInt64.le_iff_toNat_le.mp le)]

/-- An event of the lane is processed. -/
theorem Worker.At.process {event : FlowEvent} {session : Log}
    (at_level : w.At display plans opening m)
    (done : observe logBackend display (.process event) w.session = some session) :
    session.AtLevel display plans opening m (topOf m (laterOf w.maxTimestampNanos event)) ∧
      Extends display w.session session := by
  obtain ⟨engine, called, rfl⟩ := observe_some.mp done
  rw [topOf_laterOf]
  exact ⟨AtLevel.process at_level called,
    AtLevel.extends_call at_level (Call.process_ne_finish event) called⟩

theorem Worker.Queues.process {event : FlowEvent} {rest : List FlowEvent} {n : Nat} {session : Log}
    {phase : WorkerPhase} (queues : w.Queues) (receiving : w.phase = .receiving n)
    (next : w.events = event :: rest) :
    Worker.Queues { w with
      session
      events := rest
      processed := w.processed ++ [event]
      maxTimestampNanos := laterOf w.maxTimestampNanos event
      phase } := by
  refine ⟨?_, fun shut => ?_, fun ts member => ?_⟩
  · rw [queues.accepted, next, List.append_assoc]
    rfl
  · exact absurd receiving ((queues.closed shut).2.2 n)
  · cases before : w.maxTimestampNanos with
    | none =>
      simp only [before, laterOf, Option.elim_none, Option.mem_def, Option.some.injEq] at member
      exact ⟨event, List.mem_append_right _ List.mem_cons_self, member⟩
    | some old =>
      simp only [before, laterOf, Option.elim_some, Option.mem_def, Option.some.injEq] at member
      rcases le_total old event.tsNanos with le | le
      · rw [max_eq_right le] at member
        exact ⟨event, List.mem_append_right _ List.mem_cons_self, member⟩
      · rw [max_eq_left le] at member
        obtain ⟨first, inside, same⟩ := queues.seen old before
        exact ⟨first, List.mem_append_left _ inside, same.trans member⟩

/-- Only a pausing coordinator has told an active worker anything. -/
theorem Stands.told_pause (stands : Stands display plans opening level phase lane w)
    (active : w.Active) {control : WorkerControl} {rest : List WorkerControl}
    (told : w.control = control :: rest) :
    ∃ finish sent acknowledgements, phase = .pausing finish sent acknowledgements ∧ lane < sent ∧
      w.At display plans opening level ∧ control = .pause ∧ rest = [] := by
  cases phase with
  | idle => cases told.symm.trans stands.2.2
  | draining drained => cases told.symm.trans stands.2.2
  | pausing finish sent acknowledgements =>
    rcases stands with ⟨_, at_level, quiet⟩ | ⟨paused, _⟩
    · have listed := told.symm.trans quiet
      split at listed
      next below =>
        cases listed
        exact ⟨_, _, _, rfl, below, at_level, rfl, rfl⟩
      next => cases listed
    · exact absurd paused active.not_paused
  | reporting finish includeCurrent watermark sent reports =>
    rcases stands with ⟨paused, _⟩ | ⟨_, quiet, _⟩
    · exact absurd paused active.not_paused
    · cases told.symm.trans quiet
  | finished => exact absurd stands.stopped active.not_stopped
  | failed error => exact stands.elim

/-- Only a coordinator that waits for reports has told a paused worker anything. -/
theorem Stands.told_checkpoint (stands : Stands display plans opening level phase lane w)
    (paused : w.phase = .paused) {control : WorkerControl} {rest : List WorkerControl}
    (told : w.control = control :: rest) :
    ∃ finish includeCurrent watermark sent reports,
      phase = .reporting finish includeCurrent watermark sent reports ∧ lane < sent ∧
      w.At display plans opening level ∧ Covers watermark w.maxTimestampNanos ∧
      control = .checkpoint watermark includeCurrent finish ∧ rest = [] := by
  cases phase with
  | idle => exact absurd paused stands.1.not_paused
  | draining drained => exact absurd paused stands.1.not_paused
  | pausing finish sent acknowledgements =>
    rcases stands with ⟨active, _⟩ | ⟨_, _, quiet, _⟩
    · exact absurd paused active.not_paused
    · cases told.symm.trans quiet
  | reporting finish includeCurrent watermark sent reports =>
    rcases stands with ⟨_, at_level, covers, quiet⟩ | ⟨_, quiet, _⟩
    · have listed := told.symm.trans quiet
      split at listed
      next below =>
        cases listed
        exact ⟨_, _, _, _, _, rfl, below, at_level, covers, rfl, rfl⟩
      next => cases listed
    · cases told.symm.trans quiet
  | finished =>
    rw [stands.stopped] at paused
    cases paused
  | failed error => exact stands.elim

/-- No worker is told anything out of turn. -/
theorem Stands.not_confused (stands : Stands display plans opening level phase lane w) :
    ¬w.Confused := by
  rintro (⟨rest, watermark, includeCurrent, finish, head, told⟩ | ⟨rest, paused, told⟩)
  · obtain ⟨_, _, _, _, _, _, same, _⟩ := stands.told_pause (.inl head) told
    cases same
  · obtain ⟨_, _, _, _, _, _, _, _, _, same, _⟩ := stands.told_checkpoint paused told
    cases same

/-- A worker acts. -/
theorem Stands.step (stands : Stands display plans opening level phase lane w) (queues : w.Queues)
    (fits : phase.finishing = true → ∀ plan ∈ plans,
      levelMark (topOf level phase.watermark) plan + plan.slide < modulus)
    (step : WorkerStep logBackend display batchSize lane w w' message) :
    Moves display plans opening level phase lane w w' message := by
  cases step with
  | poll head quiet isOpen =>
    refine .active stands (.inl head) (.inr ⟨0, rfl⟩) rfl ⟨queues.accepted, fun shut => ?_, queues.seen⟩
      (fun m at_level => ⟨at_level, .refl display _⟩) id nofun
    rw [isOpen] at shut
    cases shut
  | @receive n event rest session receiving next done =>
    refine .active stands (.inr ⟨n, receiving⟩) ?_ rfl (queues.process receiving next)
      (fun m at_level => at_level.process done) id nofun
    by_cases full : n + 1 = batchSize
    · exact .inl (if_pos full)
    · exact .inr ⟨n + 1, if_neg full⟩
  | @empty n receiving nothing connected =>
    refine .active stands (.inr ⟨n, receiving⟩) (.inl rfl) rfl
      ⟨queues.accepted, fun shut => ?_, queues.seen⟩ (fun m at_level => ⟨at_level, .refl display _⟩) id nofun
    exact absurd receiving ((queues.closed shut).2.2 n)
  | @disconnected n receiving nothing disconnected =>
    refine .active stands (.inr ⟨n, receiving⟩) (.inl rfl) rfl
      ⟨queues.accepted, fun _ => ⟨nothing, disconnected, nofun⟩, queues.seen⟩
      (fun m at_level => ⟨at_level, .refl display _⟩) (fun _ => rfl) fun sent same => ?_
    cases same
    refine ⟨_, rfl, rfl, ?_, rfl⟩
    by_contra shut
    exact (queues.closed (Bool.eq_false_of_not_eq_true shut)).2.2 n receiving
  | pause head told =>
    obtain ⟨finish, sent, acknowledgements, rfl, below, at_level, _, rfl⟩ :=
      stands.told_pause (.inl head) told
    refine ⟨.inr ⟨rfl, at_level, rfl, below⟩, ⟨queues.accepted, fun shut => ?_, queues.seen⟩,
      fun _ _ => rfl, id, fun ack fits => ⟨rfl, fits.2⟩, fun _ => id, nofun, fun ack sent => ?_, nofun⟩
    · obtain ⟨nothing, disconnected, _⟩ := queues.closed shut
      exact ⟨nothing, disconnected, nofun⟩
    · cases sent
      exact ⟨rfl, ⟨rfl, rfl⟩, fun other fits => nomatch head.symm.trans fits.1⟩
  | @checkpoint rest watermark includeCurrent finish report session paused told built =>
    obtain ⟨_, _, _, sent, reports, rfl, below, at_level, covers, same, rfl⟩ :=
      stands.told_checkpoint paused told
    cases same
    obtain ⟨named, later, holds, stays, backs⟩ := buildReport_level at_level covers fits built
    have answered : (if finish then WorkerPhase.stopped else .head) ≠ .paused := by
      cases finish <;> nofun
    have unheard : ∀ other, ¬ReportFits display plans opening level
        (.reporting finish includeCurrent watermark sent reports) other w := fun _ fits => fits.1 paused
    refine ⟨.inr ⟨below, rfl, ?_⟩, ⟨queues.accepted, fun shut => ?_, queues.seen⟩,
      fun key window => (later.kept key (at_level.passes le_rfl window)).2, id, fun ack fits => fits.elim,
      fun other fits => absurd fits (unheard other), nofun, nofun, fun other sent => ?_⟩
    · cases finish with
      | true => exact ⟨rfl, at_level.isOpened.extend later, backs⟩
      | false =>
        refine ⟨.inl rfl, ?_⟩
        have top : topOf (topOf level watermark) w.maxTimestampNanos = topOf level watermark := by
          refine Nat.le_antisymm ?_ (le_topOf _ _)
          cases seen : w.maxTimestampNanos with
          | none => exact le_rfl
          | some ts =>
            obtain ⟨mark, rfl, le⟩ := covers ts seen
            exact Nat.max_le.mpr ⟨le_rfl, (UInt64.le_iff_toNat_le.mp le).trans (Nat.le_max_right _ _)⟩
        show AtLevel display plans opening _ (topOf _ w.maxTimestampNanos) session
        rw [top]
        exact stays rfl
    · obtain ⟨nothing, disconnected, _⟩ := queues.closed shut
      exact ⟨nothing, disconnected, by cases finish <;> nofun⟩
    · cases sent
      exact ⟨named, ⟨answered, holds⟩, unheard⟩

end FlowSketch.Source.Agent
