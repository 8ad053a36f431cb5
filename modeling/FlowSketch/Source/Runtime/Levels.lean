import FlowSketch.Source.Runtime.Ledger

/-!
# Lanes that report at a level

Lanes that opened at one timestamp and have handed out everything up to another one, their level. To
report at a higher level a lane moves there and hands out what it closed on the way: its share of every
window between the two levels, whatever other lanes did meanwhile.
-/

namespace FlowSketch.Source.Runtime
open Lib.Word64 Lib.SlidingLog Lib.Lists Source.Core

/-- The windows of a query that end after `low` and not after `high`, by their keys. -/
structure Clock.Within (c : Clock) (low high : Plan → Nat) (key : WindowKey) : Prop where
  name : c.plan.query.name = key.queryName
  start : ∃ first ∈ c.first, key.start = windowStart c.plan first key.stop
  boundary : c.plan.slide ∣ key.stop
  above : low c.plan < key.stop
  below : key.stop ≤ high c.plan

theorem Clock.Within.same {c c' : Clock} {low high : Plan → Nat} {key : WindowKey}
    (within : c.Within low high key) (plan : c.plan = c'.plan) (first : c.first = c'.first) :
    c'.Within low high key := by
  obtain ⟨name, start, boundary, above, below⟩ := within
  rw [plan] at name start boundary above below
  rw [first] at start
  exact ⟨name, start, boundary, above, below⟩

/-- The last bucket of a query at a timestamp. -/
def levelMark (level : Nat) (plan : Plan) : Nat := Timeline.bucketOf plan level

/-- A query that has only its first bucket has closed nothing. -/
theorem Ledger.unmoved {display : Ipv6Text} {mark mark' : Plan → Nat} {q : LogQuery}
    {h : History (Multiset Update)} (ledger : Ledger display mark q h)
    (first : h.first = q.backStart) (reached : mark' q.plan ≤ q.backStart.getD 0) :
    Ledger display mark' q h := by
  have none_closed : h.closed = [] := by
    refine List.eq_nil_iff_forall_not_mem.mpr fun entry member => ?_
    obtain ⟨⟨opening, noted, start⟩, _, back, stands, le⟩ :=
      ledger.streams.closed_le (List.mem_map_of_mem member)
    obtain ⟨t, accounted⟩ := ledger.streams
    have width := (accounted.told.emissions.width entry member).1
    obtain rfl := Option.some.inj ((Option.mem_def.mp noted).symm.trans (first.trans stands))
    have late : opening ≤ entry.1.windowStartNanos := start ▸ Nat.le_max_left _ _
    omega
  obtain ⟨handed, split, _⟩ := ledger.handed
  rw [none_closed] at split
  obtain ⟨rfl, waiting⟩ := List.append_eq_nil_iff.mp split.symm
  refine ⟨ledger.streams, ⟨[], by rw [none_closed, waiting]; rfl, nofun⟩, fun window member => ?_, reached⟩
  rw [waiting] at member
  cases member

/-! ## The last report of a query -/

/-- The window that `finish` closes, past the last bucket. -/
def trailingWindow (display : Ipv6Text) (plan : Plan) (h : History (Multiset Update)) (first back : Nat) :
    WindowState (Multiset Update) where
  state := updatesIn display plan h.applied (windowStart plan first (back + plan.slide))
    (back + plan.slide)
  windowStartNanos := windowStart plan first (back + plan.slide)
  windowEndNanos := back + plan.slide

section

variable {display : Ipv6Text} {mark : Plan → Nat} {q q' : LogQuery} {h : History (Multiset Update)}

theorem Streams.back_dvd (streams : Streams display q h) {back : Nat} (opened : q.backStart = some back) :
    q.plan.slide ∣ back := by
  obtain ⟨t, accounted⟩ := streams
  have tracks := accounted.told.tracks
  have backs := tracks.backStart
  unfold Tracks at tracks
  unfold Timeline.backOf at backs
  split at tracks
  next none_open =>
    rw [none_open, opened] at backs
    cases backs
  next opening s some_open =>
    have on : OnLog q t.log opening s := tracks
    rw [some_open, opened] at backs
    exact (Option.some.inj backs) ▸ on.valid.back_dvd

/-- What `finish` leaves. -/
theorem Ledger.finish_emits (ledger : Ledger display mark q h) {back : Nat}
    (opened : q.backStart = some back) (fits : back + q.plan.slide < modulus)
    (passes : q.check .finish = .ok ()) (done : q.call logBackend display .finish = .done q') :
    q'.plan = q.plan ∧ q'.backStart = some back ∧ ∃ first, h.first = some first ∧
      outputs q' = outputs q ++
        [{ queryName := q.plan.query.name, state := trailingWindow display q.plan h first back }] := by
  obtain ⟨t, accounted⟩ := ledger.streams
  obtain ⟨result, same, called⟩ := accounted.told.tracks.call display passes
  obtain rfl : result = q' := Run.done.inj (same.symm.trans done)
  have tracks := accounted.told.tracks
  have backs := tracks.backStart
  have backs' := called.tracks.backStart
  have first := accounted.told.first
  unfold Tracks at tracks
  unfold Timeline.backOf at backs
  split at tracks
  next none_open =>
    rw [none_open, opened] at backs
    cases backs
  next opening s some_open =>
    have on : OnLog q t.log opening s := tracks
    rw [some_open, opened] at backs
    obtain rfl : back = s.back q.plan.slide := Option.some.inj backs
    refine ⟨called.plan, ?_, opening, by rw [first, some_open]; rfl, ?_⟩
    · rw [backs', called.plan]
      show Timeline.backOf q.plan t = _
      rw [Timeline.backOf, some_open]
      rfl
    · have stop : s.stop q.plan.slide = _ := Span.stop_eq on.valid.positive
      have closed : t.trailing q.plan = [trailingWindow display q.plan h opening (s.back q.plan.slide)] := by
        rw [Timeline.trailing, some_open]
        dsimp only
        rw [wrappingAdd_of_lt fits, trailingWindow, ← stop, ← Span.Valid.front_windowStart on.valid,
          ← within_applied, ← accounted.told.log]
        rfl
      rw [outputs, called.emitted, called.plan]
      show (q.emitted ++ t.trailing q.plan).map _ = _
      rw [closed, List.map_append]
      rfl

theorem Ledger.stop_le (ledger : Ledger display mark q h) {back : Nat}
    (opened : q.backStart = some back) {output : LogOutput} (waiting : output ∈ outputs q) :
    output.key.stop ≤ back := by
  obtain ⟨b, stands, le⟩ := (ledger.output waiting).1.passed
  obtain rfl := Option.some.inj (opened.symm.trans stands)
  exact le

/-- A call that takes no event in changes no share. -/
theorem History.beforeClosing_quiet {call : Call} (quiet : History.taken q' call = []) (stop : Nat) :
    (h.after call q q').beforeClosing stop = h.beforeClosing stop := by
  unfold History.beforeClosing
  simp only [History.after, quiet, List.append_nil, List.find?_append]
  cases h.moves.find? (fun move => move.1.any (stop ≤ ·)) with
  | some move => rfl
  | none =>
    rw [Option.none_or]
    by_cases passed : q'.backStart.any (stop ≤ ·) = true
    · rw [List.find?_cons_of_pos (by simpa using passed)]
    · rw [List.find?_cons_of_neg (by simpa using passed)]
      rfl

/-- Nothing has closed a window past the last bucket. -/
theorem Streams.beforeClosing_ahead (streams : Streams display q h) {back stop : Nat}
    (opened : q.backStart = some back) (ahead : back < stop) : h.beforeClosing stop = h.applied := by
  obtain ⟨t, accounted⟩ := streams
  have waiting : h.moves.find? (fun move => move.1.any (stop ≤ ·)) = none := by
    refine find_not_passed fun move member b inside => ?_
    obtain ⟨b', stands, le⟩ := accounted.moved move member b inside
    rw [← accounted.told.tracks.backStart, opened] at stands
    obtain rfl := Option.some.inj stands
    omega
  rw [History.beforeClosing, waiting]

/-- The last report has the lane's share of every window since the mark, the trailing one included. -/
theorem Ledger.finish_share (ledger : Ledger display mark q h) {back : Nat}
    (opened : q.backStart = some back) (fits : back + q.plan.slide < modulus)
    (passes : q.check .finish = .ok ()) (done : q.call logBackend display .finish = .done q')
    {high : Plan → Nat} (last : high q.plan = back + q.plan.slide) :
    (∀ output ∈ outputs q', (clockOf q h).Within mark high output.key) ∧
    ∀ key, (clockOf q h).Within mark high key →
      totalFor key (outputs q') = share display q.plan h key ∧
      (share display q.plan h key ≠ 0 → key ∈ (outputs q').map QueryWindowState.key) := by
  obtain ⟨_, _, first, noted, grown⟩ := ledger.finish_emits opened fits passes done
  have multiple := ledger.streams.back_dvd opened
  have positive : 0 < q.plan.slide := q.plan.slide_pos
  have reached := ledger.reached
  rw [opened, Option.getD_some] at reached
  rw [grown]
  refine ⟨fun output waiting => ?_, fun key within => ?_⟩
  · rcases List.mem_append.mp waiting with old | new
    · obtain ⟨passed, above⟩ := ledger.output old
      refine ⟨passed.name, passed.start, passed.boundary, above, ?_⟩
      exact (ledger.stop_le opened old).trans ((Nat.le_add_right back _).trans last.ge)
    · rw [List.mem_singleton.mp new]
      refine ⟨rfl, ⟨first, noted, rfl⟩, Nat.dvd_add multiple (Nat.dvd_refl _), ?_, last.ge⟩
      exact reached.trans_lt (Nat.lt_add_of_pos_right positive)
  · rw [totalFor_append, totalFor_singleton, List.map_append, List.mem_append]
    by_cases before : key.stop ≤ back
    · have passed : (clockOf q h).Passes key :=
        ⟨within.name, within.start, within.boundary, back, opened, before⟩
      obtain ⟨total, listed⟩ := ledger.share_eq passed within.above
      rw [if_neg, add_zero]
      · exact ⟨total, fun nonzero => .inl (listed nonzero)⟩
      · intro same
        have stop : back + q.plan.slide = key.stop := congrArg WindowKey.stop same
        omega
    · have stop : key.stop = back + q.plan.slide := by
        have below : key.stop ≤ back + q.plan.slide := last ▸ within.below
        have apart : q.plan.slide ≤ key.stop - back :=
          Nat.le_of_dvd (by omega) (Nat.dvd_sub within.boundary multiple)
        omega
      obtain ⟨opening, noted', start⟩ := within.start
      obtain rfl : first = opening := Option.some.inj (noted.symm.trans noted')
      change key.start = windowStart q.plan first key.stop at start
      have matched : ({ queryName := q.plan.query.name
                        state := trailingWindow display q.plan h first back } : LogOutput).key = key := by
        obtain ⟨name, begin, ending⟩ := key
        simp only at start stop
        have named : q.plan.query.name = name := within.name
        rw [← named, start, stop]
        rfl
      have absent : key ∉ (outputs q).map QueryWindowState.key := by
        intro listed
        obtain ⟨output, member, rfl⟩ := List.mem_map.mp listed
        exact before (ledger.stop_le opened member)
      rw [totalFor_absent absent, zero_add, if_pos matched, share,
        ledger.streams.beforeClosing_ahead opened (Nat.lt_of_not_le before), start, stop]
      exact ⟨rfl, fun _ => .inr (List.mem_singleton.mpr matched.symm)⟩

end

/-! ## Lanes -/

namespace Session

/-- The lane opened at `opening`, has handed out everything up to `level`, and has not gone past `top`. -/
structure AtLevel (display : Ipv6Text) (plans : List Plan) (opening level top : Nat) (s : Log) : Prop
    extends s.Lane display (levelMark level) plans where
  opened : ∀ c ∈ s.clocks, c.first = some (levelMark opening c.plan) ∧
    ∃ back, c.back = some back ∧ levelMark level c.plan ≤ back ∧ back ≤ levelMark top c.plan

/-- What was handed out are the lane's shares of the windows between two marks. -/
structure Reported (display : Ipv6Text) (low high : Plan → Nat) (report : List LogOutput) (s : Log) :
    Prop where
  keys : ∀ output ∈ report, ∃ c ∈ s.clocks, c.Within low high output.key
  shares : ∀ c ∈ s.clocks, ∀ key, c.Within low high key → totalFor key report = s.share display key ∧
    (s.share display key ≠ 0 → key ∈ report.map QueryWindowState.key)

/-- A later state of a lane: it is open at the same place and its shares of passed windows stay. -/
structure Extends (display : Ipv6Text) (s s' : Log) : Prop where
  firsts : s'.clocks.map (fun c => (c.plan, c.first)) = s.clocks.map (fun c => (c.plan, c.first))
  kept : ∀ key, s.Passes key → s'.Passes key ∧ s'.share display key = s.share display key

theorem Extends.refl (display : Ipv6Text) (s : Log) : Extends display s s := ⟨rfl, fun _ passes => ⟨passes, rfl⟩⟩

theorem Extends.trans {display : Ipv6Text} {s s' s'' : Log} (first : Extends display s s')
    (second : Extends display s' s'') : Extends display s s'' := by
  refine ⟨second.firsts.trans first.firsts, fun key passes => ?_⟩
  obtain ⟨passes', share⟩ := first.kept key passes
  obtain ⟨passes'', share'⟩ := second.kept key passes'
  exact ⟨passes'', share'.trans share⟩

variable {display : Ipv6Text} {plans : List Plan} {opening level top : Nat} {s s' : Log}

theorem levelMark_mono {a b : Nat} (le : a ≤ b) (plan : Plan) : levelMark a plan ≤ levelMark b plan :=
  Clock.bucketOf_mono plan le

theorem levelMark_max (a b : Nat) (plan : Plan) :
    max (levelMark a plan) (levelMark b plan) = levelMark (max a b) plan := by
  rcases Nat.le_total a b with le | le
  · rw [Nat.max_eq_right le, Nat.max_eq_right (levelMark_mono le plan)]
  · rw [Nat.max_eq_left le, Nat.max_eq_left (levelMark_mono le plan)]

/-- The clock with the same query and opening in another state of the lane. -/
theorem Extends.clock (extend : Extends display s s') {c' : Clock} (member : c' ∈ s'.clocks) :
    ∃ c ∈ s.clocks, c.plan = c'.plan ∧ c.first = c'.first := by
  have listed := List.mem_map_of_mem (f := fun c : Clock => (c.plan, c.first)) member
  rw [extend.firsts] at listed
  obtain ⟨c, inside, same⟩ := List.mem_map.mp listed
  exact ⟨c, inside, congrArg Prod.fst same, congrArg Prod.snd same⟩

/-- A lane has passed the windows up to its level. -/
theorem AtLevel.passes (at_level : s.AtLevel display plans opening level top) {c : Clock}
    (member : c ∈ s.clocks) {low high : Plan → Nat} {key : WindowKey} (within : c.Within low high key)
    (reached : high c.plan ≤ levelMark level c.plan) : c.Passes key := by
  obtain ⟨_, back, stands, le, _⟩ := at_level.opened c member
  exact ⟨within.name, within.start, within.boundary, back, stands, within.below.trans (reached.trans le)⟩

/-- Later states of a lane confirm what it reported. -/
theorem Reported.extend {low high : Plan → Nat} {report : List LogOutput}
    (reported : s.Reported display low high report) (at_level : s.AtLevel display plans opening level top)
    (reached : ∀ plan, high plan ≤ levelMark level plan) (extend : Extends display s s') :
    s'.Reported display low high report := by
  have back : ∀ c' ∈ s'.clocks, ∀ key, c'.Within low high key →
      ∃ c ∈ s.clocks, c.Within low high key := by
    intro c' member key within
    obtain ⟨c, inside, plan, first⟩ := extend.clock member
    exact ⟨c, inside, within.same plan.symm first.symm⟩
  refine ⟨fun output waiting => ?_, fun c' member key within => ?_⟩
  · obtain ⟨c, inside, within⟩ := reported.keys output waiting
    have listed := List.mem_map_of_mem (f := fun c : Clock => (c.plan, c.first)) inside
    rw [← extend.firsts] at listed
    obtain ⟨c', member, same⟩ := List.mem_map.mp listed
    exact ⟨c', member, within.same (congrArg Prod.fst same).symm (congrArg Prod.snd same).symm⟩
  · obtain ⟨c, inside, old⟩ := back c' member key within
    obtain ⟨_, share⟩ := extend.kept key ⟨c, inside, at_level.passes inside old (reached c.plan)⟩
    rw [share]
    exact reported.shares c inside key old

theorem AtLevel.extends_call (at_level : s.AtLevel display plans opening level top) {call : Call}
    (streaming : call ≠ .finish) {engine : LogEngine}
    (done : s.engine.call logBackend display call = .done engine) :
    Extends display s (s.after call engine) := by
  have clocks := (at_level.isOpen.call streaming done).2
  refine ⟨?_, fun key passes => ⟨passes.step clocks, (at_level.kept streaming done).2 key passes⟩⟩
  rw [clocks, List.map_map]
  refine List.map_congr_left fun c member => ?_
  obtain ⟨first, _⟩ := at_level.opened c member
  show (c.plan, c.first.or _) = _
  rw [first]
  rfl

/-- A fresh lane that is moved to a first timestamp. -/
theorem AtLevel.start {engine opened : LogEngine} {ts : UInt64}
    (built : QueryEngine.new logBackend plans = .ok engine)
    (done : engine.call logBackend display (.advanceTo ts) = .done opened) :
    ((Session.start engine).after (.advanceTo ts) opened).AtLevel display plans ts.toNat ts.toNat
      ts.toNat := by
  have fresh : (Session.start engine).Lane display (fun _ => 0) plans := .start built
  have streaming := Call.advanceTo_ne_finish ts
  have lane := fresh.call streaming (Call.advanceTo_ne_drain ts) done
  have moved := (fresh.isOpen.call streaming done).2
  rw [(Session.Open.start display plans built).2, List.map_map] at moved
  have clocks : ∀ c ∈ ((Session.start engine).after (.advanceTo ts) opened).clocks,
      c.first = some (levelMark ts.toNat c.plan) ∧ c.back = some (levelMark ts.toNat c.plan) := by
    intro c member
    rw [moved] at member
    obtain ⟨plan, _, rfl⟩ := List.mem_map.mp member
    have back : Clock.backAfter plan none (.advanceTo ts) = some (levelMark ts.toNat plan) :=
      congrArg some (Nat.zero_max _)
    exact ⟨back, back⟩
  refine ⟨⟨?_, lane.queries, lane.names⟩, fun c member => ?_⟩
  · obtain ⟨pairs, queries, histories, all⟩ := exists_pairs lane.keeps
    unfold Keeps
    rw [queries, histories, List.forall₂_map_left_iff, List.forall₂_map_right_iff, List.forall₂_same]
    intro t member
    obtain ⟨first, back⟩ := clocks (clockOf t.1 t.2) (by
      rw [Session.clocks, queries, histories, zipWith_map_same]
      exact List.mem_map_of_mem member)
    change t.2.first = _ at first
    change t.1.backStart = _ at back
    refine (all t member).unmoved (first.trans back.symm) ?_
    rw [back]
    exact le_rfl
  · obtain ⟨first, back⟩ := clocks c member
    exact ⟨first, _, back, le_rfl, le_rfl⟩

/-- An event moves a lane no further than its timestamp. -/
theorem AtLevel.process (at_level : s.AtLevel display plans opening level top) {event : FlowEvent}
    {engine : LogEngine} (done : s.engine.call logBackend display (.process event) = .done engine) :
    (s.after (.process event) engine).AtLevel display plans opening level (max top event.ts) := by
  have streaming := Call.process_ne_finish event
  refine ⟨at_level.call streaming (Call.process_ne_drain event) done, fun c' member => ?_⟩
  rw [(at_level.isOpen.call streaming done).2] at member
  obtain ⟨c, inside, rfl⟩ := List.mem_map.mp member
  obtain ⟨first, back, stands, low, high⟩ := at_level.opened c inside
  refine ⟨by rw [Clock.step, first]; rfl, ?_⟩
  simp only [Clock.step, Clock.backAfter, stands, Option.getD_some]
  split
  · refine ⟨_, rfl, low.trans (Nat.le_max_left _ _), ?_⟩
    show max back (levelMark event.ts c.plan) ≤ levelMark (max top event.ts) c.plan
    rw [← levelMark_max]
    exact max_le_max_right _ high
  · exact ⟨back, rfl, low, high.trans (levelMark_mono (Nat.le_max_left _ _) c.plan)⟩

/-- A watermark past everything the lane has seen brings it to a new level. -/
theorem AtLevel.advance (at_level : s.AtLevel display plans opening level top) {ts : UInt64}
    (seen : top ≤ max level ts.toNat) {engine : LogEngine}
    (done : s.engine.call logBackend display (.advanceTo ts) = .done engine) :
    (s.after (.advanceTo ts) engine).AtLevel display plans opening level (max level ts.toNat) ∧
      ∀ c ∈ (s.after (.advanceTo ts) engine).clocks,
        c.back = some (levelMark (max level ts.toNat) c.plan) := by
  have streaming := Call.advanceTo_ne_finish ts
  have moved := (at_level.isOpen.call streaming done).2
  have each : ∀ c' ∈ (s.after (.advanceTo ts) engine).clocks,
      c'.first = some (levelMark opening c'.plan) ∧
        c'.back = some (levelMark (max level ts.toNat) c'.plan) := by
    intro c' member
    rw [moved] at member
    obtain ⟨c, inside, rfl⟩ := List.mem_map.mp member
    obtain ⟨first, back, stands, low, high⟩ := at_level.opened c inside
    refine ⟨by rw [Clock.step, first]; rfl, ?_⟩
    simp only [Clock.step, Clock.backAfter, stands, Option.getD_some, Option.some.injEq]
    show max back (levelMark ts.toNat c.plan) = _
    have within := high.trans (levelMark_mono seen c.plan)
    rw [← levelMark_max] at within ⊢
    omega
  refine ⟨⟨at_level.call streaming (Call.advanceTo_ne_drain ts) done, fun c member => ?_⟩,
    fun c member => (each c member).2⟩
  obtain ⟨first, back⟩ := each c member
  exact ⟨first, _, back, levelMark_mono (Nat.le_max_left _ _) c.plan, le_rfl⟩

/-- At its last bucket a lane hands out its shares of the windows since its level. -/
theorem AtLevel.drain {level' : Nat} (at_level : s.AtLevel display plans opening level level')
    (at_back : ∀ c ∈ s.clocks, c.back = some (levelMark level' c.plan)) :
    (s.after .drain s.engine.drained).AtLevel display plans opening level' level' ∧
      (s.after .drain s.engine.drained).clocks = s.clocks ∧
      Extends display s (s.after .drain s.engine.drained) ∧
      (s.after .drain s.engine.drained).Reported display (levelMark level) (levelMark level')
        s.engine.takeWindowStates.1 := by
  have marked : s.AtBack (levelMark level') := fun c member => by rw [at_back c member]; rfl
  obtain ⟨lane, clocks, shares⟩ := at_level.toLane.drain marked
  have passed : ∀ c ∈ s.clocks, ∀ key, c.Within (levelMark level) (levelMark level') key →
      c.Passes key := fun c member key within =>
    ⟨within.name, within.start, within.boundary, _, at_back c member, within.below⟩
  refine ⟨⟨lane, fun c member => ?_⟩, clocks, ⟨by rw [clocks], fun key passes => ⟨?_, shares key passes⟩⟩,
    ⟨fun output waiting => ?_, fun c member key within => ?_⟩⟩
  · rw [clocks] at member
    obtain ⟨first, _, _, _, _⟩ := at_level.opened c member
    exact ⟨first, _, at_back c member, le_rfl, le_rfl⟩
  · obtain ⟨c, member, passed⟩ := passes
    exact ⟨c, clocks ▸ member, passed⟩
  · obtain ⟨c, member, passes, above⟩ := at_level.output waiting
    obtain ⟨back, stands, below⟩ := passes.passed
    obtain rfl := Option.some.inj ((at_back c member).symm.trans stands)
    exact ⟨c, clocks ▸ member, passes.name, passes.start, passes.boundary, above, below⟩
  · rw [clocks] at member
    have passes := passed c member key within
    rw [shares key ⟨c, member, passes⟩]
    exact at_level.total member passes within.above

/-- What a lane hands out at the end. -/
theorem AtLevel.finish {level' : Nat} (at_level : s.AtLevel display plans opening level level')
    (at_back : ∀ c ∈ s.clocks, c.back = some (levelMark level' c.plan))
    (fits : ∀ c ∈ s.clocks, levelMark level' c.plan + c.plan.slide < modulus) {engine : LogEngine}
    (done : s.engine.call logBackend display .finish = .done engine) :
    ((s.after .finish engine).after .drain engine.drained).clocks = s.clocks ∧
      Extends display s ((s.after .finish engine).after .drain engine.drained) ∧
      ((s.after .finish engine).after .drain engine.drained).Reported display (levelMark level)
        (fun plan => levelMark level' plan + plan.slide) engine.takeWindowStates.1 := by
  obtain ⟨checks, moves, _⟩ := QueryEngine.call_done.mp done
  obtain ⟨ts, queries, histories, results, notes, all⟩ := exists_moves at_level.keeps moves
  have clocks : s.clocks = ts.map (fun t => clockOf t.1 t.2.1) := by
    rw [Session.clocks, queries, histories, zipWith_map_same]
  have left : engine.drained.queries = ts.map (fun t => { t.2.2 with emitted := [] }) := by
    rw [QueryEngine.drained, QueryEngine.takeWindowStates, results, List.map_map]
    rfl
  have noted : ((s.after .finish engine).after .drain engine.drained).histories = ts.map (fun t =>
      (t.2.1.after .finish t.1 t.2.2).after .drain t.2.2 { t.2.2 with emitted := [] }) := by
    have notes' := notes .finish
    unfold Session.after
    dsimp only
    rw [notes', left, results, zipWith3_map]
  have each : ∀ t ∈ ts, ∃ back, t.1.backStart = some back ∧ back = levelMark level' t.1.plan ∧
      t.2.2.plan = t.1.plan ∧ clockOf { t.2.2 with emitted := [] } ((t.2.1.after .finish t.1 t.2.2).after
        .drain t.2.2 { t.2.2 with emitted := [] }) = clockOf t.1 t.2.1 := by
    intro t member
    obtain ⟨inside, ledger, move⟩ := all t member
    have clock : clockOf t.1 t.2.1 ∈ s.clocks := clocks ▸ List.mem_map_of_mem member
    have opened := at_back _ clock
    obtain ⟨plan, back, first, known, _⟩ := ledger.finish_emits opened (fits _ clock)
      (checks t.1 inside) move
    refine ⟨_, opened, rfl, plan, ?_⟩
    have back' : t.2.2.backStart = t.1.backStart := back.trans opened.symm
    simp only [clockOf, History.after, known, plan, Option.some_or]
    exact congrArg _ back'
  have clocks' : ((s.after .finish engine).after .drain engine.drained).clocks = s.clocks := by
    rw [clocks, Session.clocks, noted]
    show List.zipWith clockOf engine.drained.queries _ = _
    rw [left, zipWith_map_same]
    refine List.map_congr_left fun t member => ?_
    obtain ⟨_, _, _, _, clock⟩ := each t member
    exact clock
  have shares : ∀ key, ((s.after .finish engine).after .drain engine.drained).share display key =
      s.share display key := by
    intro key
    unfold share
    rw [noted]
    show (List.zipWith _ engine.drained.queries _).sum = _
    rw [left, queries, histories, zipWith_map_same, zipWith_map_same]
    refine congrArg List.sum (List.map_congr_left fun t member => ?_)
    obtain ⟨_, _, _, plan, _⟩ := each t member
    show (if t.2.2.plan.query.name = _ then Runtime.share display t.2.2.plan _ key else 0) = _
    rw [plan, Runtime.share, History.beforeClosing_quiet rfl, History.beforeClosing_quiet rfl]
    rfl
  have taken : engine.takeWindowStates.1 = ts.flatMap (fun t => outputs t.2.2) := by
    rw [QueryEngine.takeWindowStates, results, List.flatMap_map]
    rfl
  have reports : ∀ t ∈ ts, (∀ output ∈ outputs t.2.2, (clockOf t.1 t.2.1).Within (levelMark level)
        (fun plan => levelMark level' plan + plan.slide) output.key) ∧
      ∀ key, (clockOf t.1 t.2.1).Within (levelMark level)
          (fun plan => levelMark level' plan + plan.slide) key →
        totalFor key (outputs t.2.2) = Runtime.share display t.1.plan t.2.1 key ∧
        (Runtime.share display t.1.plan t.2.1 key ≠ 0 →
          key ∈ (outputs t.2.2).map QueryWindowState.key) := by
    intro t member
    obtain ⟨inside, ledger, move⟩ := all t member
    have clock : clockOf t.1 t.2.1 ∈ s.clocks := clocks ▸ List.mem_map_of_mem member
    exact ledger.finish_share (at_back _ clock) (fits _ clock) (checks t.1 inside) move rfl
  refine ⟨clocks', ⟨by rw [clocks'], fun key passes => ⟨?_, shares key⟩⟩, ?_, ?_⟩
  · obtain ⟨c, member, passed⟩ := passes
    exact ⟨c, clocks' ▸ member, passed⟩
  · intro output waiting
    rw [taken] at waiting
    obtain ⟨t, member, waits⟩ := List.mem_flatMap.mp waiting
    rw [clocks', clocks]
    exact ⟨_, List.mem_map_of_mem member, (reports t member).1 output waits⟩
  · intro c member key within
    rw [clocks'] at member
    rw [shares, taken]
    have total : s.share display key = (ts.map (fun t =>
        if t.1.plan.query.name = key.queryName then Runtime.share display t.1.plan t.2.1 key
        else 0)).sum := by
      rw [share, queries, histories, zipWith_map_same]
    rw [total]
    refine totalFor_gathered (fun t inside output waits => ?_) fun t inside named => ?_
    · obtain ⟨_, _, _, plan, _⟩ := each t inside
      obtain ⟨window, _, rfl⟩ := List.mem_map.mp waits
      exact congrArg (fun plan => plan.query.name) plan
    · have clock : clockOf t.1 t.2.1 ∈ s.clocks := clocks ▸ List.mem_map_of_mem inside
      obtain rfl := at_level.clock_eq member clock (within.name.trans named.symm)
      exact (reports t inside).2 key within

end Session

end FlowSketch.Source.Runtime
