import FlowSketch.Source.Agent.Reports
import FlowSketch.Source.Runtime.Merging

/-!
# What the checkpoints publish

The reports of all lanes, merged, are published. What has been published up to a mark holds each window
with updates that ends there, once, with what all lanes together add to it; a checkpoint moves the mark.
-/

namespace FlowSketch.Source.Agent
open Lib Lib.Word64 Lib.SortedMap Lib.Lists Source.Core Source.Runtime Source.Runtime.Session

abbrev Entry := WindowKey × WindowState (Multiset Update)

/-- What the lanes together add to a window. -/
def total (display : Ipv6Text) (lanes : List Log) (key : WindowKey) : Multiset Update :=
  (lanes.map (fun s => s.share display key)).sum

/-- The window under a key, with what the lanes add to it. -/
def wholeWindow (display : Ipv6Text) (lanes : List Log) (key : WindowKey) :
    WindowState (Multiset Update) where
  state := total display lanes key
  windowStartNanos := key.start
  windowEndNanos := key.stop

/-- A key is that of a window of one of the plans, which ends after `low` and not after `high`. -/
def IsWindow (plans : List Plan) (opening : Nat) (low high : Plan → Nat) (key : WindowKey) : Prop :=
  ∃ plan ∈ plans, (openedClock opening plan).Within low high key

/-- The windows up to the mark are published. -/
structure Published (display : Ipv6Text) (plans : List Plan) (opening : Nat) (mark : Plan → Nat)
    (lanes : List Log) (entries : List Entry) : Prop where
  below : ∀ entry ∈ entries, IsWindow plans opening (fun _ => 0) mark entry.1
  whole : ∀ entry ∈ entries, entry.2 = wholeWindow display lanes entry.1
  distinct : (entries.map (fun entry => (entry.1.queryName, entry.1.stop))).Nodup
  complete : ∀ key, IsWindow plans opening (fun _ => 0) mark key → total display lanes key ≠ 0 →
    key ∈ entries.map Prod.fst

variable {display : Ipv6Text} {plans : List Plan} {opening level : Nat} {mark low high : Plan → Nat}
  {lanes lanes' : List Log} {entries : List Entry} {key : WindowKey}

theorem total_pos (nonzero : total display lanes key ≠ 0) : ∃ s ∈ lanes, s.share display key ≠ 0 := by
  by_contra none
  push Not at none
  refine nonzero (List.sum_eq_zero fun x listed => ?_)
  obtain ⟨s, member, rfl⟩ := List.mem_map.mp listed
  exact none s member

/-- Nothing ends up to where the queries opened. -/
theorem Published.start (display : Ipv6Text) (plans : List Plan) (opening : Nat) (lanes : List Log) :
    Published display plans opening (levelMark opening) lanes [] := by
  refine ⟨nofun, nofun, List.nodup_nil, fun key window nonzero => ?_⟩
  obtain ⟨plan, _, within⟩ := window
  obtain ⟨first, opened, start⟩ := within.start
  obtain ⟨s, _, some_share⟩ := total_pos nonzero
  have bounds := share_start_lt some_share
  have reached : key.stop ≤ first := Option.some.inj opened ▸ within.below
  have late : first ≤ windowStart plan first key.stop := Nat.le_max_left ..
  have same : key.start = windowStart plan first key.stop := start
  omega

/-- Lanes that leave their shares of the published windows leave what is published as it is. -/
theorem Published.extend (published : Published display plans opening mark lanes entries)
    (kept : List.Forall₂ (fun s s' => ∀ key, IsWindow plans opening (fun _ => 0) mark key →
      s'.share display key = s.share display key) lanes lanes') :
    Published display plans opening mark lanes' entries := by
  have same : ∀ key, IsWindow plans opening (fun _ => 0) mark key →
      total display lanes' key = total display lanes key := by
    intro key window
    obtain ⟨pairs, rfl, rfl, all⟩ := exists_pairs kept
    rw [total, total, List.map_map, List.map_map]
    exact congrArg List.sum (List.map_congr_left fun pair member => all pair member key window)
  refine ⟨published.below, fun entry member => ?_, published.distinct, fun key window nonzero => ?_⟩
  · rw [published.whole entry member, wholeWindow, wholeWindow, same _ (published.below entry member)]
  · exact published.complete key window (same key window ▸ nonzero)

/-- Two windows of plans with different names are the same if name and end are. -/
theorem IsWindow.unique (names : (plans.map (fun plan => plan.query.name)).Nodup)
    {low' high' : Plan → Nat} {key' : WindowKey} (window : IsWindow plans opening low high key)
    (window' : IsWindow plans opening low' high' key') (name : key.queryName = key'.queryName)
    (stop : key.stop = key'.stop) : key = key' := by
  obtain ⟨plan, member, within⟩ := window
  obtain ⟨plan', member', within'⟩ := window'
  obtain rfl : plan = plan' := List.inj_on_of_nodup_map names member member'
    (within.name.trans (name.trans within'.name.symm))
  obtain ⟨first, opened, start⟩ := within.start
  obtain ⟨first', opened', start'⟩ := within'.start
  obtain rfl := Option.some.inj (opened.symm.trans opened')
  obtain ⟨_, _, _⟩ := key
  obtain ⟨_, _, _⟩ := key'
  simp only at name stop start start'
  rw [WindowKey.mk.injEq, start, start', stop]
  exact ⟨name, rfl, rfl⟩

/-- What the reports of all lanes hold together. -/
theorem totalFor_reports {reports : List (List LogOutput)}
    (opened : ∀ s ∈ lanes, s.Opened plans opening)
    (reported : List.Forall₂ (fun report s => Reported display low high report s) reports lanes)
    (window : IsWindow plans opening low high key) :
    totalFor key reports.flatten = total display lanes key ∧
      (total display lanes key ≠ 0 → key ∈ reports.flatten.map QueryWindowState.key) := by
  obtain ⟨plan, member, within⟩ := window
  obtain ⟨pairs, rfl, rfl, all⟩ := exists_pairs reported
  have each : ∀ pair ∈ pairs, totalFor key pair.1 = pair.2.share display key ∧
      (pair.2.share display key ≠ 0 → key ∈ pair.1.map QueryWindowState.key) := by
    intro pair inside
    have isOpen := opened pair.2 (List.mem_map_of_mem inside)
    obtain ⟨c, clock, rfl⟩ := isOpen.clock member
    exact (all pair inside).shares c clock key ((isOpen.within clock).mpr within)
  refine ⟨?_, fun nonzero => ?_⟩
  · rw [← List.flatMap_id, totalFor_flatMap, total, List.map_map, List.map_map]
    exact congrArg List.sum (List.map_congr_left fun pair inside => (each pair inside).1)
  · obtain ⟨s, listed, some_share⟩ := total_pos nonzero
    obtain ⟨pair, inside, rfl⟩ := List.mem_map.mp listed
    obtain ⟨output, waiting, same⟩ := List.mem_map.mp ((each pair inside).2 some_share)
    exact List.mem_map.mpr ⟨output, List.mem_flatten.mpr ⟨_, List.mem_map_of_mem inside, waiting⟩, same⟩

/-- A checkpoint moves the mark. -/
theorem Published.checkpoint {reports : List (List LogOutput)} {merged : List Entry}
    (published : Published display plans opening low lanes entries)
    (names : (plans.map (fun plan => plan.query.name)).Nodup)
    (opened : ∀ s ∈ lanes, s.Opened plans opening)
    (reported : List.Forall₂ (fun report s => Reported display low high report s) reports lanes)
    (grows : ∀ plan ∈ plans, low plan ≤ high plan) (totals : Totals reports.flatten merged) :
    Published display plans opening high lanes (entries ++ merged) := by
  have fresh : ∀ entry ∈ merged, IsWindow plans opening low high entry.1 ∧
      entry.2 = wholeWindow display lanes entry.1 := by
    intro entry member
    obtain ⟨listed, window⟩ := (totals.entries entry.1 entry.2).mp member
    obtain ⟨output, waiting, same⟩ := List.mem_map.mp listed
    obtain ⟨report, inside, held⟩ := List.mem_flatten.mp waiting
    obtain ⟨s, lane, holds⟩ := exists_right_of_mem reported inside
    obtain ⟨c, clock, within⟩ := holds.keys output held
    have isOpen := opened s lane
    have isWindow : IsWindow plans opening low high entry.1 :=
      ⟨c.plan, isOpen.plan_mem clock, same ▸ (isOpen.within clock).mp within⟩
    refine ⟨isWindow, ?_⟩
    rw [window, mergedWindow, (totalFor_reports opened reported isWindow).1, wholeWindow]
  refine ⟨fun entry member => ?_, fun entry member => ?_, ?_, fun key window nonzero => ?_⟩
  · rcases List.mem_append.mp member with old | new
    · obtain ⟨plan, listed, within⟩ := published.below entry old
      exact ⟨plan, listed, within.name, within.start, within.boundary, within.above,
        within.below.trans (grows plan listed)⟩
    · obtain ⟨⟨plan, listed, within⟩, _⟩ := fresh entry new
      exact ⟨plan, listed, within.name, within.start, within.boundary,
        (Nat.zero_le _).trans_lt within.above, within.below⟩
  · rcases List.mem_append.mp member with old | new
    · exact published.whole entry old
    · exact (fresh entry new).2
  · rw [List.map_append, List.nodup_append]
    refine ⟨published.distinct, List.Nodup.map_on ?_ (totals.sorted.imp fun less same =>
      less.ne (congrArg Prod.fst same)), ?_⟩
    · intro entry member entry' member' same
      obtain ⟨window, whole⟩ := fresh entry member
      obtain ⟨window', whole'⟩ := fresh entry' member'
      have keys := window.unique names window' (congrArg Prod.fst same) (congrArg Prod.snd same)
      exact Prod.ext keys (by rw [whole, whole', keys])
    · intro pair old pair' new same
      obtain ⟨entry, member, rfl⟩ := List.mem_map.mp old
      obtain ⟨entry', member', rfl⟩ := List.mem_map.mp new
      obtain ⟨plan, listed, within⟩ := published.below entry member
      obtain ⟨⟨plan', listed', within'⟩, _⟩ := fresh entry' member'
      obtain rfl : plan = plan' := List.inj_on_of_nodup_map names listed listed'
        (within.name.trans ((congrArg Prod.fst same).trans within'.name.symm))
      have stops : entry.1.stop = entry'.1.stop := congrArg Prod.snd same
      have below : entry.1.stop ≤ low plan := within.below
      have above : low plan < entry'.1.stop := within'.above
      omega
  · obtain ⟨plan, listed, within⟩ := window
    rw [List.map_append, List.mem_append]
    by_cases before : key.stop ≤ low plan
    · exact .inl (published.complete key ⟨plan, listed, within.name, within.start, within.boundary,
        within.above, before⟩ nonzero)
    · have window : IsWindow plans opening low high key := ⟨plan, listed, within.name, within.start,
        within.boundary, Nat.lt_of_not_le before, within.below⟩
      have held := (totalFor_reports opened reported window).2 nonzero
      exact .inr (List.mem_map_of_mem ((totals.entries key _).mpr ⟨held, rfl⟩))

/-! ## `publish_reports` -/

theorem forM_ok {α : Type} {check : α → Except SketchError Unit} {list : List α}
    (all : ∀ a ∈ list, check a = .ok ()) : list.forM check = .ok () := by
  induction list with
  | nil => rfl
  | cons a rest ih =>
    rw [List.forall_mem_cons] at all
    have step : (a :: rest).forM check = (check a >>= fun _ => rest.forM check) := List.forM_cons ..
    rw [step, all.1]
    exact ih all.2

/-- Current windows with the same bounds for the same query are aligned. -/
theorem alignCurrent_ok {bounds : String → Nat × Nat} (windows : List LogOutput)
    (agree : ∀ window ∈ windows, boundsOf window = bounds window.queryName)
    {seen : TreeMap String (Nat × Nat)} (held : ∀ name b, seen.get name = some b → b = bounds name) :
    ∃ after, alignCurrent seen windows = .ok after ∧
      ∀ name b, after.get name = some b → b = bounds name := by
  induction windows generalizing seen with
  | nil => exact ⟨seen, rfl, held⟩
  | cons window rest ih =>
    rw [List.forall_mem_cons] at agree
    rw [alignCurrent]
    cases known : seen.get window.queryName with
    | some existing =>
      have same : existing = boundsOf window := (held _ _ known).trans agree.1.symm
      simp only [same, ne_eq, not_true_eq_false, if_false]
      exact ih agree.2 held
    | none =>
      refine ih agree.2 fun name b found => ?_
      rw [TreeMap.get_insert] at found
      split at found
      next here =>
        rw [← Option.some.inj found, here, agree.1]
      next => exact held name b found

/-- What is published of the reports so far: outputs under their keys, bounds under their names. -/
structure Gathers (bounds : String → Nat × Nat) (seen : List LogOutput)
    (so : Agent.Publication (Multiset Update)) : Prop where
  completed : Totals seen so.completed
  current : ∃ others, Totals others so.current
  bounds : ∀ name b, so.currentBounds.get name = some b → b = bounds name

theorem publishReport_ok {bounds : String → Nat × Nat} {includeCurrent : Bool} {seen : List LogOutput}
    {so : Agent.Publication (Multiset Update)} (gathers : Gathers bounds seen so)
    {report : WorkerReport (Multiset Update)}
    (agree : ∀ window ∈ report.current, boundsOf window = bounds window.queryName) :
    ∃ next, publishReport logBackend includeCurrent so report = .ok next ∧
      Gathers bounds (seen ++ report.completed) next := by
  obtain ⟨totals, ⟨others, currentTotals⟩, held⟩ := gathers
  obtain ⟨completed, merged, totals'⟩ := totals.fold report.completed
  cases includeCurrent with
  | false =>
    refine ⟨{ so with completed }, ?_, totals', ⟨others, currentTotals⟩, held⟩
    rw [publishReport, mergeWindows, merged]
    rfl
  | true =>
    obtain ⟨after, aligned, held'⟩ := alignCurrent_ok report.current agree held
    obtain ⟨current, mergedCurrent, currentTotals'⟩ := currentTotals.fold report.current
    refine ⟨{ completed, current, currentBounds := after }, ?_, totals', ⟨_, currentTotals'⟩, held'⟩
    rw [publishReport, mergeWindows, merged, mergeWindows, mergedCurrent]
    show (alignCurrent so.currentBounds report.current >>= _) = _
    rw [aligned]
    rfl

theorem publishReport_fold {bounds : String → Nat × Nat} {includeCurrent : Bool}
    (reports : List (WorkerReport (Multiset Update)))
    (agree : ∀ report ∈ reports, ∀ window ∈ report.current, boundsOf window = bounds window.queryName)
    {seen : List LogOutput} {so : Agent.Publication (Multiset Update)} (gathers : Gathers bounds seen so) :
    ∃ publication, reports.foldlM (publishReport logBackend includeCurrent) so = .ok publication ∧
      Gathers bounds (seen ++ (reports.map WorkerReport.completed).flatten) publication := by
  induction reports generalizing seen so with
  | nil => exact ⟨so, rfl, by rwa [List.map_nil, List.flatten_nil, List.append_nil]⟩
  | cons report rest ih =>
    rw [List.forall_mem_cons] at agree
    obtain ⟨next, published, nextGathers⟩ := @publishReport_ok _ includeCurrent _ _ gathers report agree.1
    obtain ⟨publication, done, all⟩ := ih agree.2 nextGathers
    refine ⟨publication, ?_, by rwa [List.append_assoc] at all⟩
    rw [List.foldlM_cons, published]
    exact done

/-- Reports that agree on the current windows are published, and the completed windows are merged. -/
theorem publishReports_ok {bounds : String → Nat × Nat} {includeCurrent : Bool}
    {reports : List (WorkerReport (Multiset Update))}
    (agree : ∀ report ∈ reports, ∀ window ∈ report.current, boundsOf window = bounds window.queryName)
    (known : ∀ report ∈ reports, ∀ output ∈ report.completed,
      output.queryName ∈ plans.map (fun plan => plan.query.name)) :
    ∃ publication, publishReports logBackend plans includeCurrent reports = .ok publication ∧
      Totals (reports.map WorkerReport.completed).flatten publication.completed := by
  obtain ⟨publication, done, gathers⟩ := @publishReport_fold _ includeCurrent reports agree []
    { completed := [], current := [], currentBounds := .empty } ⟨.nil, ⟨[], .nil⟩, nofun⟩
  have totals := gathers.completed
  rw [List.nil_append] at totals
  refine ⟨publication, ?_, totals⟩
  have all_known : ∀ entry ∈ publication.completed, knownQuery plans entry = .ok () := by
    intro entry member
    obtain ⟨listed, _⟩ := (totals.entries entry.1 entry.2).mp member
    obtain ⟨output, waiting, same⟩ := List.mem_map.mp listed
    obtain ⟨held, inside, there⟩ := List.mem_flatten.mp waiting
    obtain ⟨report, origin, rfl⟩ := List.mem_map.mp inside
    have named : output.queryName = entry.1.queryName := congrArg WindowKey.queryName same
    exact if_pos (named ▸ known report origin output there)
  unfold publishReports
  rw [done]
  have check : forM publication.completed (knownQuery plans) = .ok () := forM_ok all_known
  show (forM publication.completed (knownQuery plans) >>= fun _ => pure publication) = _
  rw [check]
  rfl

/-- The reports of all lanes at one level are published. -/
theorem reports_published {top : Nat} {finish includeCurrent : Bool}
    {reports : List (WorkerReport (Multiset Update))}
    (names : (plans.map (fun plan => plan.query.name)).Nodup)
    (opened : ∀ s ∈ lanes, s.Opened plans opening)
    (holds : List.Forall₂ (fun report s => Report display plans opening level top finish report s)
      reports lanes) :
    ∃ publication, publishReports logBackend plans includeCurrent reports = .ok publication ∧
      Totals (reports.map WorkerReport.completed).flatten publication.completed := by
  let bounds : String → Nat × Nat := fun name =>
    ((plans.find? (fun plan => plan.query.name = name)).map (currentBounds opening top)).getD (0, 0)
  have found : ∀ plan ∈ plans, bounds plan.query.name = currentBounds opening top plan := by
    intro plan member
    simp only [bounds]
    cases search : plans.find? (fun other => other.query.name = plan.query.name) with
    | none => exact absurd (List.find?_eq_none.mp search plan member) (by simp)
    | some other =>
      have named := List.find?_some search
      rw [List.inj_on_of_nodup_map names (List.mem_of_find?_eq_some search) member
        (of_decide_eq_true named)]
      rfl
  refine @publishReports_ok _ bounds _ _ (fun report member window current => ?_)
    fun report member output waiting => ?_
  · obtain ⟨s, _, held⟩ := exists_right_of_mem holds member
    obtain ⟨plan, listed, named, same⟩ := held.current window current
    rw [same, named, found plan listed]
  · obtain ⟨s, lane, held⟩ := exists_right_of_mem holds member
    obtain ⟨c, clock, within⟩ := held.completed.keys output waiting
    exact List.mem_map.mpr ⟨c.plan, (opened s lane).plan_mem clock, within.name⟩

end FlowSketch.Source.Agent
