import FlowSketch.Source.Runtime.Ring
import FlowSketch.Source.Runtime.Sharded

/-!
# What the merge map holds

Over `logBackend` the map that `take_estimates` builds has one entry per key, holding everything the
shards handed out under it.
-/

namespace FlowSketch.Source.Runtime
open Lib.SortedMap Source.Core

abbrev LogOutput := QueryWindowState (Multiset Update)

/-- Everything handed out under a key. -/
def totalFor (key : WindowKey) (outputs : List LogOutput) : Multiset Update :=
  ((outputs.filter (fun output => output.key = key)).map (fun output => output.state.state)).sum

theorem totalFor_append (key : WindowKey) (outputs more : List LogOutput) :
    totalFor key (outputs ++ more) = totalFor key outputs + totalFor key more := by
  simp [totalFor]

theorem totalFor_absent {key : WindowKey} {outputs : List LogOutput}
    (absent : key ∉ outputs.map QueryWindowState.key) : totalFor key outputs = 0 := by
  have none_left : outputs.filter (fun output => output.key = key) = [] := by
    rw [List.filter_eq_nil_iff]
    intro output member same
    exact absent (List.mem_map.mpr ⟨output, member, of_decide_eq_true same⟩)
  rw [totalFor, none_left]
  rfl

theorem totalFor_singleton (key : WindowKey) (output : LogOutput) :
    totalFor key [output] = if output.key = key then output.state.state else 0 := by
  by_cases same : output.key = key <;> simp [totalFor, same]

/-- The merged window under a key. -/
def mergedWindow (key : WindowKey) (outputs : List LogOutput) : WindowState (Multiset Update) where
  state := totalFor key outputs
  windowStartNanos := key.start
  windowEndNanos := key.stop

structure Totals (outputs : List LogOutput) (merged : List (WindowKey × WindowState (Multiset Update))) :
    Prop where
  sorted : Sorted merged
  entries : ∀ key window, (key, window) ∈ merged ↔
    key ∈ outputs.map QueryWindowState.key ∧ window = mergedWindow key outputs

theorem Totals.nil : Totals [] [] := ⟨List.Pairwise.nil, by simp⟩

theorem Totals.append {outputs : List LogOutput}
    {merged : List (WindowKey × WindowState (Multiset Update))} (totals : Totals outputs merged)
    (output : LogOutput) :
    ∃ merged', mergeOutput logBackend output merged = .ok merged' ∧
      Totals (outputs ++ [output]) merged' := by
  have join : ∀ old, (output.key, old) ∈ merged → old.mergeFrom logBackend output.state =
      .ok (mergedWindow output.key (outputs ++ [output])) := by
    intro old member
    obtain ⟨_, rfl⟩ := (totals.entries _ _).mp member
    rw [WindowState.mergeFrom, if_neg (by simp [mergedWindow, QueryWindowState.key])]
    simp [logBackend, Except.map, mergedWindow, totalFor_append, totalFor_singleton]
  obtain ⟨merged', done⟩ := upsert_total (fun old member => ⟨_, join old member⟩)
  refine ⟨merged', done, upsert_sorted totals.sorted done, ?_⟩
  intro key window
  rw [mem_upsert totals.sorted done, List.map_append, List.mem_append]
  by_cases same : key = output.key
  · subst same
    simp only [ne_eq, not_true_eq_false, false_and, true_and, false_or, List.map_cons, List.map_nil,
      List.mem_singleton, or_true]
    constructor
    · rintro (⟨old, member, joined⟩ | ⟨absent, rfl⟩)
      · rw [join old member] at joined
        exact (Except.ok.inj joined).symm
      · have new : output.key ∉ outputs.map QueryWindowState.key := by
          intro inside
          exact absent _ ((totals.entries _ _).mpr ⟨inside, rfl⟩)
        simp only [mergedWindow, totalFor_append, totalFor_absent new, totalFor_singleton, if_true,
          zero_add]
        rfl
    · rintro rfl
      by_cases old : output.key ∈ outputs.map QueryWindowState.key
      · have member := (totals.entries output.key _).mpr ⟨old, rfl⟩
        exact Or.inl ⟨_, member, join _ member⟩
      · refine Or.inr ⟨fun window member => old ((totals.entries _ _).mp member).1, ?_⟩
        simp only [mergedWindow, totalFor_append, totalFor_absent old, totalFor_singleton, if_true,
          zero_add]
        rfl
  · have unchanged : mergedWindow key (outputs ++ [output]) = mergedWindow key outputs := by
      simp only [mergedWindow, totalFor_append, totalFor_singleton, if_neg (Ne.symm same), add_zero]
    have elsewhere : key ∉ [output].map QueryWindowState.key := by simp [same]
    simp only [ne_eq, same, not_false_eq_true, true_and, false_and, or_false, elsewhere, unchanged,
      totals.entries]

/-- Merging outputs one after the other never fails. -/
theorem Totals.fold (outputs : List LogOutput) {seen : List LogOutput}
    {merged : List (WindowKey × WindowState (Multiset Update))} (totals : Totals seen merged) :
    ∃ merged', outputs.foldlM (fun merged output => mergeOutput logBackend output merged) merged =
      .ok merged' ∧ Totals (seen ++ outputs) merged' := by
  induction outputs generalizing seen merged with
  | nil => exact ⟨merged, rfl, by rwa [List.append_nil]⟩
  | cons output rest ih =>
    obtain ⟨next, stepped, nextTotals⟩ := totals.append output
    obtain ⟨merged', done, all⟩ := ih nextTotals
    refine ⟨merged', ?_, by rwa [List.append_assoc] at all⟩
    rw [List.foldlM_cons, stepped]
    exact done

/-- Taking the windows of the shards never fails, and gives their totals. -/
theorem takeMerged_log (s : ShardedQueryEngine (Multiset Update)) :
    ∃ merged, s.takeMerged logBackend =
        .ok (merged, { s with shards := s.shards.map QueryEngine.drained }) ∧
      Totals (s.shards.flatMap (fun e => e.takeWindowStates.1)) merged := by
  obtain ⟨merged, done, totals⟩ :=
    Totals.nil.fold (s.shards.flatMap (fun e => e.takeWindowStates.1))
  refine ⟨merged, ?_, totals⟩
  rw [ShardedQueryEngine.takeMerged, done]
  rfl

end FlowSketch.Source.Runtime
