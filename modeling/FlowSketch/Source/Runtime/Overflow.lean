import FlowSketch.Source.Runtime.Shipping

/-!
# Merging what the nodes send

The gateway merges the windows of its nodes with plain `u64` additions. The decoder checks each entry by
itself, so an accepted window may hold any words. As long as the counts a merge adds up fit a word, so do
their errors, and no error ever exceeds its count.
-/

namespace FlowSketch.Source.SpaceSaving
open Lib.Octets Lib.Word64 Lib.CounterSummary Source.Core

/-! ## Summaries -/

/-- The counts that a merge adds up. -/
def CountsFit (hashing : Hashing) (self other : SpaceSaving) : Prop :=
  ∀ key ∈ mergedKeys hashing self other,
    (charge hashing self key).count + (charge hashing other key).count < modulus

/-- Every addition of a merge is exact. -/
structure AddsExactly (hashing : Hashing) (mine theirs : SpaceSaving) : Prop where
  entries : MergeFits hashing mine theirs
  totalWeight : mine.totalWeight + theirs.totalWeight < modulus
  updates : mine.updates + theirs.updates < modulus

/-- The counts and the totals fit; nothing is said of the errors. -/
structure Fits (hashing : Hashing) (mine theirs : SpaceSaving) : Prop where
  counts : CountsFit hashing mine theirs
  totalWeight : mine.totalWeight + theirs.totalWeight < modulus
  updates : mine.updates + theirs.updates < modulus

theorem charge_sane {hashing : Hashing} {s : SpaceSaving} (wf : Wf hashing s) (sane : Sane s)
    (key : Bytes) : (charge hashing s key).error ≤ (charge hashing s key).count := by
  unfold charge
  rw [get_eq_entry wf.indexed]
  cases found : s.abs.entry key with
  | none => exact le_rfl
  | some e =>
    obtain ⟨c, member, rfl, rfl⟩ := (summaryOf_entry_iff wf.indexed.distinct _ _).mp found
    exact sane c member

/-- The entries of a merged summary are sums of charges. -/
theorem mergeFrom_entries {hashing : Hashing} {self other t : SpaceSaving} (left : Wf hashing self)
    (right : Wf hashing other) (done : self.mergeFrom hashing other = .ok t) :
    ∀ c ∈ t.contents, c.key ∈ mergedKeys hashing self other ∧ c.entry = joint hashing self other c.key := by
  obtain ⟨written, _⟩ := insertAll_spec (retained hashing self other)
    (Wf.clear left.indexed.positive) (retained_nodup left.indexed right.indexed)
    (by simp [clear, contents]) (by simp [clear, retained])
  obtain ⟨_, _, result⟩ := bind_ok done
  cases result
  intro c member
  have listed : c ∈ self.clear.contents ++
      (retained hashing self other).map (self.clear.contentOf hashing) := written.contents ▸ member
  have nothing : self.clear.contents = [] := rfl
  rw [nothing, List.nil_append] at listed
  obtain ⟨item, inside, rfl⟩ := List.mem_map.mp listed
  obtain ⟨keys, entries⟩ := sortedEntries_spec left.indexed right.indexed
  have sorted := List.mem_of_mem_take inside
  exact ⟨keys.mem_iff.mp (List.mem_map_of_mem sorted), entries item sorted⟩

theorem merge_sane {hashing : Hashing} {self other t : SpaceSaving} (left : Wf hashing self)
    (right : Wf hashing other) (mine : Sane self) (theirs : Sane other)
    (fits : CountsFit hashing self other) (done : self.mergeFrom hashing other = .ok t) : Sane t := by
  intro c member
  obtain ⟨merged, entry⟩ := mergeFrom_entries left right done c member
  have counts := fits c.key merged
  have less := charge_sane left mine c.key
  have less' := charge_sane right theirs c.key
  rw [entry, joint, wrappingAdd_of_lt counts, wrappingAdd_of_lt (by omega)]
  exact Nat.add_le_add less less'

/-- No guaranteed count that is emitted underflows. -/
theorem Sane.guaranteed {s : SpaceSaving} (sane : Sane s) {limit : Nat} {item : Bytes × Entry}
    (emitted : item ∈ s.topK limit) : item.2.error ≤ item.2.count := by
  have sorted := List.mem_of_mem_take emitted
  rw [(List.mergeSort_perm _ _).mem_iff] at sorted
  obtain ⟨slot, member, rfl⟩ := List.mem_map.mp sorted
  exact sane slot.content (List.mem_map_of_mem member)

/-! ## Decoded summaries -/

theorem u64_word {rest later : Bytes} {value : Nat} (read : Reader.u64 rest = .ok (value, later)) :
    value < modulus := Reader.int_lt read

theorem decodeItems_words {n : Nat} {rest later : Bytes} {items : List (Bytes × Entry)}
    (read : decodeItems n rest = .ok (items, later)) : ∀ item ∈ items, item.2.count < modulus := by
  induction n generalizing rest items with
  | zero =>
    cases read
    simp
  | succ n ih =>
    obtain ⟨key, _, _, read⟩ := Read.bind_ok read
    obtain ⟨count, _, counted, read⟩ := Read.bind_ok read
    obtain ⟨error, _, _, read⟩ := Read.bind_ok read
    obtain ⟨others, _, tail, read⟩ := Read.bind_ok read
    cases read
    exact List.forall_mem_cons.mpr ⟨u64_word counted, ih tail⟩

/-- Accepted entries hold words, and no error exceeds its count. -/
theorem fromSnapshot_sane {hashing : Hashing} {bytes : Bytes} {t : SpaceSaving}
    (accepted : fromSnapshot hashing bytes = .ok t) : Sane t ∧ WordCounts t.contents := by
  obtain ⟨wf, _, items, decoded, distinct, sound, view⟩ := fromSnapshot_spec accepted
  have words : ∀ item ∈ items, item.2.count < modulus := by
    obtain ⟨_, _, decoded⟩ := bind_ok decoded
    obtain ⟨_, _, decoded⟩ := bind_ok decoded
    obtain ⟨_, _, decoded⟩ := bind_ok decoded
    obtain ⟨_, _, decoded⟩ := bind_ok decoded
    obtain ⟨_, read, decoded⟩ := bind_ok decoded
    cases decoded
    exact decodeItems_words read
  have listed : ∀ c ∈ t.contents, ∃ item ∈ items, c.entry = item.2 := by
    intro c member
    have found := summaryOf_entry wf.indexed.distinct member
    have whole : t.abs = summaryOf (items.map (t.contentOf hashing)) :=
      view.trans (summaryOf_insertAll hashing t distinct).symm
    have distinct' : ((items.map (t.contentOf hashing)).map Content.key).Nodup := by
      rw [List.map_map]
      exact distinct
    change t.abs.entry c.key = some c.entry at found
    rw [whole] at found
    obtain ⟨d, inside, _, same⟩ := (summaryOf_entry_iff distinct' _ _).mp found
    obtain ⟨item, member', rfl⟩ := List.mem_map.mp inside
    exact ⟨item, member', same.symm⟩
  constructor
  · intro c member
    obtain ⟨item, inside, same⟩ := listed c member
    rw [same]
    exact sound item inside
  · intro c member
    obtain ⟨item, inside, same⟩ := listed c member
    rw [same]
    exact words item inside

/-- Merged into a fresh summary the entries are copied, so they stay sane. -/
theorem fresh_merge_sane {hashing : Hashing} {capacity : Nat} {hash : HashSpec}
    {s t : SpaceSaving} (positive : 0 < capacity) (wf : Wf hashing s) (sane : Sane s)
    (words : WordCounts s.contents) (done : (fresh capacity hash 0 0).mergeFrom hashing s = .ok t) :
    Sane t := by
  have freshWf : Wf hashing (fresh capacity hash 0 0) :=
    Wf.clear (s := fresh capacity hash 0 0) positive
  refine merge_sane freshWf wf (by simp [Sane, contents, fresh]) sane (fun key member => ?_) done
  have nothing : charge hashing (fresh capacity hash 0 0) key = { count := 0, error := 0 } := by
    have missing : (fresh capacity hash 0 0).missingCharge = 0 :=
      if_neg (Nat.not_le.mpr positive)
    rw [charge, get_eq_entry freshWf.indexed, missing]
    rfl
  have tracked : key ∈ s.abs.keys :=
    ((mem_mergedKeys freshWf.indexed key).mp member).resolve_left (by simp [abs, summaryOf, contents, fresh])
  obtain ⟨e, found⟩ := Summary.entry_of_mem tracked
  obtain ⟨c, inside, rfl, rfl⟩ := (summaryOf_entry_iff wf.indexed.distinct _ _).mp found
  rw [nothing, Nat.zero_add, charge, get_eq_entry wf.indexed, found]
  exact words c inside

end FlowSketch.Source.SpaceSaving

namespace FlowSketch.Source.CountMinSketch
open Lib.Word64

/-- Every addition of a merge is exact. -/
structure AddsExactly (mine theirs : CountMinSketch) : Prop where
  cells : ∀ pair ∈ mine.table.zip theirs.table, pair.1 + pair.2 < modulus
  totalWeight : mine.totalWeight + theirs.totalWeight < modulus
  updates : mine.updates + theirs.updates < modulus

end FlowSketch.Source.CountMinSketch

namespace FlowSketch.Source.Runtime
open Lib.Octets Lib.Word64 Lib.AssocMap Source.Core

/-! ## Windows -/

/-- The plans of heavy hitters, and of counts and sums. -/
inductive CountPlan where
  | heavyHitters (capacity : Nat)
  | counter (capacity width depth : Nat) (conservative : Bool)
  deriving DecidableEq, Repr

def CountPlan.sketch : CountPlan → PhysicalSketch
  | .heavyHitters capacity => .spaceSaving capacity
  | .counter capacity width depth conservative =>
    .composite [.spaceSaving capacity, .countMin width depth conservative]

variable {F : Type}

namespace QueryState

/-- No error exceeds its count, neither among the tracked entries nor among those that are emitted. -/
def Sane : QueryState F → Prop
  | .heavyHitters ss => ss.Sane ∧ ∀ limit, ∀ item ∈ ss.topK limit, item.2.error ≤ item.2.count
  | .counter _ keys => keys.Sane ∧ ∀ limit, ∀ item ∈ keys.topK limit, item.2.error ≤ item.2.count
  | _ => True

/-- Every addition that merging these states makes is exact. -/
def AddsExactly (hashing : Hashing) : QueryState F → QueryState F → Prop
  | .heavyHitters mine, .heavyHitters theirs => mine.AddsExactly hashing theirs
  | .counter table keys, .counter table' keys' =>
    table.AddsExactly table' ∧ keys.AddsExactly hashing keys'
  | _, _ => True

/-- The counts, cells and totals of these states fit a word together. -/
def Fits (hashing : Hashing) : QueryState F → QueryState F → Prop
  | .heavyHitters mine, .heavyHitters theirs => mine.Fits hashing theirs
  | .counter table keys, .counter table' keys' => table.AddsExactly table' ∧ keys.Fits hashing keys'
  | _, _ => True

end QueryState

/-- Windows that nodes have sent, merged in some order. -/
inductive Merges where
  | accepted (components : List (String × Bytes))
  | merge (left right : Merges)

namespace Merges

variable [LinearOrder F] (cardinality : Cardinality F) (hashing : Hashing) (hash : HashSpec)
variable (plan : CountPlan)

def eval : Merges → Except SketchError (WindowState (QueryState F))
  | accepted components => WindowState.fromComponents cardinality hashing plan.sketch hash components
  | merge left right => do
    let mine ← left.eval
    let theirs ← right.eval
    mine.mergeFrom (queryBackend cardinality hashing hash) theirs

/-- Every merge adds exactly, and every window on the way is sane. -/
def Safe : Merges → Prop
  | accepted components => ∀ w, eval cardinality hashing hash plan (.accepted components) = .ok w →
    w.state.Sane
  | merge left right => left.Safe ∧ right.Safe ∧
    ∀ mine theirs merged, eval cardinality hashing hash plan left = .ok mine →
      eval cardinality hashing hash plan right = .ok theirs →
      mine.mergeFrom (queryBackend cardinality hashing hash) theirs = .ok merged →
      mine.state.AddsExactly hashing theirs.state ∧ merged.state.Sane

end Merges

section

variable [LinearOrder F] {cardinality : Cardinality F} {hashing : Hashing} {hash : HashSpec}
variable {plan : CountPlan}

theorem sane_pair {ss : SpaceSaving} (sane : ss.Sane) :
    ss.Sane ∧ ∀ limit, ∀ item ∈ ss.topK limit, item.2.error ≤ item.2.count :=
  ⟨sane, fun _ _ emitted => sane.guaranteed emitted⟩

/-- What a fresh summary makes of a decoded one. -/
theorem summary_accepted {capacity : Nat} {empty parsed merged : SpaceSaving} {octets : Bytes}
    (created : SpaceSaving.new capacity hash = .ok empty)
    (decoded : SpaceSaving.fromSnapshot hashing octets = .ok parsed)
    (done : empty.mergeFrom hashing parsed = .ok merged) :
    Summarizes hashing capacity hash merged ∧ merged.Sane := by
  have summary := (Summarizes.new hashing created).1
  obtain ⟨wf, _⟩ := SpaceSaving.fromSnapshot_spec decoded
  obtain ⟨sane, words⟩ := SpaceSaving.fromSnapshot_sane decoded
  have step := (SpaceSaving.mergeFrom_inv summary.wf wf done).2
  refine ⟨⟨step.wf, step.capacity.trans summary.capacity, step.hash.trans summary.hash⟩, ?_⟩
  obtain ⟨positive, rfl⟩ := SpaceSaving.new_ok created
  exact SpaceSaving.fresh_merge_sane positive wf sane words done

theorem accepted_sane {components : List (String × Bytes)} {w : WindowState (QueryState F)}
    (accepted : WindowState.fromComponents cardinality hashing plan.sketch hash components = .ok w) :
    Suits hashing hash plan.sketch w.state ∧ w.state.Sane := by
  obtain ⟨names, _, accepted⟩ := bind_ok accepted
  obtain ⟨gathered, _, accepted⟩ := bind_ok accepted
  split at accepted
  · cases accepted
  obtain ⟨parsed, decodes, accepted⟩ := bind_ok accepted
  obtain ⟨empty, builds, accepted⟩ := bind_ok accepted
  obtain ⟨state, merges, accepted⟩ := bind_ok accepted
  cases accepted
  cases plan with
  | heavyHitters capacity =>
    obtain ⟨octets, _, decodes⟩ := bind_ok decodes
    obtain ⟨ss, decoded, decodes⟩ := bind_ok decodes
    cases decodes
    obtain ⟨fresh, created, rfl⟩ := map_ok builds
    obtain ⟨merged, done, rfl⟩ := map_ok merges
    obtain ⟨summary, sane⟩ := summary_accepted created decoded done
    exact ⟨.heavyHitters summary, sane_pair sane⟩
  | counter capacity width depth conservative =>
    obtain ⟨table, _, decodes⟩ := bind_ok decodes
    obtain ⟨cm, decodedTable, decodes⟩ := bind_ok decodes
    obtain ⟨octets, _, decodes⟩ := bind_ok decodes
    obtain ⟨keys, decoded, decodes⟩ := bind_ok decodes
    cases decodes
    obtain ⟨freshTable, createdTable, builds⟩ := bind_ok builds
    obtain ⟨fresh, created, builds⟩ := bind_ok builds
    cases builds
    obtain ⟨mergedTable, doneTable, merges⟩ := bind_ok merges
    obtain ⟨merged, done, merges⟩ := bind_ok merges
    cases merges
    obtain ⟨summary, sane⟩ := summary_accepted created decoded done
    obtain ⟨tabulates, _⟩ := Tabulates.new createdTable
    obtain ⟨_, _, doneTable⟩ := bind_ok doneTable
    cases doneTable
    refine ⟨.counter ⟨tabulates.width, tabulates.depth, tabulates.conservative, tabulates.hash⟩ summary,
      sane_pair sane⟩

theorem mergeFrom_state {mine theirs merged : WindowState (QueryState F)}
    (done : mine.mergeFrom (queryBackend cardinality hashing hash) theirs = .ok merged) :
    mine.state.mergeFrom cardinality hashing theirs.state = .ok merged.state := by
  unfold WindowState.mergeFrom at done
  split at done
  · cases done
  · obtain ⟨state, joined, rfl⟩ := map_ok done
    exact joined

/-- Every window is one of the plan. -/
theorem Merges.suits {merges : Merges} {w : WindowState (QueryState F)}
    (built : merges.eval cardinality hashing hash plan = .ok w) :
    Suits hashing hash plan.sketch w.state := by
  induction merges generalizing w with
  | accepted components => exact (accepted_sane built).1
  | merge left right ihLeft ihRight =>
    obtain ⟨mine, builtLeft, built⟩ := bind_ok built
    obtain ⟨theirs, builtRight, done⟩ := bind_ok built
    obtain ⟨state, joined, suits, _⟩ := (ihLeft builtLeft).merge (ihRight builtRight) cardinality
    rw [mergeFrom_state done] at joined
    rw [Except.ok.inj joined]
    exact suits

theorem Merges.Safe.last {merges : Merges} (safe : merges.Safe cardinality hashing hash plan)
    {w : WindowState (QueryState F)} (built : merges.eval cardinality hashing hash plan = .ok w) :
    w.state.Sane := by
  cases merges with
  | accepted components => exact safe w built
  | merge left right =>
    obtain ⟨mine, builtLeft, built⟩ := bind_ok built
    obtain ⟨theirs, builtRight, done⟩ := bind_ok built
    exact (safe.2.2 mine theirs w builtLeft builtRight done).2

end

/-- A summary of one entry. -/
def loneEntry (entry : Lib.CounterSummary.Entry) : SpaceSaving :=
  (SpaceSaving.fresh 1 (HashSpec.new 1) 0 0).insertAll fsk1 [([1], entry)]

theorem loneEntry_written (entry : Lib.CounterSummary.Entry) :
    SpaceSaving.Written fsk1 (SpaceSaving.fresh 1 (HashSpec.new 1) 0 0) (loneEntry entry)
      [{ key := [1], digest := (loneEntry entry).keyDigest fsk1 [1], entry }] := by
  obtain ⟨written, _⟩ := @SpaceSaving.insertAll_spec fsk1 [([1], entry)]
    (SpaceSaving.fresh 1 (HashSpec.new 1) 0 0)
    (SpaceSaving.Wf.clear (s := SpaceSaving.fresh 1 (HashSpec.new 1) 0 0) Nat.one_pos) (by simp)
    (by simp [SpaceSaving.contents, SpaceSaving.fresh]) (by simp [SpaceSaving.fresh])
  refine ⟨written.wf, ?_, written.capacity, written.hash, written.totalWeight, written.updates⟩
  have same : (loneEntry entry).keyDigest fsk1 [1] =
      (SpaceSaving.fresh 1 (HashSpec.new 1) 0 0).keyDigest fsk1 [1] := by
    unfold SpaceSaving.keyDigest
    rw [show (loneEntry entry).hash = _ from written.hash]
  rw [same]
  exact written.contents

/-- It is accepted whenever its error is within its count. -/
theorem loneEntry_accepted {entry : Lib.CounterSummary.Entry} (less : entry.error ≤ entry.count)
    (word : entry.count < modulus) :
    ∃ ss : SpaceSaving, Merges.eval (⟨fun _ => 0, 1⟩ : Cardinality Nat) fsk1 (HashSpec.new 1)
        (.heavyHitters 1)
        (.accepted [(Component.spaceSaving, (loneEntry entry).toSnapshot fsk1 0 10)]) =
          .ok { state := .heavyHitters ss, windowStartNanos := 0, windowEndNanos := 10 } ∧
      ss.abs.entry [1] = some entry := by
  have written := loneEntry_written entry
  have pairs : (loneEntry entry).pairs = [([1], entry)] := by
    have view : (loneEntry entry).pairs =
        (loneEntry entry).contents.map (fun c => (c.key, c.entry)) := by
      rw [SpaceSaving.pairs, SpaceSaving.contents, List.map_map]
      rfl
    rw [view, written.contents]
    rfl
  have sorted : (loneEntry entry).sorted = [([1], entry)] :=
    List.perm_singleton.mp (pairs ▸ (loneEntry entry).sorted_perm)
  have stored : Stored fsk1 (HashSpec.new 1) (.spaceSaving 1)
      (.heavyHitters (loneEntry entry) : QueryState Nat) := by
    refine ⟨.heavyHitters ⟨written.wf, written.capacity, written.hash⟩, ?_, ?_, ?_⟩
    · intro c member
      rw [written.contents, List.mem_singleton] at member
      rw [member]
      exact word
    · rw [written.totalWeight]
      exact modulus_pos
    · rw [written.updates]
      exact modulus_pos
  have exportable : (.heavyHitters (loneEntry entry) : QueryState Nat).Exportable fsk1 := by
    refine ⟨⟨?_, ?_⟩, ?_⟩
    · rw [written.capacity]
      decide
    · rw [SpaceSaving.payload, sorted]
      simp [SpaceSaving.writeEntry, Reader.writeLpBytes]
    · intro c member
      rw [written.contents, List.mem_singleton] at member
      rw [member]
      exact less
  obtain ⟨_, _, _, merged, rebuilds, _, same⟩ := @rebuilds_of_stored Nat _ ⟨fun _ => 0, 1⟩ fsk1
    (HashSpec.new 1) (.spaceSaving 1) 0 10 _ stored exportable (by decide) (by decide) _
    (List.Perm.refl _)
  have window := rebuilds.window (by simp [QueryState.toSnapshots]) (exports_nodup _ 0 10)
  cases same.mpr trivial with
  | heavyHitters copied =>
    refine ⟨_, window, ?_⟩
    rw [← copied.view.abs]
    exact (SpaceSaving.summaryOf_entry_iff written.wf.indexed.distinct _ _).mpr
      ⟨_, written.contents ▸ List.mem_singleton_self _, rfl, rfl⟩

end FlowSketch.Source.Runtime
