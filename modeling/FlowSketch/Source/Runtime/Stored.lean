import FlowSketch.Source.Runtime.Contents
import FlowSketch.Source.Runtime.Rejoin

/-!
# The states an engine stores

Built for a plan, fed with the weights of events and merged, a state keeps the plan's parameters and
holds words only.
-/

namespace FlowSketch.Source.Runtime
open Lib.Octets Lib.Word64 Lib.AssocMap Source.Core

variable {F : Type}

/-- The words of a state's parts. -/
def QueryState.Words : QueryState F → Prop
  | .heavyHitters ss => ss.Words
  | .counter cm keys => cm.Wf ∧ keys.Words
  | .distinctPerKey _ => True
  | .distinctGlobal _ => True
  | .quantile kll => kll.Shape
  | .entropy ss _ => ss.Words

theorem summary_new_words {capacity : Nat} {hash : HashSpec} {ss : SpaceSaving}
    (created : SpaceSaving.new capacity hash = .ok ss) : ss.Words := by
  obtain ⟨_, rfl⟩ := SpaceSaving.new_ok created
  exact ⟨by simp [SpaceSaving.WordCounts, SpaceSaving.contents, SpaceSaving.fresh], modulus_pos,
    modulus_pos⟩

theorem summary_add_words {hashing : Hashing} {s t : SpaceSaving} (wf : s.Wf hashing)
    (words : s.Words) {key : Bytes} {weight : Nat} (word : weight < modulus)
    (added : s.add hashing key weight = some t) : t.Words := by
  obtain ⟨u, result, step⟩ := SpaceSaving.add_spec wf key weight
  obtain rfl := Option.some.inj (result.symm.trans added)
  exact ⟨step.counts words.counts word, by rw [step.totalWeight]; exact wrappingAdd_lt _ _,
    by rw [step.updates]; exact wrappingAdd_lt _ _⟩

theorem summary_merge_words {hashing : Hashing} {s other t : SpaceSaving} (left : s.Wf hashing)
    (right : other.Wf hashing) (merged : s.mergeFrom hashing other = .ok t) : t.Words := by
  have step := (SpaceSaving.mergeFrom_inv left right merged).2
  exact ⟨step.counts, by rw [step.totalWeight]; exact wrappingAdd_lt _ _,
    by rw [step.updates]; exact wrappingAdd_lt _ _⟩

/-- A state of the plan whose parts hold words. -/
def Stored (hashing : Hashing) (hash : HashSpec) (sketch : PhysicalSketch) (state : QueryState F) :
    Prop :=
  Suits hashing hash sketch state ∧ state.Words

section

variable [LinearOrder F] {cardinality : Cardinality F} {hashing : Hashing} {hash : HashSpec}
variable {sketch : PhysicalSketch}

omit [LinearOrder F] in
theorem Stored.build {state : QueryState F} (built : QueryState.build sketch hash = .ok state) :
    Stored hashing hash sketch state := by
  refine ⟨(Suits.build built).1, ?_⟩
  unfold QueryState.build at built
  split at built
  · obtain ⟨ss, created, rfl⟩ := map_ok built
    exact summary_new_words created
  · obtain ⟨map, _, rfl⟩ := map_ok built
    trivial
  · obtain ⟨hll, _, rfl⟩ := map_ok built
    trivial
  · obtain ⟨kll, created, rfl⟩ := map_ok built
    exact KllSketch.Shape.new created
  · obtain ⟨cm, table, built⟩ := bind_ok built
    obtain ⟨keys, created, result⟩ := bind_ok built
    cases result
    exact ⟨CountMinSketch.Wf.new table, summary_new_words created⟩
  · obtain ⟨ss, created, built⟩ := bind_ok built
    obtain ⟨hll, _, result⟩ := bind_ok built
    cases result
    exact summary_new_words created
  · unfold QueryState.cannotExecute at built
    split at built <;> cases built

theorem Stored.apply {state state' : QueryState F} (stored : Stored hashing hash sketch state)
    {update : Update} (word : update.weight < modulus)
    (applied : state.apply cardinality hashing update = some state') :
    Stored hashing hash sketch state' := by
  obtain ⟨suits, words⟩ := stored
  obtain ⟨result, done, suits', _⟩ := suits.apply cardinality update
  obtain rfl := Option.some.inj (done.symm.trans applied)
  refine ⟨suits', ?_⟩
  cases suits with
  | heavyHitters summary =>
    rw [QueryState.apply, SpaceSaving.addKeyBuf_eq_add, Option.map_map] at applied
    obtain ⟨t, added, rfl⟩ := Option.map_eq_some_iff.mp applied
    exact summary_add_words summary.wf words word added
  | counter table summary =>
    obtain ⟨t, added, rfl⟩ := Option.map_eq_some_iff.mp applied
    exact ⟨words.1.update _ _, summary_add_words summary.wf words.2 word added⟩
  | distinctPerKey keyed =>
    obtain ⟨t, _, rfl⟩ := Option.map_eq_some_iff.mp applied
    trivial
  | distinctGlobal distinct =>
    cases applied
    trivial
  | quantile ranks =>
    cases applied
    exact KllSketch.Shape.insert words word
  | entropy summary distinct =>
    obtain ⟨t, added, rfl⟩ := Option.map_eq_some_iff.mp applied
    exact summary_add_words summary.wf words (by decide) added

theorem Stored.merge {left right merged : QueryState F} (mine : Stored hashing hash sketch left)
    (theirs : Stored hashing hash sketch right)
    (joined : left.mergeFrom cardinality hashing right = .ok merged) :
    Stored hashing hash sketch merged := by
  obtain ⟨suits, words⟩ := mine
  obtain ⟨suits', words'⟩ := theirs
  obtain ⟨result, done, suitsMerged, _⟩ := suits.merge suits' cardinality
  obtain rfl := Except.ok.inj (done.symm.trans joined)
  refine ⟨suitsMerged, ?_⟩
  cases suits with
  | heavyHitters summary =>
    cases suits' with
    | heavyHitters summary' =>
      obtain ⟨t, step, rfl⟩ := map_ok joined
      exact summary_merge_words summary.wf summary'.wf step
  | counter table summary =>
    cases suits' with
    | counter table' summary' =>
      obtain ⟨cm, cells, joined⟩ := bind_ok joined
      obtain ⟨t, step, result⟩ := bind_ok joined
      cases result
      exact ⟨words.1.merge cells, summary_merge_words summary.wf summary'.wf step⟩
  | distinctPerKey keyed =>
    cases suits' with
    | distinctPerKey keyed' =>
      cases suitsMerged
      trivial
  | distinctGlobal distinct =>
    cases suits' with
    | distinctGlobal distinct' =>
      cases suitsMerged
      trivial
  | quantile ranks =>
    cases suits' with
    | quantile ranks' =>
      obtain ⟨t, step, rfl⟩ := map_ok joined
      exact KllSketch.Shape.merge words words' step
  | entropy summary distinct =>
    cases suits' with
    | entropy summary' distinct' =>
      obtain ⟨t, step, joined⟩ := bind_ok joined
      obtain ⟨hll, _, result⟩ := bind_ok joined
      cases result
      exact summary_merge_words summary.wf summary'.wf step

theorem stored_kept : Kept (queryBackend cardinality hashing hash) sketch
    (Stored hashing hash sketch) :=
  ⟨Stored.build, fun stored word applied => stored.apply word applied,
    fun mine theirs joined => mine.merge theirs joined⟩

end

end FlowSketch.Source.Runtime
