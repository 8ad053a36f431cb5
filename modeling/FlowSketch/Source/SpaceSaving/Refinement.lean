import FlowSketch.Lib.CounterSummary
import FlowSketch.Source.SpaceSaving.Operations

/-!
# The summary a slot arena stands for

`abs` forgets digests, slot numbers and heap positions. An ordered heap has the least key of the
eviction order at its root, so `add` acts on the abstract summary as the textbook observation
whenever the one count it adds to stays within a word.
-/

namespace FlowSketch.Source.SpaceSaving
open Lib.Octets Lib.Word64 Lib.BinaryHeap Lib.CounterSummary Source.Core

def summaryOf (cs : List Content) : Summary Bytes where
  entry key := (cs.find? (fun c => c.key = key)).map Content.entry
  keys := (cs.map Content.key).toFinset
  mem_keys := by
    intro key
    simp

def abs (s : SpaceSaving) : Summary Bytes := summaryOf s.contents

theorem summaryOf_missing {cs : List Content} {key : Bytes} (missing : ∀ c ∈ cs, c.key ≠ key) :
    (summaryOf cs).entry key = none := by
  simpa [summaryOf] using missing

theorem summaryOf_entry {cs : List Content} (distinct : (cs.map Content.key).Nodup) {c : Content}
    (member : c ∈ cs) : (summaryOf cs).entry c.key = some c.entry := by
  induction cs with
  | nil => cases member
  | cons head rest ih =>
    rw [List.map_cons, List.nodup_cons] at distinct
    rcases List.mem_cons.mp member with rfl | later
    · simp [summaryOf]
    · have apart : head.key ≠ c.key := by
        intro same
        exact distinct.1 (same ▸ List.mem_map_of_mem later)
      have found := ih distinct.2 later
      simpa [summaryOf, List.find?_cons, apart] using found

theorem summaryOf_entry_iff {cs : List Content} (distinct : (cs.map Content.key).Nodup)
    (key : Bytes) (e : Entry) :
    (summaryOf cs).entry key = some e ↔ ∃ c ∈ cs, c.key = key ∧ c.entry = e := by
  constructor
  · intro found
    obtain ⟨c, listed, entryIs⟩ := Option.map_eq_some_iff.mp found
    exact ⟨c, List.mem_of_find?_eq_some listed, by simpa using List.find?_some listed, entryIs⟩
  · rintro ⟨c, member, rfl, rfl⟩
    exact summaryOf_entry distinct member

theorem summaryOf_card {cs : List Content} (distinct : (cs.map Content.key).Nodup) :
    (summaryOf cs).keys.card = cs.length := by
  rw [← List.length_map (f := Content.key)]
  exact List.toFinset_card_of_nodup distinct

theorem summaryOf_push {cs : List Content} {c : Content} (fresh : ∀ d ∈ cs, d.key ≠ c.key) :
    summaryOf (cs ++ [c]) = (summaryOf cs).insert c.key c.entry := by
  ext1 key
  rw [Summary.insert_entry]
  split
  next here =>
    subst here
    have none : cs.find? (fun d => d.key = c.key) = none := by simpa using fresh
    simp [summaryOf, List.find?_append, none]
  next away =>
    have other : c.key ≠ key := Ne.symm away
    simp [summaryOf, List.find?_append, other]

theorem summaryOf_set {cs : List Content} (distinct : (cs.map Content.key).Nodup) {i : Nat}
    {old : Content} (found : cs[i]? = some old) {c : Content}
    (fresh : ∀ j d, cs[j]? = some d → d.key = c.key → j = i) :
    summaryOf (cs.set i c) = ((summaryOf cs).erase old.key).insert c.key c.entry := by
  have inside : i < cs.length := (List.getElem?_eq_some_iff.mp found).1
  have after := distinct_set distinct fresh
  ext1 key
  rw [Summary.insert_entry, Summary.erase_entry]
  split
  next here =>
    subst here
    exact summaryOf_entry after (List.mem_of_getElem? (List.getElem?_set_self inside))
  next away =>
    -- slots other than `i` keep their contents
    have kept : ∀ d, d.key = key → (d ∈ cs.set i c ↔ d ∈ cs ∧ key ≠ old.key) := by
      rintro d rfl
      constructor
      · intro member
        obtain ⟨j, atJ⟩ := List.mem_iff_getElem?.mp member
        have elsewhere : i ≠ j := by
          rintro rfl
          rw [List.getElem?_set_self inside, Option.some.injEq] at atJ
          exact away (atJ ▸ rfl)
        rw [List.getElem?_set_ne elsewhere] at atJ
        refine ⟨List.mem_of_getElem? atJ, fun same => elsewhere ?_⟩
        have keyI : (cs.map Content.key)[i]? = some d.key := by simp [found, same]
        have keyJ : (cs.map Content.key)[j]? = some d.key := by simp [atJ]
        exact (List.getElem?_inj (by simpa using inside) distinct).mp (keyI.trans keyJ.symm)
      · rintro ⟨member, apart⟩
        obtain ⟨j, atJ⟩ := List.mem_iff_getElem?.mp member
        have elsewhere : i ≠ j := by
          rintro rfl
          rw [found, Option.some.injEq] at atJ
          exact apart (atJ ▸ rfl)
        exact List.mem_of_getElem? ((List.getElem?_set_ne elsewhere).trans atJ)
    apply Option.ext
    intro e
    rw [summaryOf_entry_iff after]
    split
    next erased =>
      simp only [reduceCtorEq, iff_false]
      rintro ⟨d, member, keyIs, _⟩
      exact ((kept d keyIs).mp member).2 erased
    next other =>
      rw [summaryOf_entry_iff distinct]
      constructor
      · rintro ⟨d, member, keyIs, entryIs⟩
        exact ⟨d, ((kept d keyIs).mp member).1, keyIs, entryIs⟩
      · rintro ⟨d, member, keyIs, entryIs⟩
        exact ⟨d, (kept d keyIs).mpr ⟨member, other⟩, keyIs, entryIs⟩

/-! ## The root of an ordered heap -/

/-- The digest part of the eviction order. -/
def evictionDigest (hashing : Hashing) (hash : HashSpec) (key : Bytes) : Nat :=
  (hashing.hash64 key (hash.seed ^^^ 0x5350414345534156)).toNat

theorem abs_rank {hashing : Hashing} {s : SpaceSaving} (inv : Indexed hashing s) {i : Nat}
    (inside : i < s.slots.length) :
    s.abs.rank (evictionDigest hashing s.hash) (s.slotAt i).key = (s.slotAt i).rank := by
  have member : (s.slotAt i).content ∈ s.contents :=
    List.mem_of_getElem? (contents_getElem? inside)
  have entry := summaryOf_entry inv.distinct member
  have count : s.abs.count (s.slotAt i).key = (s.slotAt i).entry.count :=
    Summary.count_of_entry entry
  have digest := inv.digest _ member
  have digestIs : evictionDigest hashing s.hash (s.slotAt i).key = (s.slotAt i).digest.toNat :=
    congrArg UInt64.toNat digest.symm
  rw [Summary.rank, count, digestIs]
  rfl

theorem mem_keys_iff {s : SpaceSaving} {key : Bytes} :
    key ∈ s.abs.keys ↔ ∃ i, i < s.slots.length ∧ (s.slotAt i).key = key := by
  show key ∈ (s.contents.map Content.key).toFinset ↔ _
  rw [List.mem_toFinset, List.mem_map]
  constructor
  · rintro ⟨c, member, rfl⟩
    obtain ⟨i, found⟩ := List.mem_iff_getElem?.mp member
    obtain ⟨inside, contentIs⟩ := slotAt_content found
    exact ⟨i, inside, congrArg Content.key contentIs⟩
  · rintro ⟨i, inside, rfl⟩
    exact ⟨_, List.mem_of_getElem? (contents_getElem? inside), rfl⟩

/-- The root slot holds the unique first key of the eviction order. -/
theorem root_least {hashing : Hashing} {s : SpaceSaving} (wf : Wf hashing s)
    (ordered : HeapOrdered s) (some_slot : 0 < s.slots.length) :
    (s.slotAt (s.heapAt 0)).key ∈ s.abs.keys ∧
      ∀ key ∈ s.abs.keys, s.abs.rank (evictionDigest hashing s.hash) (s.slotAt (s.heapAt 0)).key ≤
        s.abs.rank (evictionDigest hashing s.hash) key := by
  have root : 0 < s.minHeap.length := by rw [wf.heap.length]; exact some_slot
  have inside := wf.heap.inside 0 root
  refine ⟨mem_keys_iff.mpr ⟨_, inside, rfl⟩, ?_⟩
  intro key tracked
  obtain ⟨i, bound, rfl⟩ := mem_keys_iff.mp tracked
  rw [abs_rank wf.indexed inside, abs_rank wf.indexed bound]
  obtain ⟨position, here⟩ := wf.heap.position bound
  have least := ordered.root_le (s.slotAt i).heapIndex position
  rw [heapRank, heapRank, here] at least
  exact least

theorem minimumCount_eq {hashing : Hashing} {s : SpaceSaving} (wf : Wf hashing s)
    (ordered : HeapOrdered s) : s.minimumCount = s.abs.minCount := by
  rcases Nat.eq_zero_or_pos s.slots.length with empty | some_slot
  · have none : s.minHeap = [] := List.length_eq_zero_iff.mp (wf.heap.length.trans empty)
    have nothing : s.slots = [] := List.length_eq_zero_iff.mp empty
    simp [minimumCount, none, Summary.minCount, abs, summaryOf, contents, nothing]
  · have root : 0 < s.minHeap.length := by rw [wf.heap.length]; exact some_slot
    have inside := wf.heap.inside 0 root
    have head : s.minHeap.head? = some (s.heapAt 0) := by
      rw [heapAt_eq_getElem root, List.head?_eq_getElem?, List.getElem?_eq_getElem root]
    obtain ⟨member, least⟩ := root_least wf ordered some_slot
    rw [Summary.minCount_eq member
      (fun key tracked => Summary.count_le_of_rank_le (least key tracked)), minimumCount, head]
    exact (Summary.count_of_entry (summaryOf_entry wf.indexed.distinct
      (List.mem_of_getElem? (contents_getElem? inside)))).symm

theorem leastKey_eq {hashing : Hashing} {s : SpaceSaving} (wf : Wf hashing s)
    (ordered : HeapOrdered s) (tracked : s.abs.keys.Nonempty) :
    s.abs.leastKey (evictionDigest hashing s.hash) tracked = (s.slotAt (s.heapAt 0)).key := by
  have some_slot : 0 < s.slots.length := by
    obtain ⟨key, member⟩ := tracked
    obtain ⟨i, inside, _⟩ := mem_keys_iff.mp member
    omega
  obtain ⟨member, least⟩ := root_least wf ordered some_slot
  exact Summary.leastKey_unique member least

theorem keys_card {hashing : Hashing} {s : SpaceSaving} (inv : Indexed hashing s) :
    s.abs.keys.card = s.slots.length := by
  rw [abs, summaryOf_card inv.distinct, contents_length]

/-! ## `add` -/

/-- The one count addition of `add` stays within a word. -/
def AddFits (hashing : Hashing) (s : SpaceSaving) (key : Bytes) (weight : Nat) : Prop :=
  match s.findSlot hashing key with
  | some slotIndex => (s.slotAt slotIndex).entry.count + weight < modulus
  | none => s.slots.length < s.capacity ∨ s.minimumCount + weight < modulus

instance (hashing : Hashing) (s : SpaceSaving) (key : Bytes) (weight : Nat) :
    Decidable (AddFits hashing s key weight) :=
  match found : s.findSlot hashing key with
  | some slotIndex =>
    decidable_of_iff ((s.slotAt slotIndex).entry.count + weight < modulus) (by simp [AddFits, found])
  | none =>
    decidable_of_iff (s.slots.length < s.capacity ∨ s.minimumCount + weight < modulus)
      (by simp [AddFits, found])

theorem Wf.tally {hashing : Hashing} {s : SpaceSaving} (wf : Wf hashing s) (weight : Nat) :
    Wf hashing (s.tally weight) :=
  ⟨⟨wf.indexed.index, wf.indexed.digest, wf.indexed.distinct, wf.indexed.size,
    wf.indexed.positive⟩, ⟨wf.heap.length, wf.heap.inside, wf.heap.back⟩⟩

/-- Every count is a word. -/
def WordCounts (cs : List Content) : Prop := ∀ c ∈ cs, c.entry.count < modulus

theorem WordCounts.set {cs : List Content} (words : WordCounts cs) (i : Nat) {c : Content}
    (word : c.entry.count < modulus) : WordCounts (cs.set i c) := by
  intro other member
  rcases List.mem_or_eq_of_mem_set member with old | rfl
  · exact words other old
  · exact word

/-- What `add` does: the structure is always kept, and the summary takes the textbook step when the
count fits. -/
structure AddStep (hashing : Hashing) (s : SpaceSaving) (key : Bytes) (weight : Nat)
    (t : SpaceSaving) : Prop where
  wf : Wf hashing t
  capacity : t.capacity = s.capacity
  hash : t.hash = s.hash
  totalWeight : t.totalWeight = wrappingAdd s.totalWeight weight
  updates : t.updates = wrappingAdd s.updates 1
  counts : WordCounts s.contents → weight < modulus → WordCounts t.contents
  refines : HeapOrdered s → AddFits hashing s key weight → HeapOrdered t ∧
    t.abs = s.abs.add s.capacity (evictionDigest hashing s.hash) key weight

theorem Written.addStep {hashing : Hashing} {s t : SpaceSaving} {key : Bytes} {weight : Nat}
    {cs : List Content} (written : Written hashing (s.tally weight) t cs)
    (counts : WordCounts s.contents → weight < modulus → WordCounts cs)
    (refines : HeapOrdered s → AddFits hashing s key weight → HeapOrdered t ∧
      summaryOf cs = s.abs.add s.capacity (evictionDigest hashing s.hash) key weight) :
    AddStep hashing s key weight t := by
  refine ⟨written.wf, written.capacity, written.hash, written.totalWeight, written.updates,
    written.contents ▸ counts, ?_⟩
  intro ordered fits
  rw [abs, written.contents]
  exact refines ordered fits

theorem add_tracked {hashing : Hashing} {s : SpaceSaving} (wf : Wf hashing s) {key : Bytes}
    {i : Nat} (found : s.findSlot hashing key = some i) (weight : Nat) :
    AddStep hashing s key weight ((s.tally weight).raise i weight) := by
  obtain ⟨c, atI, keyIs⟩ := (wf.indexed.find_iff key i).mp found
  obtain ⟨written, order⟩ := raise_spec (wf.tally weight) atI weight
  refine written.addStep (fun words _ => words.set i (wrappingAdd_lt _ _)) (fun ordered fits => ?_)
  have slotIs : (s.slotAt i).entry = c.entry := congrArg Content.entry (slotAt_content atI).2
  simp only [AddFits, found, slotIs] at fits
  have sum := wrappingAdd_of_lt fits
  refine ⟨order ordered (by omega), ?_⟩
  have same : ∀ j d, s.contents[j]? = some d → d.key = (raised c weight).key → j = i :=
    fun j d atJ same => wf.indexed.unique atJ atI same
  have entry : s.abs.entry key = some c.entry :=
    keyIs ▸ summaryOf_entry wf.indexed.distinct (List.mem_of_getElem? atI)
  show summaryOf (s.contents.set i (raised c weight)) = _
  rw [summaryOf_set wf.indexed.distinct atI same, Summary.add, entry]
  ext1 other
  simp only [abs, Summary.insert_entry, Summary.erase_entry, raised, keyIs, sum]
  split <;> rfl

theorem add_room {hashing : Hashing} {s : SpaceSaving} (wf : Wf hashing s) {key : Bytes}
    (missing : s.findSlot hashing key = none) (room : s.slots.length < s.capacity) (weight : Nat) :
    AddStep hashing s key weight
      ((s.tally weight).insertEntryWithDigest key (s.keyDigest hashing key) weight 0) := by
  have fresh := (wf.indexed.find_none_iff key).mp missing
  have untracked : s.abs.entry key = none := summaryOf_missing fresh
  have card := keys_card wf.indexed
  let c : Content := ⟨key, s.keyDigest hashing key, ⟨weight, 0⟩⟩
  obtain ⟨written, order⟩ := insertEntry_spec (wf.tally weight) (c := c) rfl fresh room
  have counted : WordCounts s.contents → weight < modulus → WordCounts (s.contents ++ [c]) := by
    intro words word other member
    rcases List.mem_append.mp member with old | new
    · exact words other old
    · rw [List.mem_singleton.mp new]
      exact word
  refine written.addStep counted (fun ordered _ => ⟨order ordered, ?_⟩)
  show summaryOf (s.contents ++ [c]) = _
  rw [summaryOf_push fresh, Summary.add, untracked]
  simp only
  rw [dif_neg (by omega)]
  rfl

theorem add_evict {hashing : Hashing} {s : SpaceSaving} (wf : Wf hashing s) {key : Bytes}
    (missing : s.findSlot hashing key = none) (full : ¬s.slots.length < s.capacity)
    (weight : Nat) :
    ∃ t, (s.tally weight).replaceMin key (s.keyDigest hashing key)
        (wrappingAdd s.minimumCount weight) s.minimumCount =
          some (t, (s.slotAt (s.heapAt 0)).key) ∧ AddStep hashing s key weight t := by
  have fresh := (wf.indexed.find_none_iff key).mp missing
  have untracked : s.abs.entry key = none := summaryOf_missing fresh
  have card := keys_card wf.indexed
  have positive := wf.indexed.positive
  have some_slot : 0 < s.slots.length := by omega
  let c : Content :=
    ⟨key, s.keyDigest hashing key, ⟨wrappingAdd s.minimumCount weight, s.minimumCount⟩⟩
  obtain ⟨t, replaced, written, order⟩ :=
    replaceMin_spec (wf.tally weight) (c := c) rfl fresh some_slot
  refine ⟨t, replaced, written.addStep (fun words _ => words.set _ (wrappingAdd_lt _ _))
    (fun ordered fits => ⟨order ordered, ?_⟩)⟩
  simp only [AddFits, missing] at fits
  have sum := wrappingAdd_of_lt (fits.resolve_left full)
  have root : 0 < s.minHeap.length := by rw [wf.heap.length]; exact some_slot
  have tracked : s.abs.keys.Nonempty := Finset.card_pos.mp (by omega)
  show summaryOf (s.contents.set (s.heapAt 0) c) = _
  rw [summaryOf_set wf.indexed.distinct (contents_getElem? (wf.heap.inside 0 root))
    (fun j d atJ same => absurd same (fresh d (List.mem_of_getElem? atJ))), Summary.add, untracked]
  simp only
  rw [dif_pos ⟨by omega, tracked⟩, leastKey_eq wf ordered, ← minimumCount_eq wf ordered, ← sum]
  rfl

/-- `add` never panics. -/
theorem add_spec {hashing : Hashing} {s : SpaceSaving} (wf : Wf hashing s) (key : Bytes)
    (weight : Nat) :
    ∃ t, s.add hashing key weight = some t ∧ AddStep hashing s key weight t := by
  have lookup : (s.tally weight).findSlotWithDigest key ((s.tally weight).keyDigest hashing key) =
    s.findSlot hashing key := rfl
  unfold add
  dsimp only
  rw [lookup]
  cases found : s.findSlot hashing key with
  | some i => exact ⟨_, rfl, add_tracked wf found weight⟩
  | none =>
    simp only
    split
    next room => exact ⟨_, rfl, add_room wf found room weight⟩
    next full =>
      obtain ⟨t, replaced, step⟩ := add_evict wf found full weight
      refine ⟨t, ?_, step⟩
      exact congrArg (Option.map Prod.fst) replaced

/-- `add_key_buf` is `add` with the caller's buffer left empty. -/
theorem addKeyBuf_eq_add (hashing : Hashing) (s : SpaceSaving) (key : Bytes) (weight : Nat) :
    s.addKeyBuf hashing key weight = (s.add hashing key weight).map (fun t => (t, [])) := by
  unfold addKeyBuf add
  dsimp only
  split
  · rfl
  · split
    · rfl
    · rw [Option.map_map]
      rfl

end FlowSketch.Source.SpaceSaving
