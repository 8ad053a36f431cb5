import Mathlib
import FlowSketch.Source.SpaceSaving.Heap

/-!
# The digest index

A bucket stands for the list of its members, whether it is stored as `One` or as `Many`. `IndexInv`
says that the members of a digest's bucket are exactly the slots with that digest, each once; it
makes lookups exact for every digest function, colliding or not.
-/

namespace FlowSketch.Source.SpaceSaving
open Lib.Octets Lib.Word64 Source.Core
open Lib.CounterSummary (Entry)

def members : Option IndexBucket → List Nat
  | none => []
  | some (.one slot) => [slot]
  | some (.many slots) => slots

structure IndexInv (keyIndex : UInt64 → Option IndexBucket) (cs : List Content) : Prop where
  nodup : ∀ digest, (members (keyIndex digest)).Nodup
  exact : ∀ digest i, i ∈ members (keyIndex digest) ↔ ∃ c, cs[i]? = some c ∧ c.digest = digest

theorem findSlotWithDigest_eq_find (s : SpaceSaving) (key : Bytes) (digest : UInt64) :
    s.findSlotWithDigest key digest =
      (members (s.keyIndex digest)).find? (fun index => (s.slotAt index).key = key) := by
  unfold findSlotWithDigest
  cases s.keyIndex digest with
  | none => rfl
  | some bucket =>
    cases bucket with
    | one index =>
      by_cases same : (s.slotAt index).key = key <;> simp [members, same]
    | many indices => rfl

/-! ## Adding to a bucket -/

theorem members_addToIndex (s : SpaceSaving) (digest other : UInt64) (slotIndex : Nat) :
    members ((s.addToIndex digest slotIndex).keyIndex other) =
      if other = digest then members (s.keyIndex digest) ++ [slotIndex]
      else members (s.keyIndex other) := by
  unfold addToIndex
  dsimp only
  by_cases same : other = digest
  · subst same
    rw [Function.update_self, if_pos rfl]
    cases s.keyIndex other with
    | none => rfl
    | some bucket => cases bucket <;> rfl
  · rw [Function.update_of_ne same, if_neg same]

theorem IndexInv.push {s : SpaceSaving} {cs : List Content} (inv : IndexInv s.keyIndex cs)
    (c : Content) : IndexInv (s.addToIndex c.digest cs.length).keyIndex (cs ++ [c]) := by
  have fresh : ∀ digest, cs.length ∉ members (s.keyIndex digest) := by
    intro digest listed
    obtain ⟨other, found, _⟩ := (inv.exact digest cs.length).mp listed
    simp at found
  constructor
  · intro digest
    rw [members_addToIndex]
    split
    · rw [List.nodup_append]
      exact ⟨inv.nodup _, by simp, by grind⟩
    · exact inv.nodup digest
  · intro digest i
    have others := inv.exact digest i
    rw [members_addToIndex, List.getElem?_append]
    grind

/-! ## Removing from a bucket -/

theorem swapRemove_perm (indices : List Nat) (position : Nat)
    (inside : position < indices.length) :
    (indices[position] :: swapRemove indices position).Perm indices := by
  induction indices using List.reverseRecOn with
  | nil => simp at inside
  | append_singleton rest last _ =>
    unfold swapRemove
    have lastIs : (rest ++ [last]).getLastD 0 = last := by simp
    rw [lastIs]
    by_cases front : position < rest.length
    · rw [List.set_append_left _ _ front, List.dropLast_concat, List.getElem_append_left front]
      -- the hole takes the last element, so the two prefixes differ by one exchange
      have exchange : (rest[position] :: rest.set position last).Perm (last :: rest) := by
        rw [List.set_eq_take_append_cons_drop, if_pos front]
        have whole : rest = rest.take position ++ rest[position] :: rest.drop (position + 1) := by
          simp
        calc (rest[position] :: (rest.take position ++ last :: rest.drop (position + 1))).Perm
              (rest[position] :: last :: (rest.take position ++ rest.drop (position + 1))) :=
              List.perm_middle.cons _
          _ |>.Perm (last :: rest[position] :: (rest.take position ++ rest.drop (position + 1))) :=
              List.Perm.swap _ _ _
          _ |>.Perm (last :: (rest.take position ++ rest[position] :: rest.drop (position + 1))) :=
              List.perm_middle.symm.cons _
          _ |>.Perm (last :: rest) := by rw [← whole]
      exact exchange.trans (List.perm_append_singleton last rest).symm
    · have atEnd : position = rest.length := by simp at inside; omega
      subst atEnd
      simp
      exact (List.perm_append_singleton last rest).symm

theorem members_collapse (indices : List Nat) :
    members (some (if indices.length = 1 then IndexBucket.one (indices.headD 0)
      else .many indices)) = indices := by
  split
  next single =>
    obtain ⟨only, rfl⟩ := List.length_eq_one_iff.mp single
    rfl
  next => rfl

/-- Removing a member never reaches an `expect`, and removes exactly that member. -/
theorem removeFromIndex_spec (s : SpaceSaving) (digest : UInt64) (slotIndex : Nat)
    (member : slotIndex ∈ members (s.keyIndex digest)) :
    ∃ keyIndex, s.removeFromIndex digest slotIndex = some { s with keyIndex } ∧
      (slotIndex :: members (keyIndex digest)).Perm (members (s.keyIndex digest)) ∧
      ∀ other, other ≠ digest → keyIndex other = s.keyIndex other := by
  have elsewhere : ∀ bucket other, other ≠ digest →
      Function.update s.keyIndex digest bucket other = s.keyIndex other :=
    fun bucket other apart => Function.update_of_ne apart _ _
  unfold removeFromIndex
  cases found : s.keyIndex digest with
  | none => simp [found, members] at member
  | some bucket =>
    rw [found] at member
    cases bucket with
    | one only =>
      refine ⟨_, rfl, ?_, elsewhere none⟩
      simpa [members, eq_comm] using member
    | many indices =>
      obtain ⟨position, listed⟩ : ∃ position, indices.idxOf? slotIndex = some position :=
        Option.isSome_iff_exists.mp (List.isSome_idxOf?.mpr member)
      obtain ⟨inside, here, _⟩ := List.idxOf?_eq_some_iff.mp listed
      have removed := swapRemove_perm indices position inside
      rw [here] at removed
      simp only [listed]
      refine ⟨_, rfl, ?_, elsewhere _⟩
      rw [Function.update_self, members_collapse]
      exact removed

/-- The index after a slot's content was overwritten: the slot leaves its old bucket and joins the
bucket of the new digest. -/
theorem IndexInv.overwrite {s : SpaceSaving} {cs : List Content} (inv : IndexInv s.keyIndex cs)
    {i : Nat} {old : Content} (found : cs[i]? = some old) (c : Content) :
    ∃ keyIndex, s.removeFromIndex old.digest i = some { s with keyIndex } ∧
      IndexInv (({ s with keyIndex } : SpaceSaving).addToIndex c.digest i).keyIndex (cs.set i c) := by
  have inside : i < cs.length := (List.getElem?_eq_some_iff.mp found).1
  have member := (inv.exact old.digest i).mpr ⟨old, found, rfl⟩
  obtain ⟨keyIndex, removed, perm, elsewhere⟩ := removeFromIndex_spec s old.digest i member
  have nodup : ∀ digest, (members (keyIndex digest)).Nodup := by
    intro digest
    by_cases here : digest = old.digest
    · subst here
      exact (perm.nodup_iff.mpr (inv.nodup _)).of_cons
    · rw [elsewhere digest here]
      exact inv.nodup digest
  -- after the removal every other slot is still listed, and slot `i` nowhere
  have exact : ∀ digest j, j ∈ members (keyIndex digest) ↔
      j ≠ i ∧ j ∈ members (s.keyIndex digest) := by
    intro digest j
    by_cases here : digest = old.digest
    · subst here
      have once := List.nodup_cons.mp (perm.nodup_iff.mpr (inv.nodup old.digest))
      have same := perm.mem_iff (a := j)
      rw [List.mem_cons] at same
      constructor
      · intro listed
        exact ⟨fun atI => once.1 (atI ▸ listed), same.mp (Or.inr listed)⟩
      · rintro ⟨apart, listed⟩
        exact (same.mpr listed).resolve_left apart
    · rw [elsewhere digest here]
      refine ⟨fun listed => ⟨fun atI => here ?_, listed⟩, And.right⟩
      obtain ⟨other, atJ, digestIs⟩ := (inv.exact digest j).mp listed
      rw [atI, found, Option.some.injEq] at atJ
      rw [← digestIs, atJ]
  refine ⟨keyIndex, removed, ?_, ?_⟩
  · intro digest
    rw [members_addToIndex]
    split
    · rw [List.nodup_append]
      exact ⟨nodup _, by simp, by grind⟩
    · exact nodup digest
  · intro digest j
    have others := exact digest j
    have before := inv.exact digest j
    rw [members_addToIndex, List.getElem?_set]
    grind

/-- Everything about a summary that the heap order plays no part in: exact digests, distinct keys
and an exact index. -/
structure Indexed (hashing : Hashing) (s : SpaceSaving) : Prop where
  index : IndexInv s.keyIndex s.contents
  digest : ∀ c ∈ s.contents, c.digest = s.keyDigest hashing c.key
  distinct : (s.contents.map Content.key).Nodup
  size : s.contents.length ≤ s.capacity
  positive : 0 < s.capacity

theorem Indexed.unique {hashing : Hashing} {s : SpaceSaving} (inv : Indexed hashing s)
    {i j : Nat} {c d : Content} (left : s.contents[i]? = some c) (right : s.contents[j]? = some d)
    (same : c.key = d.key) : i = j := by
  obtain ⟨insideI, _⟩ := List.getElem?_eq_some_iff.mp left
  have keyI : (s.contents.map Content.key)[i]? = some c.key := by rw [List.getElem?_map, left]; rfl
  have keyJ : (s.contents.map Content.key)[j]? = some c.key := by
    rw [List.getElem?_map, right, same]
    rfl
  refine (List.getElem?_inj ?_ inv.distinct).mp (keyI.trans keyJ.symm)
  simpa using insideI

/-- Lookups are exact: a key is found precisely in the slot that holds it. -/
theorem Indexed.find_iff {hashing : Hashing} {s : SpaceSaving} (inv : Indexed hashing s)
    (key : Bytes) (i : Nat) :
    s.findSlot hashing key = some i ↔ ∃ c, s.contents[i]? = some c ∧ c.key = key := by
  rw [findSlot, findSlotWithDigest_eq_find]
  have listed : ∀ j, (j ∈ members (s.keyIndex (s.keyDigest hashing key)) ∧ (s.slotAt j).key = key) ↔
      ∃ c, s.contents[j]? = some c ∧ c.key = key := by
    intro j
    rw [inv.index.exact]
    constructor
    · rintro ⟨⟨c, found, _⟩, keyIs⟩
      exact ⟨_, contents_getElem? (slotAt_content found).1, keyIs⟩
    · rintro ⟨c, found, keyIs⟩
      refine ⟨⟨c, found, ?_⟩, ?_⟩
      · rw [inv.digest c (List.mem_of_getElem? found), keyIs]
      · rw [← keyIs, ← (slotAt_content found).2]
        rfl
  constructor
  · intro found
    refine (listed i).mp ⟨List.mem_of_find?_eq_some found, ?_⟩
    simpa using List.find?_some found
  · intro holds
    have here := (listed i).mpr holds
    cases found : (members (s.keyIndex (s.keyDigest hashing key))).find?
        (fun index => (s.slotAt index).key = key) with
    | none => simpa [here.2] using List.find?_eq_none.mp found i here.1
    | some j =>
      have keyIs : (s.slotAt j).key = key := by simpa using List.find?_some found
      have there := (listed j).mp ⟨List.mem_of_find?_eq_some found, keyIs⟩
      obtain ⟨c, atI, keyI⟩ := holds
      obtain ⟨d, atJ, keyJ⟩ := there
      rw [inv.unique atI atJ (keyI.trans keyJ.symm)]

theorem Indexed.find_none_iff {hashing : Hashing} {s : SpaceSaving} (inv : Indexed hashing s)
    (key : Bytes) : s.findSlot hashing key = none ↔ ∀ c ∈ s.contents, c.key ≠ key := by
  rw [Option.eq_none_iff_forall_ne_some]
  constructor
  · intro missing c member keyIs
    obtain ⟨i, found⟩ := List.mem_iff_getElem?.mp member
    exact missing i ((inv.find_iff key i).mpr ⟨c, found, keyIs⟩)
  · intro missing i found
    obtain ⟨c, atI, keyIs⟩ := (inv.find_iff key i).mp found
    exact missing c (List.mem_of_getElem? atI) keyIs

theorem Indexed.reheaped {hashing : Hashing} {s t : SpaceSaving} (inv : Indexed hashing s)
    (frame : Reheaped s t) : Indexed hashing t := by
  have digests : t.keyDigest hashing = s.keyDigest hashing := by
    unfold keyDigest
    rw [frame.hash]
  refine ⟨?_, ?_, ?_, ?_, ?_⟩
  · rw [frame.keyIndex, frame.contents]
    exact inv.index
  · rw [frame.contents, digests]
    exact inv.digest
  · rw [frame.contents]
    exact inv.distinct
  · rw [frame.contents, frame.capacity]
    exact inv.size
  · rw [frame.capacity]
    exact inv.positive

end FlowSketch.Source.SpaceSaving
