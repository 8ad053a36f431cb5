import FlowSketch.Lib.UpdateTree
import FlowSketch.Source.MisraGries.Decrement

/-!
# The Misra-Gries guarantee

Every unit a counter falls short of the true weight has been paid for by `capacity + 1` units of total
weight that no counter holds. Additions and merges keep this, whatever order the hash map iterates in.
-/

namespace FlowSketch.Source.MisraGries
open Lib Lib.Octets Lib.Word64 Lib.AssocMap Source.Core

/-- The summary a tree builds with the counters in the order of the list. -/
def ofTree (hashing : Hashing) (capacity : Nat) (hash : HashSpec) :
    UpdateTree Bytes Nat → Option MisraGries
  | .empty => (MisraGries.new capacity hash).toOption
  | .update tree key weight => do (← ofTree hashing capacity hash tree).add key weight
  | .merge left right => do
    let s ← ofTree hashing capacity hash left
    let t ← ofTree hashing capacity hash right
    (s.mergeFrom hashing t).toOption

/-- The summaries a tree may build: the hash map may change its iteration order between operations. -/
inductive Built (hashing : Hashing) (capacity : Nat) (hash : HashSpec) :
    UpdateTree Bytes Nat → MisraGries → Prop
  | empty {s : MisraGries} (created : MisraGries.new capacity hash = .ok s) :
      Built hashing capacity hash .empty s
  | add {tree : UpdateTree Bytes Nat} {s t : MisraGries} (before : Built hashing capacity hash tree s)
      {key : Bytes} {weight : Nat} (added : s.add key weight = some t) :
      Built hashing capacity hash (.update tree key weight) t
  | merge {left right : UpdateTree Bytes Nat} {s other t : MisraGries}
      (mine : Built hashing capacity hash left s) (theirs : Built hashing capacity hash right other)
      (merged : s.mergeFrom hashing other = .ok t) : Built hashing capacity hash (.merge left right) t
  | reorder {tree : UpdateTree Bytes Nat} {s : MisraGries} (before : Built hashing capacity hash tree s)
      {counters : List (Bytes × Nat)} (same : s.counters.Perm counters) :
      Built hashing capacity hash tree { s with counters }

/-! ## One step -/

/-- What a key falls short of its weight has been paid for. -/
structure Paid (capacity total : Nat) (weight : Bytes → Nat) (counters : List (Bytes × Nat)) : Prop where
  distinct : (keys counters).Nodup
  under : ∀ key, tally counters key ≤ weight key
  paid : ∀ key, (capacity + 1) * weight key + mass counters ≤
    total + (capacity + 1) * tally counters key

namespace Paid

variable {capacity total total' : Nat} {weight weight' : Bytes → Nat}
variable {counters theirs : List (Bytes × Nat)}

theorem mass_le (held : Paid capacity total weight counters) : mass counters ≤ total := by
  have paid := held.paid []
  have under := Nat.mul_le_mul_left (capacity + 1) (held.under [])
  omega

theorem perm (held : Paid capacity total weight counters) {other : List (Bytes × Nat)}
    (same : counters.Perm other) : Paid capacity total weight other := by
  have distinct : (keys other).Nodup := (same.map Prod.fst).nodup_iff.mp held.distinct
  have counts : ∀ key, tally other key = tally counters key := fun key => by
    rw [tally, tally, lookup_perm same held.distinct]
  have sums : mass other = mass counters := (same.map Prod.snd).sum_eq.symm
  exact ⟨distinct, fun key => counts key ▸ held.under key, fun key => by
    rw [counts, sums]
    exact held.paid key⟩

/-- A tracked key, or a new one for which there is room. -/
theorem insert (held : Paid capacity total weight counters) (key : Bytes) (more : Nat) :
    Paid capacity (total + more) (fun other => weight other + if other = key then more else 0)
      (AssocMap.insert key (tally counters key + more) counters) := by
  have sum := mass_insert key (tally counters key + more) counters
  refine ⟨insert_nodup held.distinct, fun other => ?_, fun other => ?_⟩
  all_goals
    have under := held.under other
    have paid := held.paid other
    rw [tally_insert]
    by_cases same : other = key
    · subst same
      simp only [if_true, Nat.mul_add]
      omega
    · simp only [same, if_false, Nat.add_zero]
      omega

theorem mul_sub_le (capacity count dec : Nat) :
    (capacity + 1) * count ≤ (capacity + 1) * (count - dec) + (capacity + 1) * dec := by
  rw [← Nat.mul_add]
  exact Nat.mul_le_mul_left _ (by omega)

/-- Every counter gives up `dec`, and so does a key that is not tracked. -/
theorem displace (held : Paid capacity total weight counters) {key : Bytes} (dec : Nat)
    (absent : key ∉ keys counters)
    (full : capacity ≤ counters.countP (fun entry => dec ≤ entry.2)) :
    Paid capacity (total + dec) (fun other => weight other + if other = key then dec else 0)
      (decrement dec counters) := by
  have sum := mass_decrement dec counters
  have shared := Nat.mul_le_mul_right dec full
  have step : (capacity + 1) * dec = capacity * dec + dec := Nat.succ_mul capacity dec
  refine ⟨(keys_decrement dec counters).nodup held.distinct, fun other => ?_, fun other => ?_⟩
  all_goals
    have under := held.under other
    have paid := held.paid other
    rw [tally_decrement held.distinct]
  · omega
  · by_cases same : other = key
    · subst same
      rw [tally_of_not_mem absent, Nat.mul_zero] at paid
      rw [if_pos rfl, tally_of_not_mem absent, Nat.zero_sub, Nat.mul_zero, Nat.mul_add]
      omega
    · have kept := mul_sub_le capacity (tally counters other) dec
      simp only [same, if_false, Nat.add_zero]
      omega

theorem trim (held : Paid capacity total weight counters) {rounds : Nat}
    (enough : counters.length ≤ rounds) :
    Paid capacity total weight (trimToCapacity capacity rounds counters) := by
  rw [trimToCapacity_eq enough]
  split
  next long =>
    obtain ⟨enough, _⟩ := trimAmount_counts long
    generalize trimAmount capacity counters = dec at enough
    have sum := mass_decrement dec counters
    have shared := Nat.mul_le_mul_right dec enough
    refine ⟨(keys_decrement dec counters).nodup held.distinct, fun key => ?_, fun key => ?_⟩
    · rw [tally_decrement held.distinct]
      exact (Nat.sub_le _ _).trans (held.under key)
    · have paid := held.paid key
      have kept := mul_sub_le capacity (tally counters key) dec
      rw [tally_decrement held.distinct]
      omega
  · exact held

end Paid

/-! ## Adding one map to another -/

section

variable {mine theirs : List (Bytes × Nat)}

theorem addAll_cons (entry : Bytes × Nat) (mine rest : List (Bytes × Nat)) :
    addAll mine (entry :: rest) =
      addAll (AssocMap.insert entry.1 (wrappingAdd (tally mine entry.1) entry.2) mine) rest := rfl

theorem mem_keys_insert {key other : Bytes} {value : Nat} {m : List (Bytes × Nat)} :
    other ∈ keys (AssocMap.insert key value m) ↔ other = key ∨ other ∈ keys m := by
  rw [keys_insert]
  split
  next present =>
    constructor
    · exact Or.inr
    · rintro (rfl | member)
      · exact present
      · exact member
  · rw [List.mem_append, List.mem_singleton, or_comm]

theorem mem_keys_addAll {key : Bytes} : key ∈ keys (addAll mine theirs) ↔
    key ∈ keys mine ∨ key ∈ keys theirs := by
  induction theirs generalizing mine with
  | nil => simp [addAll]
  | cons entry rest ih =>
    have listed : key ∈ keys (entry :: rest) ↔ key = entry.1 ∨ key ∈ keys rest := List.mem_cons
    rw [addAll_cons, ih, mem_keys_insert, listed, or_assoc]
    exact or_left_comm

theorem tally_addAll (distinct : (keys theirs).Nodup) (key : Bytes) :
    tally (addAll mine theirs) key =
      if key ∈ keys theirs then wrappingAdd (tally mine key) (tally theirs key)
      else tally mine key := by
  induction theirs generalizing mine with
  | nil => rfl
  | cons entry rest ih =>
    rw [keys, List.map_cons, List.nodup_cons] at distinct
    rw [addAll_cons, ih distinct.2, tally_insert, tally_cons]
    by_cases here : key = entry.1
    · subst here
      simp [distinct.1]
    · have listed : key ∈ keys (entry :: rest) ↔ key ∈ keys rest := by simp [here]
      simp only [here, if_false, listed]

theorem addAll_nodup (theirs : List (Bytes × Nat)) (distinct : (keys mine).Nodup) :
    (keys (addAll mine theirs)).Nodup := by
  induction theirs generalizing mine with
  | nil => exact distinct
  | cons entry rest ih => exact ih (insert_nodup distinct)

/-- The sum of two maps lists the same counters for every order of both. -/
theorem addAll_perm {mine' theirs' : List (Bytes × Nat)} (left : mine.Perm mine')
    (right : theirs.Perm theirs') (distinct : (keys mine).Nodup) (distinct' : (keys theirs).Nodup) :
    (addAll mine theirs).Perm (addAll mine' theirs') := by
  have leftKeys : ∀ key, key ∈ keys mine ↔ key ∈ keys mine' := fun key => (left.map Prod.fst).mem_iff
  have rightKeys : ∀ key, key ∈ keys theirs ↔ key ∈ keys theirs' :=
    fun key => (right.map Prod.fst).mem_iff
  refine perm_of_tally (addAll_nodup _ distinct)
    (addAll_nodup _ ((left.map Prod.fst).nodup_iff.mp distinct)) (fun key => ?_) fun key => ?_
  · rw [mem_keys_addAll, mem_keys_addAll, leftKeys, rightKeys]
  · rw [tally_addAll distinct', tally_addAll ((right.map Prod.fst).nodup_iff.mp distinct')]
    simp only [rightKeys, tally, lookup_perm left distinct, lookup_perm right distinct']

theorem Paid.addAll {capacity total total' : Nat} {weight weight' : Bytes → Nat}
    (held : Paid capacity total weight mine) (theirsHeld : Paid capacity total' weight' theirs)
    (fits : total + total' < modulus) :
    Paid capacity (total + total') (fun key => weight key + weight' key)
      (MisraGries.addAll mine theirs) := by
  have counts : ∀ key, tally (MisraGries.addAll mine theirs) key = tally mine key + tally theirs key := by
    intro key
    have left := (tally_le_mass mine key).trans held.mass_le
    have right := (tally_le_mass theirs key).trans theirsHeld.mass_le
    rw [tally_addAll theirsHeld.distinct]
    split
    · exact wrappingAdd_of_lt (by omega)
    next absent => rw [tally_of_not_mem absent, Nat.add_zero]
  have sums : mass (MisraGries.addAll mine theirs) = mass mine + mass theirs := by
    have bounded : mass mine + mass theirs < modulus := by
      have left := held.mass_le
      have right := theirsHeld.mass_le
      omega
    clear counts theirsHeld held
    induction theirs generalizing mine with
    | nil => rfl
    | cons entry rest ih =>
      have small := tally_le_mass mine entry.1
      have sum := mass_insert entry.1 (wrappingAdd (tally mine entry.1) entry.2) mine
      rw [mass_cons] at bounded ⊢
      rw [wrappingAdd_of_lt (by omega)] at sum
      rw [addAll_cons, wrappingAdd_of_lt (by omega), ih (by omega)]
      omega
  refine ⟨addAll_nodup theirs held.distinct, fun key => ?_, fun key => ?_⟩
  · rw [counts]
    exact Nat.add_le_add (held.under key) (theirsHeld.under key)
  · have left := held.paid key
    have right := theirsHeld.paid key
    rw [counts, sums, Nat.mul_add, Nat.mul_add]
    omega

end

/-! ## Whole trees -/

/-- The guarantee of a tree. -/
structure Guarantee (capacity : Nat) (hash : HashSpec) (tree : UpdateTree Bytes Nat) (s : MisraGries) :
    Prop where
  size : s.counters.length ≤ capacity
  paid : Paid capacity tree.total tree.weight s.counters
  totalWeight : s.totalWeight = tree.total
  capacity : s.capacity = capacity
  hash : s.hash = hash

section

variable {hashing : Hashing} {capacity : Nat} {hash : HashSpec} {tree left right : UpdateTree Bytes Nat}
variable {s t : MisraGries}

theorem min?_le {counters : List (Bytes × Nat)} {least : Nat}
    (found : (counters.map Prod.snd).min? = some least) : ∀ entry ∈ counters, least ≤ entry.2 :=
  fun _ member => (List.le_min?_iff found).mp le_rfl _ (List.mem_map_of_mem member)

/-- Some counter gives way when the new key outweighs the least of them. -/
theorem displace_room {counters : List (Bytes × Nat)} {least : Nat}
    (found : (counters.map Prod.snd).min? = some least) :
    (decrement least counters).length < counters.length :=
  decrement_length_lt (List.min?_mem found)

theorem Guarantee.add (held : Guarantee capacity hash tree s) (positive : 0 < capacity) (key : Bytes)
    {weight : Nat} (fits : tree.total + weight < modulus) :
    ∃ t, s.add key weight = some t ∧ Guarantee capacity hash (tree.update key weight) t := by
  have total : wrappingAdd s.totalWeight weight = (tree.update key weight).total := by
    rw [held.totalWeight, wrappingAdd_of_lt fits]
    rfl
  unfold MisraGries.add
  cases known : s.counters.lookup key with
  | some count =>
    have counted : tally s.counters key = count := by rw [tally, known, Option.getD_some]
    have small := (tally_le_mass s.counters key).trans held.paid.mass_le
    have present : key ∈ keys s.counters := by
      by_contra absent
      rw [lookup_eq_none_iff.mpr absent] at known
      cases known
    simp only [known]
    refine ⟨_, rfl, (insert_length_of_mem present).trans_le held.size, ?_, total, held.capacity,
      held.hash⟩
    rw [wrappingAdd_of_lt (by omega), ← counted]
    exact held.paid.insert key weight
  | none =>
    have absent := lookup_eq_none_iff.mp known
    simp only [known]
    by_cases room : s.counters.length < s.capacity
    · simp only [room, if_true]
      refine ⟨_, rfl, ?_, ?_, total, held.capacity, held.hash⟩
      · exact (insert_length_le _ _ _).trans (held.capacity ▸ room)
      · have new := held.paid.insert key weight
        rwa [tally_of_not_mem absent, Nat.zero_add] at new
    · simp only [room, if_false]
      have full : s.counters.length = capacity := by
        have size := held.size
        have capacity := held.capacity
        omega
      obtain ⟨least, found⟩ : ∃ least, (s.counters.map Prod.snd).min? = some least := by
        cases found : (s.counters.map Prod.snd).min? with
        | some least => exact ⟨least, rfl⟩
        | none =>
          have empty := List.map_eq_nil_iff.mp (List.min?_eq_none_iff.mp found)
          rw [empty] at full
          exact absurd full positive.ne
      have all : s.counters.countP (fun entry => min least weight ≤ entry.2) = capacity := by
        rw [List.countP_eq_length.mpr, full]
        intro entry member
        have below := min?_le found entry member
        simp only [decide_eq_true_eq]
        omega
      have given := held.paid.displace (min least weight) absent all.ge
      have gone : key ∉ keys (decrement (min least weight) s.counters) := fun member =>
        absent ((keys_decrement _ _).subset member)
      unfold MisraGries.displace
      simp only [found, bind, Option.bind]
      by_cases outweighs : least < weight
      · have roomAgain : (decrement (min least weight) s.counters).length < s.capacity := by
          rw [min_eq_left outweighs.le, held.capacity, ← full]
          exact displace_room found
        have both : weight - min least weight > 0 ∧
            (decrement (min least weight) s.counters).length < s.capacity := ⟨by omega, roomAgain⟩
        simp only [both]
        refine ⟨_, rfl, ?_, ?_, total, held.capacity, held.hash⟩
        · exact (insert_length_le _ _ _).trans (held.capacity ▸ roomAgain)
        · have new := given.insert key (weight - min least weight)
          rw [tally_of_not_mem gone, Nat.zero_add] at new
          have sum : tree.total + min least weight + (weight - min least weight) =
              (tree.update key weight).total := by
            show _ = tree.total + weight
            omega
          have weights : (fun other => (tree.weight other + if other = key then min least weight else 0) +
              if other = key then weight - min least weight else 0) =
                (tree.update key weight).weight := by
            funext other
            show _ = tree.weight other + if other = key then weight else 0
            split <;> omega
          rwa [sum, weights] at new
      · have nothing : ¬(weight - min least weight > 0 ∧
            (decrement (min least weight) s.counters).length < s.capacity) := by omega
        have whole : min least weight = weight := min_eq_right (Nat.le_of_not_lt outweighs)
        simp only [nothing, if_false]
        refine ⟨_, rfl, (decrement_length _ _).trans held.size, ?_, total, held.capacity, held.hash⟩
        rw [whole] at given ⊢
        exact given

theorem Guarantee.merge (hashing : Hashing) (mine : Guarantee capacity hash left s)
    (theirs : Guarantee capacity hash right t)    (fits : left.total + right.total < modulus) :
    ∃ merged, s.mergeFrom hashing t = .ok merged ∧
      Guarantee capacity hash (left.merge right) merged := by
  have compatible : (s.compatibility hashing).ensureMatches (t.compatibility hashing) = .ok () := by
    rw [SketchCompatibility.ensureMatches_ok_iff]
    simp only [compatibility, paramsHash, mine.capacity, theirs.capacity, mine.hash, theirs.hash]
  unfold mergeFrom
  rw [compatible]
  refine ⟨_, rfl, ?_, ?_, ?_, mine.capacity, mine.hash⟩
  · rw [mine.capacity]
    exact trimToCapacity_length le_rfl
  · rw [mine.capacity]
    exact (mine.paid.addAll theirs.paid fits).trim le_rfl
  · show wrappingAdd s.totalWeight t.totalWeight = left.total + right.total
    rw [mine.totalWeight, theirs.totalWeight, wrappingAdd_of_lt fits]

theorem Guarantee.new (hash : HashSpec) (positive : 0 < capacity) :
    ∃ s, MisraGries.new capacity hash = .ok s ∧ Guarantee capacity hash .empty s :=
  ⟨_, if_neg positive.ne', Nat.zero_le _, ⟨List.nodup_nil, fun _ => le_rfl, fun _ => le_rfl⟩, rfl, rfl,
    rfl⟩

theorem ofTree_guarantee (hashing : Hashing) (hash : HashSpec) (positive : 0 < capacity)
    (tree : UpdateTree Bytes Nat) (bounded : tree.total < modulus) :
    ∃ s, ofTree hashing capacity hash tree = some s ∧ Built hashing capacity hash tree s ∧
      Guarantee capacity hash tree s := by
  induction tree with
  | empty =>
    obtain ⟨s, created, held⟩ := Guarantee.new hash positive
    exact ⟨s, by rw [ofTree, created]; rfl, .empty created, held⟩
  | update tree key weight ih =>
    obtain ⟨s, built, steps, held⟩ := ih (lt_of_le_of_lt (Nat.le_add_right _ _) bounded)
    obtain ⟨t, added, after⟩ := held.add positive key bounded
    exact ⟨t, by rw [ofTree, built]; exact added, .add steps added, after⟩
  | merge left right ihLeft ihRight =>
    obtain ⟨s, builtLeft, stepsLeft, mine⟩ := ihLeft (lt_of_le_of_lt (Nat.le_add_right _ _) bounded)
    obtain ⟨t, builtRight, stepsRight, theirs⟩ :=
      ihRight (lt_of_le_of_lt (Nat.le_add_left _ _) bounded)
    obtain ⟨merged, joined, held⟩ := Guarantee.merge hashing mine theirs bounded
    refine ⟨merged, ?_, .merge stepsLeft stepsRight joined, held⟩
    rw [ofTree, builtLeft, builtRight]
    simp only [bind, Option.bind, joined]
    rfl

/-! ## Iteration orders -/

theorem min?_perm {a b : List Nat} (same : a.Perm b) : a.min? = b.min? := by
  refine Option.ext fun least => ?_
  rw [List.min?_eq_some_iff, List.min?_eq_some_iff]
  simp only [same.mem_iff]

theorem displace_perm {counters after : List (Bytes × Nat)} (distinct : (keys s.counters).Nodup)
    (same : s.counters.Perm counters) {key : Bytes} {weight : Nat}
    (displaced : s.displace key weight = some after) :
    ∃ after', ({ s with counters }).displace key weight = some after' ∧ after.Perm after' := by
  unfold MisraGries.displace at displaced ⊢
  rw [min?_perm (same.map Prod.snd)] at displaced
  cases found : (counters.map Prod.snd).min? with
  | none =>
    rw [found] at displaced
    cases displaced
  | some least =>
    have dec := decrement_perm same (min least weight)
    rw [found] at displaced
    simp only [bind, Option.bind, dec.length_eq] at displaced ⊢
    split at displaced
    next room =>
      cases displaced
      refine ⟨_, if_pos room, insert_perm dec ((keys_decrement _ _).nodup distinct) key _⟩
    next full =>
      cases displaced
      exact ⟨_, if_neg full, dec⟩

theorem add_perm {counters : List (Bytes × Nat)} (distinct : (keys s.counters).Nodup)
    (same : s.counters.Perm counters) {key : Bytes} {weight : Nat} (added : s.add key weight = some t) :
    ∃ after, ({ s with counters }).add key weight = some { t with counters := after } ∧
      t.counters.Perm after := by
  unfold MisraGries.add at added ⊢
  have found := lookup_perm same distinct key
  cases known : counters.lookup key with
  | some count =>
    simp only [found, known] at added ⊢
    cases added
    exact ⟨_, rfl, insert_perm same distinct key _⟩
  | none =>
    simp only [found, known, same.length_eq] at added ⊢
    split at added
    next room =>
      cases added
      rw [if_pos room]
      exact ⟨_, rfl, insert_perm same distinct key weight⟩
    next full =>
      obtain ⟨after, displaced, result⟩ := Option.bind_eq_some_iff.mp added
      cases result
      obtain ⟨after', displaced', perm⟩ := displace_perm (s := { s with
        totalWeight := wrappingAdd s.totalWeight weight, updates := wrappingAdd s.updates 1 })
        distinct same displaced
      rw [if_neg full]
      exact ⟨after', Option.bind_eq_some_iff.mpr ⟨after', displaced', rfl⟩, perm⟩

theorem mergeFrom_perm {other : MisraGries} {counters counters' : List (Bytes × Nat)}
    (distinct : (keys s.counters).Nodup) (distinct' : (keys other.counters).Nodup)
    (same : s.counters.Perm counters) (same' : other.counters.Perm counters')
    (merged : s.mergeFrom hashing other = .ok t) :
    ∃ after, ({ s with counters }).mergeFrom hashing { other with counters := counters' } =
        .ok { t with counters := after } ∧ t.counters.Perm after := by
  unfold mergeFrom at merged ⊢
  obtain ⟨_, compatible, result⟩ := bind_ok merged
  cases result
  have again : (compatibility hashing { s with counters }).ensureMatches
      (compatibility hashing { other with counters := counters' }) = .ok _ := compatible
  rw [again]
  exact ⟨_, rfl, trimToCapacity_perm (addAll_perm same same' distinct distinct')⟩

/-- Whatever order the map iterates in, a tree builds one map. -/
theorem Built.eq_ofTree (positive : 0 < capacity) (built : Built hashing capacity hash tree s)
    (bounded : tree.total < modulus) :
    ∃ base, ofTree hashing capacity hash tree = some base ∧
      s = { base with counters := s.counters } ∧ base.counters.Perm s.counters := by
  induction built with
  | @empty s created => exact ⟨s, by rw [ofTree, created]; rfl, rfl, .refl _⟩
  | @add tree s t before key weight added ih =>
    have smaller := lt_of_le_of_lt (Nat.le_add_right _ _) bounded
    obtain ⟨base, built, same, perm⟩ := ih smaller
    obtain ⟨base', again, _, held⟩ := ofTree_guarantee hashing hash positive tree smaller
    obtain rfl := Option.some.inj (again.symm.trans built)
    obtain ⟨result, done, _⟩ := held.add positive key bounded
    obtain ⟨after, added', after_perm⟩ := add_perm held.paid.distinct perm done
    rw [← same, added] at added'
    obtain rfl := Option.some.inj added'
    refine ⟨result, ?_, rfl, after_perm⟩
    rw [ofTree, built]
    exact done
  | @merge left right s other t mine theirs merged ihLeft ihRight =>
    have smallerLeft := lt_of_le_of_lt (Nat.le_add_right _ _) bounded
    have smallerRight := lt_of_le_of_lt (Nat.le_add_left _ _) bounded
    obtain ⟨base, built, same, perm⟩ := ihLeft smallerLeft
    obtain ⟨base', built', same', perm'⟩ := ihRight smallerRight
    obtain ⟨_, again, _, held⟩ := ofTree_guarantee hashing hash positive left smallerLeft
    obtain rfl := Option.some.inj (again.symm.trans built)
    obtain ⟨_, again', _, held'⟩ := ofTree_guarantee hashing hash positive right smallerRight
    obtain rfl := Option.some.inj (again'.symm.trans built')
    obtain ⟨result, done, _⟩ := Guarantee.merge hashing held held' bounded
    obtain ⟨after, merged', after_perm⟩ :=
      mergeFrom_perm held.paid.distinct held'.paid.distinct perm perm' done
    rw [← same, ← same', merged] at merged'
    obtain rfl := Except.ok.inj merged'
    refine ⟨result, ?_, rfl, after_perm⟩
    rw [ofTree, built, built']
    simp only [bind, Option.bind, done]
    rfl
  | @reorder tree s before counters order ih =>
    obtain ⟨base, built, same, perm⟩ := ih bounded
    refine ⟨base, built, ?_, perm.trans order⟩
    rw [same]

theorem Built.guarantee (positive : 0 < capacity) (built : Built hashing capacity hash tree s)
    (bounded : tree.total < modulus) : Guarantee capacity hash tree s := by
  obtain ⟨base, again, same, perm⟩ := built.eq_ofTree positive bounded
  obtain ⟨_, built', _, held⟩ := ofTree_guarantee hashing hash positive tree bounded
  obtain rfl := Option.some.inj (built'.symm.trans again)
  rw [same]
  exact ⟨perm.length_eq ▸ held.size, held.paid.perm perm, held.totalWeight, held.capacity, held.hash⟩

/-- The Misra-Gries guarantee over merge trees and iteration orders. -/
theorem misra_gries_guarantee (positive : 0 < capacity) (tree : UpdateTree Bytes Nat)
    (bounded : tree.total < modulus) :
    (∃ s, Built hashing capacity hash tree s) ∧
    (∀ s, Built hashing capacity hash tree s →
      s.counters.length ≤ capacity ∧ s.totalWeight = tree.total ∧ mass s.counters ≤ tree.total ∧
      (∀ key, (s.get key).getD 0 ≤ tree.weight key ∧
        (capacity + 1) * (tree.weight key - (s.get key).getD 0) ≤ tree.total - mass s.counters ∧
        (tree.total < (capacity + 1) * tree.weight key → (s.get key).isSome)) ∧
      (∀ key weight, tree.total + weight < modulus → ∃ t, s.add key weight = some t) ∧
      (∀ least, (s.counters.map Prod.snd).min? = some least → ∀ entry ∈ s.counters, least ≤ entry.2)) ∧
    (∀ (counters : List (Bytes × Nat)) (rounds : Nat), counters.length ≤ rounds →
      (trimToCapacity capacity rounds counters).length ≤ capacity ∧
      trimToCapacity capacity rounds counters = trimToCapacity capacity counters.length counters) ∧
    (∀ s t, Built hashing capacity hash tree s → Built hashing capacity hash tree t →
      s.counters.Perm t.counters ∧ s = { t with counters := s.counters }) := by
  refine ⟨?_, fun s built => ?_, fun counters rounds enough => ⟨trimToCapacity_length enough, ?_⟩,
    fun s t left right => ?_⟩
  · obtain ⟨s, _, built, _⟩ := ofTree_guarantee hashing hash positive tree bounded
    exact ⟨s, built⟩
  · have held := built.guarantee positive bounded
    refine ⟨held.size, held.totalWeight, held.paid.mass_le, fun key => ?_, fun key weight fits => ?_,
      fun least found => min?_le found⟩
    · have under : tally s.counters key ≤ tree.weight key := held.paid.under key
      have paid := held.paid.paid key
      have split : (capacity + 1) * tree.weight key =
          (capacity + 1) * (tree.weight key - tally s.counters key) +
            (capacity + 1) * tally s.counters key := by
        rw [← Nat.mul_add, Nat.sub_add_cancel under]
      refine ⟨under, ?_, fun heavy => ?_⟩
      · show (capacity + 1) * (tree.weight key - tally s.counters key) ≤ _
        omega
      · rw [MisraGries.get, Option.isSome_iff_ne_none]
        intro missing
        rw [tally_of_not_mem (lookup_eq_none_iff.mp missing), Nat.mul_zero] at paid
        omega
    · obtain ⟨t, added, _⟩ := held.add positive key fits
      exact ⟨t, added⟩
  · rw [trimToCapacity_eq enough, trimToCapacity_eq le_rfl]
  · obtain ⟨base, built, same, perm⟩ := left.eq_ofTree positive bounded
    obtain ⟨base', built', same', perm'⟩ := right.eq_ofTree positive bounded
    obtain rfl := Option.some.inj (built.symm.trans built')
    refine ⟨perm.symm.trans perm', ?_⟩
    rw [same', same]

end

/-- Two counters for three keys, with a merge that trims. -/
def crowdedTree : UpdateTree Bytes Nat :=
  .merge ((UpdateTree.empty.update [1] 3).update [2] 5) ((UpdateTree.empty.update [3] 4).update [2] 0)

theorem crowdedTree_guarantee :
    ∃ s, Built fsk1 2 (HashSpec.new 7) crowdedTree s ∧ s.counters.length ≤ 2 ∧
      s.totalWeight = 12 := by
  have guarantee := @misra_gries_guarantee fsk1 2 (HashSpec.new 7) (by decide) crowdedTree (by decide)
  obtain ⟨s, built⟩ := guarantee.1
  obtain ⟨size, total, _⟩ := guarantee.2.1 s built
  exact ⟨s, built, size, total⟩

end FlowSketch.Source.MisraGries
