import FlowSketch.Source.HyperLogLog

/-!
# The state of a HyperLogLog is a function of its hashes

`storageOf precision hashes` is the one form in which a set of hashes can be stored: the sorted hashes
themselves up to the sparse limit, and past it, for each register, the greatest `rho` among its
hashes. Insertions and merges take forms of this kind to the form of the larger set, so that nothing
but the set of hashes and the number of insertions survives of the tree that built a sketch.
-/

namespace FlowSketch.Source
open Lib.Octets Lib.Word64 Source.Core

/-- The hashes themselves, sorted and without repetition. -/
def RegisterStorage.Exactly (hashes : Finset UInt64) :
    RegisterStorage → Prop
  | .empty => hashes = ∅
  | .singleton hash => hashes = {hash}
  | .sparse sorted => sorted.Pairwise (· < ·) ∧ sorted.toFinset = hashes
  | .dense _ => False

namespace HyperLogLog

/-! ## Registers of a set of hashes -/

/-- The greatest `rho` among the hashes of register `i`, and 0 if it has none. -/
def registerOf (precision : Nat) (hashes : Finset UInt64) (i : Nat) : Nat :=
  (hashes.filter (fun hash => registerIndex precision hash = i)).sup (rho precision)

def registersOf (precision : Nat) (hashes : Finset UInt64) : List Nat :=
  (List.range (2 ^ precision)).map (registerOf precision hashes)

theorem rho_le (precision : Nat) (hash : UInt64) : rho precision hash ≤ 64 - precision + 1 :=
  Nat.min_le_right _ _

theorem registerOf_le (precision : Nat) (hashes : Finset UInt64) (i : Nat) :
    registerOf precision hashes i ≤ 64 - precision + 1 :=
  Finset.sup_le (fun hash _ => rho_le precision hash)

theorem registerIndex_lt {precision : Nat} (small : precision ≤ 64) (hash : UInt64) :
    registerIndex precision hash < 2 ^ precision := by
  rw [registerIndex, Nat.shiftRight_eq_div_pow, Nat.div_lt_iff_lt_mul (Nat.two_pow_pos _),
    ← Nat.pow_add, Nat.add_sub_cancel' small]
  exact hash.toNat_lt

theorem registersOf_empty (precision : Nat) :
    registersOf precision ∅ = List.replicate (2 ^ precision) 0 := by
  refine List.eq_replicate_iff.mpr ⟨by simp [registersOf], ?_⟩
  simp [registersOf, registerOf]

theorem registerOf_insert (precision : Nat) (hashes : Finset UInt64) (hash : UInt64) (i : Nat) :
    registerOf precision (insert hash hashes) i =
      if registerIndex precision hash = i then
        max (rho precision hash) (registerOf precision hashes i)
      else registerOf precision hashes i := by
  unfold registerOf
  rw [Finset.filter_insert]
  split
  · rw [Finset.sup_insert]
  · rfl

theorem registerOf_union (precision : Nat) (left right : Finset UInt64) (i : Nat) :
    registerOf precision (left ∪ right) i =
      max (registerOf precision left i) (registerOf precision right i) := by
  unfold registerOf
  rw [Finset.filter_union, Finset.sup_union]

theorem updateRegister_registersOf {precision : Nat} (hashes : Finset UInt64) (hash : UInt64) :
    updateRegister precision (registersOf precision hashes) hash =
      registersOf precision (insert hash hashes) := by
  refine List.ext_getElem? fun i => ?_
  simp only [updateRegister, registersOf, List.getElem?_modify, List.getElem?_map]
  cases inside : (List.range (2 ^ precision))[i]? with
  | none => rfl
  | some j =>
    obtain ⟨_, rfl⟩ := List.getElem?_eq_some_iff.mp inside
    simp only [List.getElem_range, Option.map_some, registerOf_insert]
    by_cases same : registerIndex precision hash = i
    · simp only [same, if_true, Option.map_eq_map, Option.map_some, Option.some.injEq]
      split <;> omega
    · simp [same]

theorem foldl_registersOf {precision : Nat} (list : List UInt64) (hashes : Finset UInt64) :
    list.foldl (updateRegister precision) (registersOf precision hashes) =
      registersOf precision (hashes ∪ list.toFinset) := by
  induction list generalizing hashes with
  | nil => simp
  | cons hash rest ih =>
    rw [List.foldl_cons, updateRegister_registersOf, ih, List.toFinset_cons,
      Finset.insert_union, Finset.union_insert]

theorem denseOf_eq (precision : Nat) (list : List UInt64) :
    denseOf precision list = registersOf precision list.toFinset := by
  rw [denseOf, ← registersOf_empty, foldl_registersOf, Finset.empty_union]

theorem maxRegisters_map {α : Type} (f g : α → Nat) (list : List α) :
    maxRegisters (list.map f) (list.map g) = list.map (fun i => max (f i) (g i)) := by
  induction list with
  | nil => rfl
  | cons i rest ih =>
    simp only [List.map_cons, maxRegisters, ih, List.cons.injEq, and_true]
    split <;> omega

theorem maxRegisters_registersOf (precision : Nat) (left right : Finset UInt64) :
    maxRegisters (registersOf precision left) (registersOf precision right) =
      registersOf precision (left ∪ right) := by
  rw [registersOf, registersOf, maxRegisters_map, registersOf]
  exact List.map_congr_left (fun i _ => (registerOf_union precision left right i).symm)

/-! ## The form of a set of hashes -/

def exactStorage : List UInt64 → RegisterStorage
  | [] => .empty
  | [hash] => .singleton hash
  | hashes => .sparse hashes

def storageOf (precision : Nat) (hashes : Finset UInt64) : RegisterStorage :=
  if hashes.card ≤ sparseLimit precision then exactStorage (hashes.sort (· ≤ ·))
  else .dense (registersOf precision hashes)

theorem sparseLimit_pos (precision : Nat) : 0 < sparseLimit precision := by
  unfold sparseLimit
  omega

theorem hashes_exactStorage (list : List UInt64) : (exactStorage list).hashes = list := by
  unfold exactStorage
  split <;> rfl

theorem exactStorage_ne_dense (list : List UInt64) (registers : List Nat) :
    exactStorage list ≠ .dense registers := by
  unfold exactStorage
  split <;> exact RegisterStorage.noConfusion

/-- Any sorted list of the hashes is the stored one. -/
theorem storageOf_exact {precision : Nat} {hashes : Finset UInt64} {list : List UInt64}
    (few : hashes.card ≤ sparseLimit precision) (sorted : list.Pairwise (· ≤ ·))
    (distinct : list.Nodup) (same : list.toFinset = hashes) :
    storageOf precision hashes = exactStorage list := by
  rw [storageOf, if_pos few, ← same, (List.toFinset_sort (· ≤ ·) distinct).mpr sorted]

theorem storageOf_dense {precision : Nat} {hashes : Finset UInt64}
    (many : sparseLimit precision < hashes.card) :
    storageOf precision hashes = .dense (registersOf precision hashes) := by
  rw [storageOf, if_neg (Nat.not_le.mpr many)]

/-- Either way, densifying gives the registers of the set. -/
theorem ensureDense_of_storageOf {s : HyperLogLog} {hashes : Finset UInt64}
    (form : s.storage = storageOf s.precision hashes) :
    s.ensureDense = registersOf s.precision hashes := by
  unfold ensureDense
  rw [form, storageOf]
  by_cases few : hashes.card ≤ sparseLimit s.precision
  · rw [if_pos few]
    split
    next registers dense => exact absurd dense (exactStorage_ne_dense _ _)
    · rw [hashes_exactStorage, denseOf_eq, Finset.sort_toFinset]
  · rw [if_neg few]

/-- What an insertion or a merge keeps. -/
structure SameSetup (s t : HyperLogLog) : Prop where
  precision : t.precision = s.precision
  hash : t.hash = s.hash
  updates : t.updates = s.updates

theorem SameSetup.eq_of_storage {s t : HyperLogLog} (setup : SameSetup s t) :
    t = { s with storage := t.storage } := by
  obtain ⟨rprecision, rhash, rstorage, rupdates⟩ := t
  obtain ⟨precision, hash, updates⟩ := setup
  simp only at precision hash updates
  rw [precision, hash, updates]

theorem insertHash_setup (s : HyperLogLog) (hash : UInt64) : SameSetup s (s.insertHash hash) := by
  unfold insertHash insertDense
  split
  · exact ⟨rfl, rfl, rfl⟩
  · split
    · exact ⟨rfl, rfl, rfl⟩
    · split <;> exact ⟨rfl, rfl, rfl⟩
  · split
    · exact ⟨rfl, rfl, rfl⟩
    · split <;> exact ⟨rfl, rfl, rfl⟩
  · exact ⟨rfl, rfl, rfl⟩

theorem insertDense_storage {s : HyperLogLog} {hashes : Finset UInt64}
    (form : s.storage = storageOf s.precision hashes) {hash : UInt64}
    (many : sparseLimit s.precision < (insert hash hashes).card) :
    (s.insertDense hash).storage = storageOf s.precision (insert hash hashes) := by
  rw [insertDense, ensureDense_of_storageOf form, updateRegister_registersOf, storageOf_dense many]

theorem sort_pair {x y : UInt64} (distinct : x ≠ y) :
    ([x, y].mergeSort (· ≤ ·)).Pairwise (· ≤ ·) ∧ ([x, y].mergeSort (· ≤ ·)).Nodup ∧
      ([x, y].mergeSort (· ≤ ·)).toFinset = {y, x} := by
  have same := List.mergeSort_perm [x, y] (· ≤ ·)
  refine ⟨List.pairwise_mergeSort' (· ≤ ·) _, same.nodup_iff.mpr (by simpa using distinct), ?_⟩
  rw [List.toFinset_eq_of_perm _ _ same]
  simp [Finset.pair_comm]

/-- An insertion takes the form of a set to the form of the set with the hash in it. -/
theorem insertHash_storage {s : HyperLogLog} {hashes : Finset UInt64}
    (form : s.storage = storageOf s.precision hashes) (hash : UInt64) :
    (s.insertHash hash).storage = storageOf s.precision (insert hash hashes) := by
  have positive := sparseLimit_pos s.precision
  have length : (hashes.sort (· ≤ ·)).length = hashes.card := Finset.length_sort _
  have members : (hashes.sort (· ≤ ·)).toFinset = hashes := Finset.sort_toFinset _ _
  by_cases few : hashes.card ≤ sparseLimit s.precision
  · rw [storageOf, if_pos few] at form
    have dense : sparseLimit s.precision < (insert hash hashes).card →
        (s.insertDense hash).storage = storageOf s.precision (insert hash hashes) :=
      insertDense_storage (by rw [form, storageOf, if_pos few])
    unfold insertHash
    cases sorted : hashes.sort (· ≤ ·) with
    | nil =>
      rw [sorted] at form members
      rw [form, ← members]
      symm
      exact @storageOf_exact _ _ [hash] (by simpa using Nat.succ_le_of_lt positive) (by simp) (by simp) (by simp)
    | cons first rest =>
      rw [sorted] at form members length
      cases rest with
      | nil =>
        obtain rfl : hashes = {first} := by simpa using members.symm
        rw [form]
        simp only [exactStorage]
        by_cases known : first = hash
        · rw [if_pos known, ← known, form, Finset.insert_eq_of_mem (Finset.mem_singleton_self _)]
          symm
          exact storageOf_exact few (by simp) (by simp) (by simp)
        · rw [if_neg known]
          have two : (insert hash ({first} : Finset UInt64)).card = 2 :=
            Finset.card_pair (Ne.symm known)
          by_cases room : sparseLimit s.precision > 1
          · rw [if_pos room]
            obtain ⟨ordered, distinct, same⟩ := sort_pair known
            rw [storageOf_exact (by omega) ordered distinct same]
            have size : ([first, hash].mergeSort (· ≤ ·)).length = 2 := by
              rw [List.length_mergeSort]
              rfl
            obtain ⟨x, y, shape⟩ := List.length_eq_two.mp size
            rw [shape]
            rfl
          · rw [if_neg room]
            exact dense (by omega)
      | cons second rest =>
        have known_iff : hash ∈ first :: second :: rest ↔ hash ∈ hashes := by
          rw [← members, List.mem_toFinset]
        rw [form]
        simp only [exactStorage]
        by_cases known : hash ∈ hashes
        · rw [if_pos (known_iff.mpr known), form, Finset.insert_eq_of_mem known, storageOf,
            if_pos few, sorted]
        · rw [if_neg (fun present => known (known_iff.mp present)), length]
          have grown := Finset.card_insert_of_notMem known
          by_cases room : hashes.card < sparseLimit s.precision
          · rw [if_pos room]
            have ordered : (first :: second :: rest).Pairwise (· ≤ ·) :=
              sorted ▸ Finset.pairwise_sort hashes (· ≤ ·)
            have distinct : (first :: second :: rest).Nodup := sorted ▸ Finset.sort_nodup hashes (· ≤ ·)
            have perm := List.perm_orderedInsert (· ≤ ·) hash (first :: second :: rest)
            rw [storageOf_exact (by omega) (ordered.orderedInsert hash _)
              (perm.nodup_iff.mpr (List.nodup_cons.mpr
                ⟨fun present => known (known_iff.mp present), distinct⟩))
              ((List.toFinset_eq_of_perm _ _ perm).trans (by rw [List.toFinset_cons, members]))]
            have size := List.orderedInsert_length (· ≤ ·) (first :: second :: rest) hash
            cases shape : (first :: second :: rest).orderedInsert (· ≤ ·) hash with
            | nil => rw [shape] at size; cases size
            | cons a tail =>
              cases tail with
              | nil => rw [shape] at size; cases size
              | cons b tail => rfl
          · rw [if_neg room]
            exact dense (by omega)
  · rw [storageOf, if_neg few] at form
    unfold insertHash
    rw [form]
    simp only
    rw [updateRegister_registersOf, storageOf_dense]
    exact (Nat.lt_of_not_le few).trans_le (Finset.card_le_card (Finset.subset_insert _ _))

theorem foldl_insertHash {s : HyperLogLog} {hashes : Finset UInt64}
    (form : s.storage = storageOf s.precision hashes) (list : List UInt64) :
    SameSetup s (list.foldl insertHash s) ∧
      (list.foldl insertHash s).storage = storageOf s.precision (hashes ∪ list.toFinset) := by
  induction list generalizing s hashes with
  | nil => exact ⟨⟨rfl, rfl, rfl⟩, by simpa using form⟩
  | cons hash rest ih =>
    have setup := insertHash_setup s hash
    have inserted := insertHash_storage form hash
    rw [← setup.precision] at inserted
    obtain ⟨kept, storage⟩ := ih inserted
    refine ⟨⟨kept.precision.trans setup.precision, kept.hash.trans setup.hash,
      kept.updates.trans setup.updates⟩, ?_⟩
    rw [List.foldl_cons, storage, setup.precision, List.toFinset_cons, Finset.union_insert,
      Finset.insert_union]

/-- A merge takes the forms of two sets to the form of their union. -/
theorem mergeStorage_storage {s t : HyperLogLog} {left right : Finset UInt64}
    (formLeft : s.storage = storageOf s.precision left)
    (formRight : t.storage = storageOf s.precision right) :
    SameSetup s (s.mergeStorage t) ∧
      (s.mergeStorage t).storage = storageOf s.precision (left ∪ right) := by
  by_cases few : right.card ≤ sparseLimit s.precision
  · -- the other sketch still has its hashes, which are inserted one by one
    have inserted := foldl_insertHash formLeft (right.sort (· ≤ ·))
    rw [Finset.sort_toFinset] at inserted
    rw [storageOf, if_pos few] at formRight
    unfold mergeStorage
    generalize right.sort (· ≤ ·) = list at formRight inserted
    rw [formRight]
    unfold exactStorage
    split
    next none_seen =>
      split at none_seen <;> first | exact inserted | cases none_seen
    next hash one_seen =>
      split at one_seen <;> first | (cases one_seen; exact inserted) | cases one_seen
    next hashes many_seen =>
      split at many_seen <;> first | (cases many_seen; exact inserted) | cases many_seen
    next registers dense =>
      split at dense <;> cases dense
  · have many : sparseLimit s.precision < (left ∪ right).card :=
      (Nat.lt_of_not_le few).trans_le (Finset.card_le_card Finset.subset_union_right)
    rw [storageOf, if_neg few] at formRight
    unfold mergeStorage
    rw [formRight]
    refine ⟨⟨rfl, rfl, rfl⟩, ?_⟩
    simp only
    rw [ensureDense_of_storageOf formLeft, maxRegisters_registersOf, storageOf_dense many]

/-! ## Trees of insertions and merges -/

inductive Tree where
  | empty
  | insert (tree : Tree) (key : Bytes)
  | merge (left right : Tree)

namespace Tree

/-- The sketch a tree builds. -/
def build (hashing : Hashing) (precision : Nat) (hash : HashSpec) :
    Tree → Except SketchError HyperLogLog
  | empty => HyperLogLog.new precision hash
  | insert tree key => do
    let sketch ← tree.build hashing precision hash
    return sketch.insert hashing key
  | merge left right => do
    let self ← left.build hashing precision hash
    let other ← right.build hashing precision hash
    self.mergeFrom hashing other

/-- The keys inserted anywhere in the tree, in order. -/
def keys : Tree → List Bytes
  | empty => []
  | insert tree key => tree.keys ++ [key]
  | merge left right => left.keys ++ right.keys

/-- The distinct hashes inserted anywhere in the tree. -/
def hashes (hashing : Hashing) (hash : HashSpec) (tree : Tree) : Finset UInt64 :=
  (tree.keys.map (fun key => hashing.hash64 key hash.seed)).toFinset

/-- One sketch that sees all the keys itself. -/
def stream (keys : List Bytes) : Tree := keys.foldl insert empty

end Tree

/-- The sketch of a set of hashes after a number of insertions. -/
def canonical (precision : Nat) (hash : HashSpec) (hashes : Finset UInt64) (inserts : Nat) :
    HyperLogLog :=
  { precision, hash, storage := storageOf precision hashes, updates := inserts % modulus }

section

variable {hashing : Hashing} {precision : Nat} {hash : HashSpec}

theorem insert_canonical (hashes : Finset UInt64) (inserts : Nat) (key : Bytes) :
    (canonical precision hash hashes inserts).insert hashing key =
      canonical precision hash (insert (hashing.hash64 key hash.seed) hashes) (inserts + 1) := by
  let ticked : HyperLogLog :=
    { canonical precision hash hashes inserts with updates := (inserts + 1) % modulus }
  have tick : wrappingAdd (inserts % modulus) 1 = (inserts + 1) % modulus := Nat.mod_add_mod ..
  have inserted : (canonical precision hash hashes inserts).insert hashing key =
      ticked.insertHash (hashing.hash64 key hash.seed) := by
    rw [HyperLogLog.insert]
    simp only [canonical, tick, ticked]
  have form : ticked.storage = storageOf ticked.precision hashes := rfl
  rw [inserted, (insertHash_setup ticked (hashing.hash64 key hash.seed)).eq_of_storage,
    insertHash_storage form]
  rfl

theorem mergeFrom_canonical (left right : Finset UInt64) (mine theirs : Nat) :
    (canonical precision hash left mine).mergeFrom hashing (canonical precision hash right theirs) =
      .ok (canonical precision hash (left ∪ right) (mine + theirs)) := by
  have formLeft : (canonical precision hash left mine).storage = storageOf precision left := rfl
  have formRight : (canonical precision hash right theirs).storage = storageOf precision right := rfl
  obtain ⟨setup, storage⟩ := mergeStorage_storage formLeft formRight
  have compatible : ((canonical precision hash left mine).compatibility hashing).ensureMatches
      ((canonical precision hash right theirs).compatibility hashing) = .ok () :=
    SketchCompatibility.ensureMatches_self _
  have total : wrappingAdd (mine % modulus) (theirs % modulus) = (mine + theirs) % modulus :=
    (Nat.add_mod ..).symm
  rw [mergeFrom, compatible, setup.eq_of_storage, storage]
  refine congrArg Except.ok ?_
  simp only [canonical, total]

theorem build_canonical (inRange : minPrecision ≤ precision ∧ precision ≤ maxPrecision)
    (tree : Tree) :
    tree.build hashing precision hash =
      .ok (canonical precision hash (tree.hashes hashing hash) tree.keys.length) := by
  induction tree with
  | empty =>
    rw [Tree.build, HyperLogLog.new, if_neg (not_not.mpr inRange)]
    refine congrArg Except.ok ?_
    have few : (∅ : Finset UInt64).card ≤ sparseLimit precision := Nat.zero_le _
    simp only [canonical, Tree.hashes, Tree.keys, List.map_nil, List.toFinset_nil, storageOf,
      if_pos few, Finset.sort_empty, exactStorage, List.length_nil, Nat.zero_mod]
  | insert tree key ih =>
    rw [Tree.build, ih]
    refine congrArg Except.ok ((insert_canonical _ _ key).trans ?_)
    simp only [Tree.hashes, Tree.keys, List.map_append, List.map_cons, List.map_nil,
      List.toFinset_append, List.toFinset_cons, List.toFinset_nil, List.length_append,
      List.length_singleton, insert_empty_eq, Finset.union_singleton]
  | merge left right ihLeft ihRight =>
    rw [Tree.build, ihLeft, ihRight]
    refine (mergeFrom_canonical _ _ _ _).trans ?_
    simp only [Tree.hashes, Tree.keys, List.map_append, List.toFinset_append, List.length_append]

theorem stream_keys (keys : List Bytes) : (Tree.stream keys).keys = keys := by
  have grows : ∀ tree : Tree, (keys.foldl Tree.insert tree).keys = tree.keys ++ keys := by
    induction keys with
    | nil => simp
    | cons key rest ih =>
      intro tree
      rw [List.foldl_cons, ih, Tree.keys, List.append_assoc]
      rfl
  exact grows .empty

theorem storageOf_exactly {hashes : Finset UInt64} (few : hashes.card ≤ sparseLimit precision) :
    (storageOf precision hashes).Exactly hashes := by
  have members : (hashes.sort (· ≤ ·)).toFinset = hashes := Finset.sort_toFinset _ _
  have ordered := Finset.sortedLT_sort hashes
  rw [storageOf, if_pos few]
  generalize hashes.sort (· ≤ ·) = list at members ordered
  unfold exactStorage
  split
  · exact members.symm
  · exact members.symm.trans (by simp)
  · exact ⟨ordered.pairwise, members⟩

theorem registersOf_getElem? {hashes : Finset UInt64} {i register : Nat}
    (present : (registersOf precision hashes)[i]? = some register) :
    register = registerOf precision hashes i ∧ register ≤ 64 - precision + 1 := by
  rw [registersOf, List.getElem?_map, Option.map_eq_some_iff] at present
  obtain ⟨j, inside, rfl⟩ := present
  obtain ⟨_, rfl⟩ := List.getElem?_eq_some_iff.mp inside
  rw [List.getElem_range]
  exact ⟨rfl, registerOf_le precision hashes i⟩

/-- A sketch is determined by the set of its hashes and, modulo `2^64`, the number of its insertions;
so merging is commutative, associative, idempotent on the storage and the same as one stream. -/
theorem tree_canonical (hashing : Hashing) (precision : Nat) (hash : HashSpec)
    (inRange : minPrecision ≤ precision ∧ precision ≤ maxPrecision) (tree : Tree) :
    ∃ s, tree.build hashing precision hash = .ok s ∧
      ((tree.hashes hashing hash).card ≤ sparseLimit precision →
        s.storage.Exactly (tree.hashes hashing hash)) ∧
      (sparseLimit precision < (tree.hashes hashing hash).card →
        ∃ registers, s.storage = .dense registers ∧ registers.length = 2 ^ precision ∧
          ∀ i register, registers[i]? = some register →
            register = registerOf precision (tree.hashes hashing hash) i ∧
              register ≤ 65 - precision) ∧
      s.updates = tree.keys.length % modulus ∧
      (tree.merge tree).build hashing precision hash =
        .ok { s with updates := wrappingAdd s.updates s.updates } ∧
      (∀ other : Tree, (tree.merge other).build hashing precision hash =
        (other.merge tree).build hashing precision hash) ∧
      (∀ other third : Tree, ((tree.merge other).merge third).build hashing precision hash =
        (tree.merge (other.merge third)).build hashing precision hash) ∧
      ∀ other : Tree, (tree.merge other).build hashing precision hash =
        (Tree.stream (tree.keys ++ other.keys)).build hashing precision hash := by
  refine ⟨_, build_canonical inRange tree, storageOf_exactly, fun many => ?_, rfl, ?_, ?_, ?_, ?_⟩
  · refine ⟨_, storageOf_dense many, by simp [registersOf], fun i register present => ?_⟩
    obtain ⟨greatest, bounded⟩ := registersOf_getElem? present
    have top := inRange.2
    unfold maxPrecision at top
    exact ⟨greatest, by omega⟩
  · rw [Tree.build, build_canonical inRange tree]
    refine (mergeFrom_canonical _ _ _ _).trans ?_
    rw [Finset.union_self]
    refine congrArg Except.ok ?_
    simp only [canonical, wrappingAdd]
    rw [← Nat.add_mod]
  · intro other
    rw [build_canonical inRange, build_canonical inRange]
    simp only [Tree.hashes, Tree.keys, List.map_append, List.toFinset_append, List.length_append,
      Finset.union_comm, Nat.add_comm]
  · intro other third
    rw [build_canonical inRange, build_canonical inRange]
    simp only [Tree.hashes, Tree.keys, List.append_assoc]
  · intro other
    rw [build_canonical inRange, build_canonical inRange]
    simp only [Tree.hashes, stream_keys, Tree.keys]

end

/-- Two keys on different sides of a merge. -/
def twoKeys : Tree := .merge (.insert .empty [1]) (.insert .empty [2])

theorem twoKeys_canonical :
    ∃ s, twoKeys.build fsk1 4 (HashSpec.new 0) = .ok s ∧ s.updates = 2 := by
  obtain ⟨s, built, _, _, updates, _⟩ := tree_canonical fsk1 4 (HashSpec.new 0) (by decide) twoKeys
  exact ⟨s, built, updates⟩

/-- One key, merged with itself over and over. -/
def redoubled : Nat → Tree
  | 0 => .insert .empty []
  | n + 1 => .merge (redoubled n) (redoubled n)

theorem redoubled_keys (n : Nat) : (redoubled n).keys.length = 2 ^ n := by
  induction n with
  | zero => rfl
  | succ n ih =>
    rw [redoubled, Tree.keys, List.length_append, ih]
    omega

/-- After `2^64` insertions the counter is back at zero. -/
theorem redoubled_updates_wrap :
    ∃ s, (redoubled 64).build fsk1 4 (HashSpec.new 0) = .ok s ∧
      s.updates = 0 ∧ (redoubled 64).keys.length = 2 ^ 64 := by
  have built := @build_canonical fsk1 4 (HashSpec.new 0) (by decide) (redoubled 64)
  refine ⟨_, built, ?_, redoubled_keys 64⟩
  simp only [canonical, redoubled_keys]
  exact Nat.mod_self _

end HyperLogLog

end FlowSketch.Source
