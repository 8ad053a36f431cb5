import FlowSketch.Lib.Lists
import FlowSketch.Source.CountMin
import FlowSketch.Source.CountSketch

/-!
# Snapshots of counter tables

Count-Min and CountSketch write their dimensions and then every cell. A table that updates and merges
built has one word for each cell, whatever the sums wrapped around.
-/

namespace FlowSketch.Source
open Lib.Octets Lib.Word64 Lib.Lists Source.Core

theorem addCells_length {α : Type} (sum : α → α → α) (mine theirs : List α) :
    (addCells sum mine theirs).length = mine.length := by
  induction mine generalizing theirs with
  | nil => rfl
  | cons a mine ih =>
    cases theirs with
    | nil => rfl
    | cons b theirs => rw [addCells, List.length_cons, ih, List.length_cons]

theorem forall_addCells {α : Type} {P : α → Prop} {sum : α → α → α} (sums : ∀ a b, P (sum a b))
    {mine : List α} (all : ∀ x ∈ mine, P x) (theirs : List α) :
    ∀ x ∈ addCells sum mine theirs, P x := by
  induction mine generalizing theirs with
  | nil => exact all
  | cons a mine ih =>
    cases theirs with
    | nil => exact all
    | cons b theirs =>
      intro x member
      rcases List.mem_cons.mp member with rfl | later
      · exact sums a b
      · exact ih (fun y inside => all y (List.mem_cons_of_mem _ inside)) theirs x later

namespace CountMinSketch

inductive Reachable (hashing : Hashing) : CountMinSketch → Prop
  | new {width depth : Nat} {conservative : Bool} {hash : HashSpec} {s : CountMinSketch}
      (created : CountMinSketch.new width depth conservative hash = .ok s) : Reachable hashing s
  | update {s : CountMinSketch} (before : Reachable hashing s) (key : Bytes) {value : Nat}
      (word : value < modulus) : Reachable hashing (s.update hashing key value)
  | merge {s other t : CountMinSketch} (before : Reachable hashing s)
      (argument : Reachable hashing other) (merged : s.mergeFrom hashing other = .ok t) :
      Reachable hashing t

/-- One word for each cell. -/
structure Wf (s : CountMinSketch) : Prop where
  width : 0 < s.width
  depth : 0 < s.depth
  size : s.table.length = s.width * s.depth
  cells : ∀ count ∈ s.table, count < modulus
  totalWeight : s.totalWeight < modulus
  updates : s.updates < modulus

theorem Wf.update {hashing : Hashing} {s : CountMinSketch} (wf : Wf s) (key : Bytes) (value : Nat) :
    Wf (s.update hashing key value) := by
  refine ⟨wf.width, wf.depth, ?_, ?_, wrappingAdd_lt _ _, wrappingAdd_lt _ _⟩
  · refine Eq.trans ?_ wf.size
    unfold CountMinSketch.update raiseRows addRows
    split <;> exact foldl_modify_length _ _ _ _
  · have raised : ∀ target, target < modulus → ∀ count ∈ s.raiseRows hashing key target,
        count < modulus := by
      intro target word
      refine forall_foldl_modify _ _ (fun row count held => ?_) _ wf.cells
      split
      · exact word
      · exact held
    unfold CountMinSketch.update
    split
    · exact raised _ (wrappingAdd_lt _ _)
    · refine forall_foldl_modify _ _ (fun row count _ => ?_) _ wf.cells
      exact wrappingAdd_lt _ _

theorem Wf.new {width depth : Nat} {conservative : Bool} {hash : HashSpec} {s : CountMinSketch}
    (created : CountMinSketch.new width depth conservative hash = .ok s) : Wf s := by
  unfold CountMinSketch.new at created
  split at created
  · cases created
  next positive =>
    cases created
    rw [not_or] at positive
    refine ⟨Nat.pos_of_ne_zero positive.1, Nat.pos_of_ne_zero positive.2, by simp, ?_,
      modulus_pos, modulus_pos⟩
    intro count member
    rw [List.eq_of_mem_replicate member]
    exact modulus_pos

theorem Wf.merge {hashing : Hashing} {s other t : CountMinSketch} (wf : Wf s)
    (merged : s.mergeFrom hashing other = .ok t) : Wf t := by
  obtain ⟨_, _, result⟩ := bind_ok merged
  cases result
  exact ⟨wf.width, wf.depth, (addCells_length ..).trans wf.size,
    forall_addCells wrappingAdd_lt wf.cells _, wrappingAdd_lt _ _, wrappingAdd_lt _ _⟩

theorem Reachable.wf {hashing : Hashing} {s : CountMinSketch} (run : Reachable hashing s) : Wf s := by
  induction run with
  | new created => exact Wf.new created
  | update _ key _ wf => exact wf.update key _
  | merge _ _ merged wf _ => exact wf.merge merged

/-- The dimensions and the payload fit the 32 bits they are written with. -/
structure Sized (s : CountMinSketch) : Prop where
  width : s.width < 2 ^ 32
  depth : s.depth < 2 ^ 32
  payload : s.payload.length < 2 ^ 32

theorem readParams_params {s : CountMinSketch} (sized : Sized s) :
    readParams s.params = .ok ((s.width, s.depth, s.conservative), []) := by
  have flag : s.conservative.toNat < 2 ^ 8 := by cases s.conservative <;> decide
  have fields : s.params = leBytes 4 s.width ++ (leBytes 4 s.depth ++
      (leBytes 1 s.conservative.toNat ++ [])) := by
    simp only [params, List.append_assoc, List.append_nil]
  rw [fields]
  refine (Read.bind_run (Reader.u32_leBytes sized.width _)).trans ?_
  refine (Read.bind_run (Reader.u32_leBytes sized.depth _)).trans ?_
  refine (Read.bind_run (Reader.u8_leBytes flag _)).trans ?_
  cases s.conservative <;> rfl

theorem readPayload_payload {s : CountMinSketch} (wf : Wf s) :
    readPayload s.hash s.width s.depth s.conservative s.payload = .ok (s, []) := by
  have fields : s.payload = leBytes 8 s.totalWeight ++ (leBytes 8 s.updates ++
      (Reader.writeU64s s.table ++ [])) := by
    simp only [payload, List.append_assoc, List.append_nil]
  have enough : s.width * s.depth * 8 ≤ (Reader.writeU64s s.table ++ []).length := by
    rw [List.append_nil, Reader.writeU64s_length, wf.size]
  have cells := Reader.u64s_writeU64s wf.cells []
  rw [wf.size] at cells
  rw [fields]
  refine (Read.bind_run (Reader.u64_leBytes wf.totalWeight _)).trans ?_
  refine (Read.bind_run (Reader.u64_leBytes wf.updates _)).trans ?_
  refine (Read.bind_run (Reader.checkCount_run (by decide) enough)).trans ?_
  exact Read.bind_run cells

def codec (hashing : Hashing) : Codec CountMinSketch where
  algorithmId := algorithmId.countMin
  hash := CountMinSketch.hash
  toSnapshot := toSnapshot hashing
  fromSnapshot := fromSnapshot hashing
  same := Eq

theorem roundTrips {hashing : Hashing} {valid : CountMinSketch → Prop} {s : CountMinSketch}
    (wf : Wf s) (sized : Sized s) {windowStart windowEnd : Nat} (start : windowStart < modulus)
    (stop : windowEnd < modulus) :
    (codec hashing).RoundTrips hashing valid s windowStart windowEnd := by
  have envelope := read_sketch hashing (by decide : algorithmId.countMin < 2 ^ 16) s.hash start stop
    (by simp [params] : s.params.length < 2 ^ 32) sized.payload
  refine .of_eq (fun _ _ => Iff.rfl) ?_ ⟨_, _, envelope⟩
  have positive : ¬(s.width = 0 ∨ s.depth = 0) := by
    have width := wf.width
    have depth := wf.depth
    omega
  show fromSnapshot hashing (toSnapshot hashing s windowStart windowEnd) = .ok s
  unfold fromSnapshot toSnapshot
  simp only [envelope, readParams_params sized, readPayload_payload wf, bind, Except.bind, positive,
    ne_eq, not_true_eq_false, if_false]
  rfl

end CountMinSketch

namespace CountSketch

inductive Reachable (hashing : Hashing) : CountSketch → Prop
  | new {width depth : Nat} {hash : HashSpec} {s : CountSketch}
      (created : CountSketch.new width depth hash = .ok s) : Reachable hashing s
  | update {s : CountSketch} (before : Reachable hashing s) (key : Bytes) (value : Int) :
      Reachable hashing (s.updateSigned hashing key value)
  | merge {s other t : CountSketch} (before : Reachable hashing s)
      (argument : Reachable hashing other) (merged : s.mergeFrom hashing other = .ok t) :
      Reachable hashing t

/-- One `i64` for each cell. -/
structure Wf (s : CountSketch) : Prop where
  width : 0 < s.width
  depth : 0 < s.depth
  size : s.table.length = s.width * s.depth
  cells : ∀ count ∈ s.table, wrapI64 count = count
  updates : s.updates < modulus

theorem wrapI64_wrapI64 (x : Int) : wrapI64 (wrapI64 x) = wrapI64 x := Int.bmod_bmod

theorem Reachable.wf {hashing : Hashing} {s : CountSketch} (run : Reachable hashing s) : Wf s := by
  induction run with
  | new created =>
    unfold CountSketch.new at created
    split at created
    · cases created
    next positive =>
      cases created
      rw [not_or] at positive
      refine ⟨Nat.pos_of_ne_zero positive.1, Nat.pos_of_ne_zero positive.2, by simp, ?_,
        modulus_pos⟩
      intro count member
      rw [List.eq_of_mem_replicate member]
      rfl
  | update _ key value wf =>
    refine ⟨wf.width, wf.depth, (foldl_modify_length _ _ _ _).trans wf.size, ?_,
      wrappingAdd_lt _ _⟩
    refine forall_foldl_modify _ _ (fun row count _ => ?_) _ wf.cells
    exact wrapI64_wrapI64 _
  | merge _ _ merged wf _ =>
    obtain ⟨_, _, result⟩ := bind_ok merged
    cases result
    refine ⟨wf.width, wf.depth, (addCells_length ..).trans wf.size, ?_, wrappingAdd_lt _ _⟩
    refine forall_addCells (fun a b => ?_) wf.cells _
    exact wrapI64_wrapI64 _

/-- The dimensions and the payload fit the 32 bits they are written with. -/
structure Sized (s : CountSketch) : Prop where
  width : s.width < 2 ^ 32
  depth : s.depth < 2 ^ 32
  payload : s.payload.length < 2 ^ 32

theorem word_lt (x : Int) : word x < modulus := by
  have positive : (0 : Int) < modulus := by decide
  have upper := Int.emod_lt_of_pos x positive
  have lower := Int.emod_nonneg x positive.ne'
  unfold word
  omega

theorem wrapI64_word (x : Int) : wrapI64 (word x) = wrapI64 x := by
  have nonneg : 0 ≤ x % (modulus : Int) := Int.emod_nonneg x (by decide)
  rw [wrapI64, word, Int.toNat_of_nonneg nonneg, Int.emod_bmod, wrapI64]

theorem readParams_params {s : CountSketch} (sized : Sized s) :
    readParams s.params = .ok ((s.width, s.depth), []) := by
  have fields : s.params = leBytes 4 s.width ++ (leBytes 4 s.depth ++ []) := by
    rw [params, List.append_nil]
  rw [fields]
  refine (Read.bind_run (Reader.u32_leBytes sized.width _)).trans ?_
  exact Read.bind_run (Reader.u32_leBytes sized.depth _)

theorem readPayload_payload {s : CountSketch} (wf : Wf s) :
    readPayload s.hash s.width s.depth s.payload = .ok (s, []) := by
  have fields : s.payload = leBytes 8 s.updates ++ (Reader.writeU64s (s.table.map word) ++ []) := by
    rw [payload, List.append_nil]
  have size : (s.table.map word).length = s.width * s.depth := by rw [List.length_map, wf.size]
  have enough : s.width * s.depth * 8 ≤ (Reader.writeU64s (s.table.map word) ++ []).length := by
    rw [List.append_nil, Reader.writeU64s_length, size]
  have words : ∀ w ∈ s.table.map word, w < modulus := by
    intro w member
    obtain ⟨count, _, rfl⟩ := List.mem_map.mp member
    exact word_lt count
  have cells := Reader.u64s_writeU64s words []
  rw [size] at cells
  have back : (s.table.map word).map (fun (w : Nat) => wrapI64 w) = s.table := by
    rw [List.map_map]
    refine (List.map_congr_left fun count member => ?_).trans (List.map_id _)
    rw [Function.comp_apply, wrapI64_word, wf.cells count member]
    rfl
  rw [fields]
  refine (Read.bind_run (Reader.u64_leBytes wf.updates _)).trans ?_
  refine (Read.bind_run (Reader.checkCount_run (by decide) enough)).trans ?_
  refine (Read.bind_run cells).trans ?_
  rw [back]
  rfl

def codec (hashing : Hashing) : Codec CountSketch where
  algorithmId := algorithmId.countSketch
  hash := CountSketch.hash
  toSnapshot := toSnapshot hashing
  fromSnapshot := fromSnapshot hashing
  same := Eq

theorem roundTrips {hashing : Hashing} {valid : CountSketch → Prop} {s : CountSketch}
    (wf : Wf s) (sized : Sized s) {windowStart windowEnd : Nat} (start : windowStart < modulus)
    (stop : windowEnd < modulus) :
    (codec hashing).RoundTrips hashing valid s windowStart windowEnd := by
  have envelope := read_sketch hashing (by decide : algorithmId.countSketch < 2 ^ 16) s.hash start
    stop (by simp [params] : s.params.length < 2 ^ 32) sized.payload
  refine .of_eq (fun _ _ => Iff.rfl) ?_ ⟨_, _, envelope⟩
  have positive : ¬(s.width = 0 ∨ s.depth = 0) := by
    have width := wf.width
    have depth := wf.depth
    omega
  show fromSnapshot hashing (toSnapshot hashing s windowStart windowEnd) = .ok s
  unfold fromSnapshot toSnapshot
  simp only [envelope, readParams_params sized, readPayload_payload wf, bind, Except.bind, positive,
    ne_eq, not_true_eq_false, if_false]
  rfl

end CountSketch

end FlowSketch.Source
