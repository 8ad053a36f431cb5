import FlowSketch.Source.Core.Wire

/-!
# Requested capacities

A decoder with its requests: the arguments of `with_capacity` and `reserve`, in the order in which they are
made and up to the error that ends the decoding. Leaving the requests out gives back the plain reader;
`Backed` is the rule by which requests are bounded.
-/

namespace FlowSketch.Source.Core
open Lib.Octets Lib.Word64

/-- A reader that keeps the capacities it requests, also when it fails. -/
def Alloc (α : Type) : Type := Bytes → List Nat × Except SketchError (α × Bytes)

namespace Alloc

def andThen {α β : Type} (first : Alloc α) (next : α → Alloc β) : Alloc β := fun rest =>
  match first rest with
  | (asked, .error e) => (asked, .error e)
  | (asked, .ok (value, later)) => (asked ++ (next value later).1, (next value later).2)

instance monadAlloc : Monad Alloc where
  pure value := fun rest => ([], .ok (value, rest))
  bind := andThen

instance liftRead : MonadLift Read Alloc where
  monadLift read := fun rest => ([], read rest)

/-- One `with_capacity` or `reserve`. -/
def request (capacity : Nat) : Alloc Unit := fun rest => ([capacity], .ok ((), rest))

/-- A decoder run on bytes of their own. -/
def nested {α : Type} (run : List Nat × Except SketchError α) : Alloc α := fun rest =>
  (run.1, run.2.map (fun value => (value, rest)))

section

variable {α β : Type}

end

/-! ## Without the requests -/

/-- Apart from its requests this is the plain reader. -/
def Erases {α : Type} (traced : Alloc α) (plain : Read α) : Prop :=
  ∀ rest, (traced rest).2 = plain rest

section

variable {α β : Type}

theorem Erases.pure (value : α) : Erases (Pure.pure value) (Pure.pure value) := fun _ => rfl

theorem Erases.lift (plain : Read α) : Erases (liftM plain) plain := fun _ => rfl

theorem Erases.bind {traced : Alloc α} {plain : Read α} {next : α → Alloc β} {next' : α → Read β}
    (first : Erases traced plain) (then_ : ∀ value, Erases (next value) (next' value)) :
    Erases (traced >>= next) (plain >>= next') := by
  intro rest
  have same := first rest
  show (andThen traced next rest).2 = (plain rest >>= fun read => next' read.1 read.2)
  unfold andThen
  rw [← same]
  obtain ⟨asked, result⟩ := traced rest
  cases result with
  | error e => rfl
  | ok read => exact then_ read.1 read.2

theorem Erases.request {capacity : Nat} {next : Unit → Alloc β} {plain : Read β}
    (then_ : Erases (next ()) plain) : Erases (Alloc.request capacity >>= next) plain := then_

theorem Erases.guard {condition : Prop} [Decidable condition] {message : String}
    {next : Unit → Alloc β} {next' : Unit → Read β} (then_ : Erases (next ()) (next' ())) :
    Erases (if condition then (liftM (Reader.fail message : Read Unit) : Alloc Unit) >>= next
        else next ())
      (if condition then Reader.fail message >>= next' else next' ()) := by
  intro rest
  split
  · rfl
  · exact then_ rest

end

/-! ## Bounded requests -/

/-- Reading on from at most `bound` bytes requests at most `bound` each time, and leaves at most as many
bytes together with a value that satisfies `Q`. -/
def Backed {α : Type} (bound : Nat) (traced : Alloc α) (Q : α → Prop) : Prop :=
  ∀ rest, rest.length ≤ bound → (∀ capacity ∈ (traced rest).1, capacity ≤ bound) ∧
    ∀ value later, (traced rest).2 = .ok (value, later) → later.length ≤ bound ∧ Q value

section

variable {α β : Type} {bound : Nat} {Q : α → Prop} {R : β → Prop}

theorem Backed.pure {value : α} (holds : Q value) : Backed bound (Pure.pure value) Q := by
  intro rest short
  refine ⟨fun _ none_asked => absurd none_asked List.not_mem_nil, fun value' later result => ?_⟩
  cases result
  exact ⟨short, holds⟩

theorem Backed.imp {traced : Alloc α} {Q' : α → Prop} (backed : Backed bound traced Q)
    (weaker : ∀ value, Q value → Q' value) : Backed bound traced Q' := by
  intro rest short
  obtain ⟨asked, left⟩ := backed rest short
  refine ⟨asked, fun value later result => ?_⟩
  obtain ⟨shorter, holds⟩ := left value later result
  exact ⟨shorter, weaker value holds⟩

theorem Backed.bind {traced : Alloc α} {next : α → Alloc β} (first : Backed bound traced Q)
    (then_ : ∀ value, Q value → Backed bound (next value) R) : Backed bound (traced >>= next) R := by
  intro rest short
  have opening := first rest short
  show (∀ capacity ∈ (andThen traced next rest).1, capacity ≤ bound) ∧ ∀ value later,
    (andThen traced next rest).2 = .ok (value, later) → later.length ≤ bound ∧ R value
  unfold andThen
  generalize traced rest = run at opening
  obtain ⟨asked, result⟩ := run
  cases result with
  | error e => exact ⟨opening.1, fun _ _ failed => nomatch failed⟩
  | ok read =>
    obtain ⟨shorter, holds⟩ := opening.2 read.1 read.2 rfl
    have closing := then_ read.1 holds read.2 shorter
    refine ⟨fun capacity member => ?_, closing.2⟩
    rcases List.mem_append.mp member with before | after
    · exact opening.1 capacity before
    · exact closing.1 capacity after

theorem Backed.request {capacity : Nat} (small : capacity ≤ bound) :
    Backed bound (Alloc.request capacity) (fun _ => True) := by
  intro rest short
  refine ⟨fun asked member => ?_, fun value later result => ?_⟩
  · rw [List.mem_singleton.mp member]
    exact small
  · cases result
    exact ⟨short, trivial⟩

/-- A plain reader requests nothing. -/
theorem Backed.lift {plain : Read α} (reads : ∀ rest value later, plain rest = .ok (value, later) →
    later.length ≤ rest.length ∧ (rest.length ≤ bound → Q value)) :
    Backed bound (liftM plain) Q := by
  intro rest short
  refine ⟨fun _ none_asked => absurd none_asked List.not_mem_nil, fun value later result => ?_⟩
  obtain ⟨shorter, holds⟩ := reads rest value later result
  exact ⟨shorter.trans short, holds short⟩

theorem Backed.guard {condition : Prop} [Decidable condition] {message : String}
    {next : Unit → Alloc β} (then_ : ¬condition → Backed bound (next ()) R) :
    Backed bound (if condition then (liftM (Reader.fail message : Read Unit) : Alloc Unit) >>= next
      else next ()) R := by
  split
  · intro rest short
    exact ⟨fun _ none_asked => absurd none_asked List.not_mem_nil, fun _ _ failed => nomatch failed⟩
  next unmet => exact then_ unmet

theorem Backed.nested {run : List Nat × Except SketchError α}
    (small : ∀ capacity ∈ run.1, capacity ≤ bound) (holds : ∀ value, run.2 = .ok value → Q value) :
    Backed bound (Alloc.nested run) Q := by
  intro rest short
  refine ⟨small, fun value later result => ?_⟩
  obtain ⟨found, own, same⟩ := map_ok result
  cases same
  exact ⟨short, holds _ own⟩

end

end Alloc

/-! ## Readers only move forward -/

/-- What is left is no longer than what there was. -/
def Read.Shrinks {α : Type} (plain : Read α) : Prop :=
  ∀ rest value later, plain rest = .ok (value, later) → later.length ≤ rest.length

section

variable {α β : Type}

theorem Read.Shrinks.pure (value : α) : Read.Shrinks (Pure.pure value) := by
  intro rest value' later read
  cases read
  exact le_rfl

theorem Read.Shrinks.fail (message : String) : Read.Shrinks (Reader.fail message : Read α) :=
  fun _ _ _ read => nomatch read

theorem Read.Shrinks.bind {first : Read α} {next : α → Read β} (one : first.Shrinks)
    (two : ∀ value, (next value).Shrinks) : (first >>= next).Shrinks := by
  intro rest value later read
  obtain ⟨found, behind, early, read⟩ := Read.bind_ok read
  exact (two found behind value later read).trans (one rest found behind early)

theorem Read.Shrinks.guard {condition : Prop} [Decidable condition] {message : String}
    {next : Unit → Read β} (then_ : (next ()).Shrinks) :
    Read.Shrinks (if condition then Reader.fail message >>= next else next ()) := by
  intro rest value later read
  exact then_ rest value later (Reader.guard_ok read).2

theorem Reader.take_shrinks (n : Nat) : (Reader.take n).Shrinks := by
  intro rest octets later read
  obtain ⟨split, _⟩ := Reader.take_ok read
  rw [split, List.length_append]
  exact Nat.le_add_left _ _

theorem Reader.int_shrinks (width : Nat) : (Reader.int width).Shrinks :=
  .bind (Reader.take_shrinks width) fun _ => .pure _

theorem Reader.lpBytes_shrinks : Reader.lpBytes.Shrinks :=
  .bind (Reader.int_shrinks 4) Reader.take_shrinks

end

namespace Alloc

theorem Backed.read {α : Type} {bound : Nat} {plain : Read α} (shrinks : plain.Shrinks) :
    Backed bound (liftM plain) (fun _ => True) :=
  .lift fun rest value later read => ⟨shrinks rest value later read, fun _ => trivial⟩

/-- A count that passes the check is backed by the bytes left. -/
theorem Backed.checkCount {bound count minBytesEach : Nat} :
    Backed bound (liftM (Reader.checkCount count minBytesEach)) (fun _ => count ≤ bound) := by
  refine .lift fun rest value later read => ?_
  obtain ⟨left, _, looked, read⟩ := Read.bind_ok read
  cases looked
  split at read
  · cases read
  next enough =>
    cases read
    refine ⟨le_rfl, fun short => ?_⟩
    have fewer := Nat.div_le_self rest.length (max minBytesEach 1)
    omega

theorem Backed.lpBytes {bound : Nat} :
    Backed bound (liftM Reader.lpBytes) (fun octets => octets.length ≤ bound) := by
  refine .lift fun rest octets later read =>
    ⟨Reader.lpBytes_shrinks rest octets later read, fun short => ?_⟩
  have split := Reader.lpBytes_ok read
  rw [split, Reader.writeLpBytes, List.length_append, List.length_append] at short
  omega

end Alloc

end FlowSketch.Source.Core
