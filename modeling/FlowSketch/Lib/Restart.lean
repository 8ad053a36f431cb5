import Mathlib

/-!
# Machines that can be reset

A machine takes operations one by one; an operation ends in a state or in a panic (`none`). Between
two operations a state may take another layout, as the iteration order of a hash map may. Two states
are alike if no sequence of operations, under any layouts, tells them apart by what they show.
-/

namespace FlowSketch.Lib.Restart

universe u

/-- Related partial results stay related under steps that keep the relation. -/
theorem rel_bind {α β γ δ : Type u} {R : α → β → Prop} {T : γ → δ → Prop} {a : Option α}
    {b : Option β} (related : Option.Rel R a b) {f : α → Option γ} {g : β → Option δ}
    (next : ∀ x y, R x y → Option.Rel T (f x) (g y)) : Option.Rel T (a.bind f) (b.bind g) := by
  cases related with
  | none => exact .none
  | some both => exact next _ _ both

theorem rel_map {α β γ δ : Type u} {R : α → β → Prop} {T : γ → δ → Prop} {a : Option α}
    {b : Option β} (related : Option.Rel R a b) {f : α → γ} {g : β → δ}
    (next : ∀ x y, R x y → T (f x) (g y)) : Option.Rel T (a.map f) (b.map g) := by
  cases related with
  | none => exact .none
  | some both => exact .some (next _ _ both)

structure Machine (S Op V : Type u) where
  /-- Another layout of the same state. -/
  layout : S → S → Prop
  apply : S → Op → Option S
  reset : S → S
  view : S → V
  /-- A state may keep its layout. -/
  kept : ∀ s, layout s s

namespace Machine

variable {S Op V : Type u} (m : Machine S Op V)

inductive Run : S → List Op → Option S → Prop
  | done {s t : S} (laid : m.layout s t) : Run s [] (some t)
  | step {s t u : S} {op : Op} {ops : List Op} {out : Option S} (laid : m.layout s t)
      (applied : m.apply t op = some u) (rest : Run u ops out) : Run s (op :: ops) out
  | panic {s t : S} {op : Op} {ops : List Op} (laid : m.layout s t)
      (panicked : m.apply t op = none) : Run s (op :: ops) none

def Reached (first s : S) : Prop := ∃ ops, m.Run first ops (some s)

/-- Whatever is done next, both panic or both end showing the same. -/
def Alike (s t : S) : Prop :=
  ∀ ops out out', m.Run s ops out → m.Run t ops out' → out.map m.view = out'.map m.view

/-- A reset of `s` is as good as the state a machine starts from. -/
def Restarts (first s : S) : Prop := m.Alike (m.reset s) first

variable {m}

/-- What the first state has, every layout keeps and every operation keeps, a reached state has. -/
theorem reached_induction {first s : S} (reached : m.Reached first s) {P : S → Prop}
    (start : P first) (laid : ∀ s t, m.layout s t → P s → P t)
    (applied : ∀ s op t, m.apply s op = some t → P s → P t) : P s := by
  obtain ⟨ops, run⟩ := reached
  generalize ended : some s = out at run
  induction run with
  | done another =>
    cases ended
    exact laid _ _ another start
  | step another done _ ih => exact ih (applied _ _ _ done (laid _ _ another start)) ended
  | panic => cases ended

theorem Alike.view_eq {s t : S} (alike : m.Alike s t) : m.view s = m.view t :=
  Option.some.inj (alike [] (some s) (some t) (.done (m.kept s)) (.done (m.kept t)))

/-- The bisimulation rule. -/
theorem alike_of_simulation {R : S → S → Prop}
    (laid : ∀ s s' t t', m.layout s s' → m.layout t t' → R s t → R s' t')
    (applied : ∀ s t op, R s t → Option.Rel R (m.apply s op) (m.apply t op))
    (seen : ∀ s t, R s t → m.view s = m.view t) {s t : S} (related : R s t) : m.Alike s t := by
  intro ops out out' runLeft
  induction runLeft generalizing t out' with
  | done left =>
    intro runRight
    cases runRight with
    | done right => exact congrArg some (seen _ _ (laid _ _ _ _ left right related))
  | @step s₀ s₁ s₂ op ops out left done _ ih =>
    intro runRight
    cases runRight with
    | step right done' rest =>
      have matched := applied _ _ op (laid _ _ _ _ left right related)
      rw [done, done'] at matched
      cases matched with
      | some related' => exact ih related' _ rest
    | panic right panicked =>
      have matched := applied _ _ op (laid _ _ _ _ left right related)
      rw [done, panicked] at matched
      cases matched
  | @panic s₀ s₁ op ops left panicked =>
    intro runRight
    cases runRight with
    | step right done' rest =>
      have matched := applied _ _ op (laid _ _ _ _ left right related)
      rw [panicked, done'] at matched
      cases matched
    | panic => rfl

/-- A machine of one layout: equal states are alike. -/
theorem alike_self (rigid : ∀ s t, m.layout s t → s = t) (s : S) : m.Alike s s := by
  refine @alike_of_simulation _ _ _ m Eq ?_ ?_ ?_ s s rfl
  · rintro s s' _ t' left right rfl
    exact (rigid _ _ left).symm.trans (rigid _ _ right)
  · rintro s _ op rfl
    cases m.apply s op with
    | none => exact .none
    | some t => exact .some rfl
  · rintro s _ rfl
    rfl

/-- It is enough that a reset leads back to the first state itself. -/
theorem restarts_of_eq (rigid : ∀ s t, m.layout s t → s = t) {first s : S}
    (back : m.reset s = first) : m.Restarts first s := by
  rw [Restarts, back]
  exact alike_self rigid first

/-- A reset that forgets every step, with nothing to forget in the first state, leads back to it. -/
theorem reset_eq_of_forgets {first s : S} (start : m.reset first = first)
    (laid : ∀ s t, m.layout s t → m.reset t = m.reset s)
    (forgets : ∀ s op t, m.apply s op = some t → m.reset t = m.reset s)
    (reached : m.Reached first s) : m.reset s = first :=
  reached_induction (P := fun s => m.reset s = first) reached start
    (fun s t another back => (laid s t another).trans back)
    fun s op t applied back => (forgets s op t applied).trans back

end Machine

end FlowSketch.Lib.Restart
