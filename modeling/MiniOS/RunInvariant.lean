import Mathlib

/-!
# Runs of a deterministic machine

A machine is a step function on states, indexed by the operation performed.
A run executes a list of operations in order.  This file packages the two
inductions that the rest of the development needs: an invariant kept by every
step holds after every run, and a relation kept by every step that does not
fail relates the final states of two machines that execute the same
operations.
-/

namespace MiniOS.Machine

section Runs

variable {State Op : Type*}

def run (step : State → Op → State) (start : State) (ops : List Op) : State :=
  ops.foldl step start

theorem run_concat (step : State → Op → State) (start : State) (ops : List Op) (op : Op) :
    run step start (ops ++ [op]) = step (run step start ops) op := by
  simp [run]

variable {start : State} {ops : List Op} {allowed : State → Op → Prop}

variable {step : State → Op → State}

/-- An invariant kept by every step holds at the end of every run. -/
theorem run_invariant (inv : State → Prop)
    (keeps : ∀ state op, inv state → inv (step state op)) (initial : inv start) (ops : List Op) :
    inv (run step start ops) := by
  induction ops generalizing start with
  | nil => exact initial
  | cons op ops ih => exact ih (keeps start op initial)

/-- The same rule when only some operations are admissible: every operation
of the run has to satisfy `allowed` in the state in which it is executed. -/
def Admissible (step : State → Op → State) (allowed : State → Op → Prop) : State → List Op → Prop
  | _, [] => True
  | state, op :: ops =>
    allowed state op ∧ Admissible step allowed (step state op) ops

instance Admissible.decidable (step : State → Op → State) (allowed : State → Op → Prop)
    [∀ state op, Decidable (allowed state op)] :
    ∀ state ops, Decidable (Admissible step allowed state ops)
  | _, [] => isTrue trivial
  | state, op :: ops =>
    haveI := Admissible.decidable step allowed (step state op) ops
    inferInstanceAs (Decidable (_ ∧ _))

theorem Admissible.and {first second : State → Op → Prop}
    (admitsFirst : Admissible step first start ops)
    (admitsSecond : Admissible step second start ops) :
    Admissible step (fun state op => first state op ∧ second state op) start ops := by
  induction ops generalizing start with
  | nil => trivial
  | cons op ops ih =>
    exact ⟨⟨admitsFirst.1, admitsSecond.1⟩, ih admitsFirst.2 admitsSecond.2⟩

theorem run_invariant_of_admissible (inv : State → Prop)
    (keeps : ∀ state op, inv state → allowed state op → inv (step state op)) (initial : inv start)
    (admissible : Admissible step allowed start ops) :
    inv (run step start ops) := by
  induction ops generalizing start with
  | nil => exact initial
  | cons op ops ih =>
    exact ih (keeps start op initial admissible.1) admissible.2

end Runs

section PartialRuns

variable {State Op : Type*}

/-- Execute a list of operations in order; `none` when one of them does not
return. -/
def runPartial (step : State → Op → Option State) : State → List Op → Option State
  | state, [] => some state
  | state, op :: ops => (step state op).bind fun next => runPartial step next ops

/-- Every operation of a run that may not return satisfies `allowed` in the state
in which it is executed. -/
def AdmissiblePartial (step : State → Op → Option State) (allowed : State → Op → Prop) :
    State → List Op → Prop
  | _, [] => True
  | state, op :: ops =>
    allowed state op ∧ ∀ next, step state op = some next → AdmissiblePartial step allowed next ops

/-- A property of every state of a run, its first and its last included. -/
def Throughout (step : State → Op → Option State) (holds : State → Prop) : State → List Op → Prop
  | state, [] => holds state
  | state, op :: ops =>
    holds state ∧ ∀ next, step state op = some next → Throughout step holds next ops

variable {step : State → Op → Option State} {more : List Op}

/-- If every admissible operation returns and keeps an invariant, so does every
admissible run. -/
theorem runPartial_invariant (inv : State → Prop)
    (keeps : ∀ state op, inv state → allowed state op → ∃ next, step state op = some next ∧ inv next) (initial : inv start)
    (admissible : AdmissiblePartial step allowed start ops) :
    ∃ final, runPartial step start ops = some final ∧ inv final := by
  induction ops generalizing start with
  | nil => exact ⟨start, rfl, initial⟩
  | cons op ops ih =>
    obtain ⟨next, returned, holds⟩ := keeps start op initial admissible.1
    obtain ⟨final, finished, atEnd⟩ := ih holds (admissible.2 next returned)
    refine ⟨final, ?_, atEnd⟩
    rw [runPartial, returned]
    exact finished

theorem runPartial_append : runPartial step start (ops ++ more) =
      (runPartial step start ops).bind fun middle => runPartial step middle more := by
  induction ops generalizing start with
  | nil => rfl
  | cons op ops ih =>
    rw [List.cons_append, runPartial, runPartial, Option.bind_assoc]
    exact congrArg _ (funext fun _ => ih)

theorem AdmissiblePartial.left (admissible : AdmissiblePartial step allowed start (ops ++ more)) :
    AdmissiblePartial step allowed start ops := by
  induction ops generalizing start with
  | nil => trivial
  | cons op ops ih =>
    exact ⟨admissible.1, fun next returned => ih (admissible.2 next returned)⟩

theorem AdmissiblePartial.right {middle : State}
    (admissible : AdmissiblePartial step allowed start (ops ++ more))
    (reached : runPartial step start ops = some middle) :
    AdmissiblePartial step allowed middle more := by
  induction ops generalizing start with
  | nil =>
    rw [runPartial, Option.some.injEq] at reached
    exact reached ▸ admissible
  | cons op ops ih =>
    rw [runPartial, Option.bind_eq_some_iff] at reached
    obtain ⟨next, returned, rest⟩ := reached
    exact ih (admissible.2 next returned) rest

instance AdmissiblePartial.decidable (step : State → Op → Option State)
    (allowed : State → Op → Prop) [∀ state op, Decidable (allowed state op)] :
    ∀ state ops, Decidable (AdmissiblePartial step allowed state ops)
  | _, [] => isTrue trivial
  | state, op :: ops =>
    haveI : Decidable (∀ next, step state op = some next →
        AdmissiblePartial step allowed next ops) :=
      match returned : step state op with
      | none => isTrue fun _ impossible => by cases impossible
      | some next =>
        haveI := AdmissiblePartial.decidable step allowed next ops
        decidable_of_iff (AdmissiblePartial step allowed next ops)
          ⟨fun rest _ same => Option.some.inj same ▸ rest, fun all => all next rfl⟩
    inferInstanceAs (Decidable (_ ∧ _))

instance Throughout.decidable (step : State → Op → Option State) (holds : State → Prop)
    [∀ state, Decidable (holds state)] : ∀ state ops, Decidable (Throughout step holds state ops)
  | state, [] => inferInstanceAs (Decidable (holds state))
  | state, op :: ops =>
    haveI : Decidable (∀ next, step state op = some next → Throughout step holds next ops) :=
      match returned : step state op with
      | none => isTrue fun _ impossible => by cases impossible
      | some next =>
        haveI := Throughout.decidable step holds next ops
        decidable_of_iff (Throughout step holds next ops)
          ⟨fun rest _ same => Option.some.inj same ▸ rest, fun all => all next rfl⟩
    inferInstanceAs (Decidable (_ ∧ _))

end PartialRuns

section Simulation

variable {Concrete Abstract Op : Type*}

/-- Forward simulation along a run, under an invariant of the concrete machine.
`failed` marks concrete states in which some resource ran out; it is sticky, so
a run whose final state has not failed never failed on the way. -/
theorem run_simulation {concreteStep : Concrete → Op → Concrete}
    {abstractStep : Abstract → Op → Abstract} (inv failed : Concrete → Prop)
    (related : Concrete → Abstract → Prop)
    (keeps : ∀ state op, inv state → inv (concreteStep state op))
    (sticky : ∀ state op, inv state → failed state → failed (concreteStep state op))
    (simulates : ∀ state spec op, inv state → related state spec →
      ¬ failed (concreteStep state op) → related (concreteStep state op) (abstractStep spec op))
    {state : Concrete} {spec : Abstract} (holds : inv state) (initial : related state spec)
    (succeeded : ¬ failed (run concreteStep state ops)) :
    related (run concreteStep state ops) (run abstractStep spec ops) := by
  have failedRun : ∀ (ops : List Op) (state : Concrete), inv state → failed state →
      failed (run concreteStep state ops) := by
    intro ops
    induction ops with
    | nil => exact fun _ _ stuck => stuck
    | cons op ops ih =>
      exact fun state holds stuck => ih _ (keeps state op holds) (sticky state op holds stuck)
  induction ops generalizing state spec with
  | nil => exact initial
  | cons op ops ih =>
    have next := keeps state op holds
    have stepSucceeded : ¬ failed (concreteStep state op) :=
      fun stuck => succeeded (failedRun ops _ next stuck)
    exact ih next (simulates state spec op holds initial stepSucceeded) succeeded

end Simulation

end MiniOS.Machine
