import Mathlib.Tactic

/-!
# Runs of a deterministic transition system

A system is a step function on states; what an action cannot do in a state is
a step that changes nothing.  Two predicates speak about a whole run: one
holds at every step, seen from the state before it, and one holds in every
state on the way.  The rules below reduce both to single steps.
-/

namespace WineRedRose.Library.Runs

variable {State Action : Type*} (step : State → Action → State)

/-- The state after a list of actions. -/
def run (state : State) (actions : List Action) : State := actions.foldl step state

/-- Every step of the run satisfies the predicate. -/
def Along (holds : State → Action → Prop) : State → List Action → Prop
  | _, [] => True
  | state, action :: actions => holds state action ∧ Along holds (step state action) actions

/-- Every state of the run, the first one included, satisfies the predicate. -/
def Visits (holds : State → Prop) : State → List Action → Prop
  | state, [] => holds state
  | state, action :: actions => holds state ∧ Visits holds (step state action) actions

instance decidableAlong
    (holds : State → Action → Prop)
    [∀ state action, Decidable (holds state action)] :
    ∀ (state : State) (actions : List Action), Decidable (Along step holds state actions)
  | _, [] => isTrue trivial
  | state, action :: actions =>
    have := decidableAlong holds (step state action) actions
    inferInstanceAs (Decidable (_ ∧ _))

instance decidableVisits
    (holds : State → Prop) [DecidablePred holds] :
    ∀ (state : State) (actions : List Action), Decidable (Visits step holds state actions)
  | state, [] => inferInstanceAs (Decidable (holds state))
  | state, action :: actions =>
    have := decidableVisits holds (step state action) actions
    inferInstanceAs (Decidable (_ ∧ _))

variable {step}

variable {inv holds : State → Prop} {condition : State → Action → Prop} {state : State}
variable {actions : List Action}

/-- A run that meets a condition at every step keeps an invariant. -/
theorem Along.visits
    (keeps : ∀ state action, inv state → condition state action → inv (step state action))
    (along : Along step condition state actions) (start : inv state) :
    Visits step inv state actions := by
  induction actions generalizing state with
  | nil => exact start
  | cons action actions ih =>
    rcases along with ⟨here, later⟩
    exact ⟨start, ih later (keeps state action start here)⟩

theorem along_true (state : State) (actions : List Action) :
    Along step (fun _ _ => True) state actions := by
  induction actions generalizing state with
  | nil => trivial
  | cons action actions ih => exact ⟨trivial, ih _⟩

/-- An invariant of every step holds throughout every run. -/
theorem visits_of_step (keeps : ∀ state action, inv state → inv (step state action))
    (start : inv state) : Visits step inv state actions :=
  (along_true state actions).visits (fun state action kept _ => keeps state action kept) start

theorem Visits.mono {holds' : State → Prop} (imp : ∀ state, holds state → holds' state)
    (visits : Visits step holds state actions) :
    Visits step holds' state actions := by
  induction actions generalizing state with
  | nil => exact imp state visits
  | cons action actions ih => exact ⟨imp state visits.1, ih visits.2⟩

theorem Visits.first (visits : Visits step holds state actions) : holds state := by
  cases actions with
  | nil => exact visits
  | cons action actions => exact visits.1

theorem Visits.last (visits : Visits step holds state actions) :
    holds (run step state actions) := by
  induction actions generalizing state with
  | nil => exact visits
  | cons action actions ih => exact ih visits.2

/--
Two conditions on steps that agree wherever an invariant holds, and of which
the first keeps the invariant, agree on whole runs.
-/
theorem along_congr {condition' : State → Action → Prop}
    (same : ∀ state action, inv state → (condition state action ↔ condition' state action))
    (keeps : ∀ state action, inv state → condition state action → inv (step state action))
    (start : inv state) :
    Along step condition state actions ↔ Along step condition' state actions := by
  induction actions generalizing state with
  | nil => exact Iff.rfl
  | cons action actions ih =>
    simp only [Along]
    rw [same state action start]
    refine and_congr_right fun holds' => ?_
    have holds := (same state action start).mpr holds'
    exact ih (keeps state action start holds)

/--
A property of states holds throughout a run that meets an assumption exactly
if a condition holds at each of its steps, when the condition keeps an
invariant that implies the property and a step that violates the condition
destroys the property.
-/
theorem Along.visits_iff {assumed : State → Action → Prop}
    (implies : ∀ state, inv state → holds state)
    (keeps : ∀ state action, inv state → assumed state action →
      condition state action → inv (step state action))
    (breaks : ∀ state action, inv state → assumed state action →
      holds (step state action) → condition state action)
    (along : Along step assumed state actions) (start : inv state) :
    Visits step holds state actions ↔ Along step condition state actions := by
  induction actions generalizing state with
  | nil => exact ⟨fun _ => trivial, fun _ => implies state start⟩
  | cons action actions ih =>
    rcases along with ⟨here, later⟩
    constructor
    · intro visits
      have meets := breaks state action start here visits.2.first
      have kept := keeps state action start here meets
      exact ⟨meets, (ih later kept).mp visits.2⟩
    · intro meets
      have kept := keeps state action start here meets.1
      exact ⟨implies state start, (ih later kept).mpr meets.2⟩

theorem Along.and {condition' : State → Action → Prop} (first : Along step condition state actions)
    (second : Along step condition' state actions) :
    Along step (fun state action => condition state action ∧
      condition' state action) state actions := by
  induction actions generalizing state with
  | nil => trivial
  | cons action actions ih => exact ⟨⟨first.1, second.1⟩, ih first.2 second.2⟩

theorem along_append {first second : List Action} : Along step condition state (first ++ second) ↔
      Along step condition state first ∧ Along step condition (run step state first) second := by
  induction first generalizing state with
  | nil => exact (and_iff_right trivial).symm
  | cons action first ih =>
    rw [List.cons_append, Along, ih, Along, and_assoc]
    rfl

/-- The same without an assumption on the run. -/
theorem visits_iff_along (implies : ∀ state, inv state → holds state)
    (keeps : ∀ state action, inv state → condition state action → inv (step state action))
    (breaks : ∀ state action, inv state → holds (step state action) → condition state action)
    (start : inv state) (actions : List Action) :
    Visits step holds state actions ↔ Along step condition state actions :=
  (along_true state actions).visits_iff implies (fun state action kept _ => keeps state action kept)
    (fun state action kept _ => breaks state action kept) start

/-! ## Two systems side by side -/

section Lockstep

variable {First Second Action Output : Type*}

end Lockstep

end WineRedRose.Library.Runs
