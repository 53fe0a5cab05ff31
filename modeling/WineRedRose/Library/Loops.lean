import Mathlib.Tactic

/-!
# Loops that need not end

A loop that need not end is a function of the number of turns it may take.  More
turns do not change a result, so that a result belongs to the loop and not to
the number of turns.  A loop that goes along a relation on finitely many nodes
ends if the relation has no cycle.
-/

namespace WineRedRose.Library.Loops

/-! ## Results -/

variable {α β : Type*} {run : Nat → α → Option β}

/-- One more turn does not change a result. -/
def Monotone (run : Nat → α → Option β) : Prop := ∀ turns start result,
    run turns start = some result → run (turns + 1) start = some result

theorem Monotone.of_le (monotone : Monotone run) {turns more : Nat} (le : turns ≤ more) {start : α}
    {result : β} (done : run turns start = some result) :
    run more start = some result := by
  induction more, le using Nat.le_induction with
  | base => exact done
  | succ more _ ih => exact monotone more start result ih

/-! ## Relations without cycles -/

/-- No node comes back to itself. -/
def Acyclic (step : α → α → Prop) : Prop := ∀ node, ¬ Relation.TransGen step node node

theorem Acyclic.mono {step fewer : α → α → Prop} (acyclic : Acyclic step)
    (le : ∀ a b, fewer a b → step a b) : Acyclic fewer :=
  fun node cycle => acyclic node (Relation.TransGen.mono le _ _ cycle)

end WineRedRose.Library.Loops
