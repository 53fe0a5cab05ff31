import WineRedRose.Handles.Inheriting
import WineRedRose.Library.Runs

/-!
# Runs over handle tables

From the start without tables, every sequence of operations keeps the tables in
order and the counts right, as long as no table is asked for with more entries
than tables may have and no inherited global handle is listed for a new process.
-/

namespace WineRedRose.Handles

open Library.Slots Library.Runs Finset

variable {env : Environment} {st : State} {owner : Owner} {table : HandleTable}
  {i j : Nat}

/-! ## Handles of entries -/

/-- The slots that an operation is about: that of its handle, or all of a
process. -/
def Operation.touched : Operation → Set Slot
  | .closeHandle p handle => handleSlots p handle
  | .setHandleFlags p handle _ _ => handleSlots p handle
  | .duplicateHandle src srcHandle _ _ _ _ => handleSlots src srcHandle
  | .dupHandle src _ srcHandle _ _ _ => {slot | ∃ p, src = some p ∧ slot ∈ handleSlots p srcHandle}
  | .closeProcessHandles p => {slot | slot.1 = .process p}
  | _ => ∅

/-- A handle keeps its entry through what is done with others. -/
theorem Change.getHandle {touched : Set Slot} {st' : State} (change : Change touched st st')
    (sound : st.Sound) {p : ProcessId} {handle : Handle} {slot : Slot} {entry : HandleEntry}
    (found : getHandle st p handle = some (slot, entry)) (apart : slot ∉ touched) :
    getHandle st' p handle = some (slot, entry) := by
  rcases getHandle_eq_some_iff.mp found with ⟨positive, same, there⟩
  exact getHandle_eq_some_iff.mpr ⟨positive, same, change.kept sound slot entry apart there⟩

end WineRedRose.Handles
