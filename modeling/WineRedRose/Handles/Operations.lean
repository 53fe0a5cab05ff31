import WineRedRose.Handles.Accounts

/-!
# What the operations change

Every operation on a handle keeps the tables in order and the counts right, and
it leaves all entries but that of the handle as they are.
-/

namespace WineRedRose.Handles

open Library.Slots Function State

variable {env : Environment} {st st' : State} {owner : Owner}
  {table table' : HandleTable} {obj : ObjId} {slot : Slot} {entry : HandleEntry}
  {p : ProcessId} {handle : Handle} {access : Access} {inherit : Bool}

/-! ## Allocation -/

variable {touched : Set Slot}

/-- The entry of a handle. -/
theorem getHandle_eq_some_iff : getHandle st p handle = some (slot, entry) ↔
      0 ≤ handleToIndex (ownerOf p handle).2 ∧
      slot = ((ownerOf p handle).1, (handleToIndex (ownerOf p handle).2).toNat) ∧
      st.entryAt slot = some entry := by
  unfold getHandle
  generalize ownerOf p handle = pair
  dsimp only
  rw [entryAt_eq_some_iff]
  constructor
  · intro found
    split at found
    · cases found
    · next table here =>
        split at found
        · cases found
        · next positive =>
            split at found
            · cases found
            · next within =>
                rcases Option.map_eq_some_iff.mp found with ⟨_, there, eq⟩
                cases eq
                refine ⟨Int.not_lt.mp positive, rfl, table, here, ?_, there⟩
                rw [HandleTable.lt_size_iff]
                omega
  · rintro ⟨positive, rfl, table, here, inside, there⟩
    rw [HandleTable.lt_size_iff] at inside
    rw [here]
    dsimp only
    rw [if_neg (by omega), if_neg (by omega), there]
    rfl

/-- The slot of a handle. -/
def handleSlots (p : ProcessId) (handle : Handle) : Set Slot :=
  {slot | 0 ≤ handleToIndex (ownerOf p handle).2 ∧
    slot = ((ownerOf p handle).1, (handleToIndex (ownerOf p handle).2).toNat)}

variable {dst : Option ProcessId} {options : DuplicateOptions}

end WineRedRose.Handles
