import WineRedRose.Handles.Operations

/-!
# Tables that come and go

The table of a new process is a copy of the inherited handles of its parent, and
the table of a process that ends releases all its objects.  A handle that is
listed for the new process must not be an inherited handle of the global table:
its index is taken from the value that the global handle has, far outside of the
new table.
-/

namespace WineRedRose.Handles

open Library.Slots Function HandleTable

variable {env : Environment} {st st' st'' before : State} {owner : Owner}
  {table table' table'' : HandleTable} {obj : ObjId} {slot : Slot}
  {entry : HandleEntry} {p parent : ProcessId} {handle : Handle}

/-! ## Copies -/

/-- While a new table is filled, the objects count its entries. -/
structure Inherits (st : State) (table : HandleTable) (st' : State)
    (table' : HandleTable) : Prop where
  tables : st'.table = st.table
  fault : st'.fault = st.fault
  moved : ∀ obj, st'.handleCount obj + table.pointing obj = st.handleCount obj + table'.pointing obj

theorem Inherits.refl (st : State) (table : HandleTable) :
    Inherits st table st table :=
  ⟨rfl, rfl, fun _ => rfl⟩

theorem Inherits.trans (first : Inherits st table st' table')
    (second : Inherits st' table' st'' table'') : Inherits st table st'' table'' := by
  refine ⟨second.tables.trans first.tables, second.fault.trans first.fault, fun obj => ?_⟩
  have one := first.moved obj
  have other := second.moved obj
  omega

/-- A table that is filled by index: nothing lies behind the last entry. -/
structure HandleTable.Cleared (table : HandleTable) : Prop extends table.InBounds where
  unused : table.free = 0
  empty : ∀ i, table.size ≤ i → i < table.count → table.entries i = none

theorem HandleTable.Cleared.setEntry (cleared : table.Cleared) {i : Nat} (inside : i < table.count)
    (entry : HandleEntry) :
    HandleTable.Cleared
      { table.setEntry i (some entry) with last := max table.last i } := by
  have low := cleared.low
  have high := cleared.high
  refine ⟨⟨?_, ?_, cleared.least, cleared.most, fun j less => ?_, ?_⟩,
    cleared.unused, fun j above less => ?_⟩
  · exact low.trans (le_max_left _ _)
  · show max table.last (i : Int) < table.count
    omega
  · have less : j < table.free := less
    rw [cleared.unused] at less
    exact absurd less (Nat.not_lt_zero j)
  · show table.free ≤ _
    rw [cleared.unused]
    exact Nat.zero_le _
  · have above : (max table.last (i : Int) + 1).toNat ≤ j := above
    have other : j ≠ i := by omega
    show update table.entries i (some entry) j = none
    rw [update_of_ne other]
    refine cleared.empty j ?_ less
    rw [size]
    omega

variable {parentTable : HandleTable}

end WineRedRose.Handles
