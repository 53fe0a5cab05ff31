import WineRedRose.Handles.Model

/-!
# Tables in order

What holds of every table: the cursors lie inside the memory, nothing is free
below `free`, and `last` is in use.  So `alloc_entry` finds the lowest free entry,
and closing an entry and shrinking keep the order.
-/

namespace WineRedRose.Handles

open Library.Slots Function HandleTable

variable {env : Environment} {table table' : HandleTable} {i j : Nat}

theorem HandleTable.lt_size_iff (table : HandleTable) :
    i < table.size ↔ (i : Int) ≤ table.last := by
  rw [size]
  omega

/-- The cursors of a table lie inside its memory, and nothing below `free` is
free. -/
structure HandleTable.InBounds (table : HandleTable) : Prop where
  low : -1 ≤ table.last
  high : table.last < table.count
  least : minHandleEntries ≤ table.count
  most : table.count ≤ maxHandleEntries
  filled : ∀ i, i < table.free → (table.entries i).isSome = true
  free_le : table.free ≤ table.size

/-- The cursors of a table are in order: the last entry is in use as well. -/
structure HandleTable.Valid (table : HandleTable) : Prop extends table.InBounds where
  used : ∀ i : Nat, (i : Int) = table.last → (table.entries i).isSome = true

/-- The entry is in use. -/
def HandleTable.InUse (table : HandleTable) (i : Nat) : Prop :=
  i < table.size ∧ (table.entries i).isSome = true

theorem HandleTable.InBounds.size_le (bounds : table.InBounds) : table.size ≤ table.count := by
  have high := bounds.high
  rw [size]
  omega

variable {count : Nat} {entry : HandleEntry}

/-- What `alloc_entry` finds in a table: the lowest free entry, with memory for
it. -/
structure Finds (table table' : HandleTable) (i : Nat) : Prop where
  below : ∀ j, j < i → table.InUse j
  free : ¬ table.InUse i
  last : table'.last = max table.last i
  kept : ∀ j, j < table.size → table'.entries j = table.entries j
  inside : i < table'.count
  more : table.count ≤ table'.count
  most : table'.count ≤ maxHandleEntries

/-- The table with the new entry. -/
def HandleTable.fill (table : HandleTable) (i : Nat) (entry : HandleEntry) :
    HandleTable :=
  { table.setEntry i (some entry) with free := i + 1 }

theorem Finds.size_eq (finds : Finds table table' i) : table'.size = max table.size (i + 1) := by
  rw [size, size, finds.last]
  omega

theorem Finds.valid (finds : Finds table table' i) (valid : table.Valid) (entry : HandleEntry) :
    (table'.fill i entry).Valid := by
  have high := valid.high
  have inside := finds.inside
  have more := finds.more
  have others : ∀ j, j ≠ i → (table'.fill i entry).entries j = table'.entries j :=
    fun j other => update_of_ne other _ _
  have here : (table'.fill i entry).entries i = some entry := update_self _ _ _
  have last : (table'.fill i entry).last = max table.last i := finds.last
  refine ⟨⟨?_, ?_, valid.least.trans finds.more, finds.most, fun j less => ?_, ?_⟩,
    fun j same => ?_⟩
  · rw [last]
    omega
  · show (table'.fill i entry).last < table'.count
    rw [last]
    omega
  · rcases Nat.lt_succ_iff_lt_or_eq.mp less with below | rfl
    · rw [others j below.ne, finds.kept j (finds.below j below).1]
      exact (finds.below j below).2
    · rw [here]
      rfl
  · show i + 1 ≤ table'.size
    rw [finds.size_eq]
    exact le_max_right _ _
  · by_cases filled : j = i
    · rw [filled, here]
      rfl
    · have end_ : (j : Int) = table.last := by omega
      rw [others j filled, finds.kept j (table.lt_size_iff.mpr end_.le)]
      exact valid.used j end_

/-! ## Closing and shrinking -/

theorem shrinkHandleTable_eq (env : Environment) (table : HandleTable) :
    ∃ count, shrinkHandleTable env table =
        ⟨count, lastUsed table.entries table.size, table.free, table.entries⟩ ∧
      (count = table.count ∨ count = table.count / 2 ∧
        lastUsed table.entries table.size < ((table.count / 4 : Nat) : Int) ∧
        minHandleEntries * 2 ≤ table.count) := by
  unfold shrinkHandleTable
  dsimp only
  split
  · exact ⟨table.count, rfl, .inl rfl⟩
  · next few =>
      split
      · exact ⟨table.count, rfl, .inl rfl⟩
      · next big =>
          split
          · exact ⟨table.count / 2, rfl, .inr ⟨rfl, Int.lt_of_not_ge few, Nat.le_of_not_lt big⟩⟩
          · exact ⟨table.count, rfl, .inl rfl⟩

theorem HandleTable.InBounds.shrink (bounds : table.InBounds) (env : Environment) :
    (shrinkHandleTable env table).Valid := by
  have spec := lastUsed_spec table.entries table.size
  have size_le := bounds.size_le
  have most := bounds.most
  have least := bounds.least
  rcases shrinkHandleTable_eq env table with ⟨count, eq, either⟩
  rw [eq]
  have high := spec.high
  refine ⟨⟨spec.low, ?_, ?_, ?_, bounds.filled, ?_⟩, spec.used⟩
  · dsimp only
    omega
  · dsimp only
    omega
  · dsimp only
    omega
  · by_contra behind
    have behind : ¬ table.free ≤ (lastUsed table.entries table.size + 1).toNat := behind
    -- the entry behind the last one would be empty and below `free`
    have empty := spec.empty (table.free - 1) (by omega) (by
      have := bounds.free_le
      omega)
    have filled := bounds.filled (table.free - 1) (by omega)
    rw [empty] at filled
    cases filled

/-- The table without an entry, before it may be shrunk. -/
theorem closeEntry_eq : ∃ free, free ≤ i ∧ free ≤ table.free ∧ table.closeEntry env i =
      if (i : Int) = table.last then
        shrinkHandleTable env { table.setEntry i none with free := free }
      else { table.setEntry i none with free := free } := by
  unfold closeEntry
  dsimp only
  split
  · next below => exact ⟨i, le_rfl, le_of_lt below, rfl⟩
  · next above => exact ⟨table.free, Nat.le_of_not_lt above, le_rfl, rfl⟩

theorem HandleTable.InBounds.clear (bounds : table.InBounds) {free : Nat} (le_i : free ≤ i)
    (le_free : free ≤ table.free) :
    HandleTable.InBounds { table.setEntry i none with free := free } := by
  refine ⟨bounds.low, bounds.high, bounds.least, bounds.most, fun j less => ?_,
    le_free.trans bounds.free_le⟩
  have other : j ≠ i := (less.trans_le le_i).ne
  show (update table.entries i none j).isSome = true
  rw [update_of_ne other]
  exact bounds.filled j (less.trans_le le_free)

theorem HandleTable.Valid.closeEntry (valid : table.Valid) (env : Environment) (i : Nat) :
    (table.closeEntry env i).Valid := by
  rcases closeEntry_eq with ⟨free, le_i, le_free, eq⟩
  have bounds := valid.clear le_i le_free
  rw [eq]
  split
  · exact bounds.shrink env
  · next notLast =>
      refine ⟨bounds, fun j same => ?_⟩
      have other : j ≠ i := fun eq => notLast (eq ▸ same)
      show (update table.entries i none j).isSome = true
      rw [update_of_ne other]
      exact valid.used j same

theorem HandleTable.Valid.setEntry (valid : table.Valid) (i : Nat) (entry : HandleEntry) :
    (table.setEntry i (some entry)).Valid := by
  have filled : ∀ j, (table.entries j).isSome = true →
      ((table.setEntry i (some entry)).entries j).isSome = true := by
    intro j isSome
    by_cases here : j = i
    · rw [here]
      exact congrArg Option.isSome (update_self i (some entry) table.entries)
    · exact (congrArg Option.isSome (update_of_ne here _ _)).trans isSome
  exact ⟨⟨valid.low, valid.high, valid.least, valid.most,
    fun j less => filled j (valid.filled j less), valid.free_le⟩,
    fun j same => filled j (valid.used j same)⟩

/-! ## Counting -/

/-- The number of entries of a table that point to an object. -/
def HandleTable.pointing (table : HandleTable) (obj : ObjId) : Nat :=
  holding (fun entry => entry.object = obj) table.entries (min table.size table.count)

variable {obj : ObjId}

theorem HandleTable.InBounds.pointing_eq (bounds : table.InBounds) (obj : ObjId) :
    table.pointing obj = holding (fun entry => entry.object = obj) table.entries table.size := by
  rw [pointing, min_eq_left bounds.size_le]

theorem Finds.pointing (finds : Finds table table' i) (valid : table.Valid) (entry : HandleEntry)
    (obj : ObjId) :
    (table'.fill i entry).pointing obj =
      table.pointing obj + if entry.object = obj then 1 else 0 := by
  rw [(finds.valid valid entry).pointing_eq, valid.pointing_eq]
  have kept : holding (fun entry => entry.object = obj) table'.entries table.size =
      holding (fun entry => entry.object = obj) table.entries table.size :=
    holding_congr fun j e => and_congr_right fun less => by rw [finds.kept j less]
  have le : i ≤ table.size := by
    cases i with
    | zero => exact Nat.zero_le _
    | succ j => exact (finds.below j (Nat.lt_succ_self j)).1
  have size : (table'.fill i entry).size = max table.size (i + 1) := finds.size_eq
  rw [size, ← kept]
  rcases le.lt_or_eq with inside | rfl
  · have empty : table'.entries i = none := by
      rw [finds.kept i inside]
      cases here : table.entries i with
      | none => rfl
      | some e => exact absurd ⟨inside, by rw [here]; rfl⟩ finds.free
    rw [max_eq_left (Nat.succ_le_of_lt inside)]
    exact holding_fill inside empty
  · rw [max_eq_right (Nat.le_succ _)]
    refine (holding_update_succ _).trans ?_
    simp only [Option.any_some, decide_eq_true_eq]

end WineRedRose.Handles
