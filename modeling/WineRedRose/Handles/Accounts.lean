import WineRedRose.Handles.Tables

/-!
# Handle counts

Each object counts the entries that point to it.  A change of one table keeps the
counts right if it moves them as it moves the entries of that table.
-/

namespace WineRedRose.Handles

open Library.Slots Function State Set

variable {st st' st'' : State} {owner : Owner} {table table' : HandleTable}
  {obj : ObjId} {slot : Slot} {entry : HandleEntry}

/-! ## Entries -/

/-- The entry of a slot, if it is in use. -/
def State.entryAt (st : State) (slot : Slot) : Option HandleEntry :=
  match st.table slot.1 with
  | none => none
  | some table => if slot.2 < table.size then table.entries slot.2 else none

theorem State.entryAt_eq_some_iff :
    st.entryAt slot = some entry ↔ ∃ table, st.table slot.1 = some table ∧
      slot.2 < table.size ∧ table.entries slot.2 = some entry := by
  unfold entryAt
  cases st.table slot.1 with
  | none => simp
  | some table =>
    split
    · next inside => simp [inside]
    · next outside => simp [outside]

/-- The slot belongs to a table and points to the object. -/
def State.Holds (st : State) (obj : ObjId) (slot : Slot) : Prop :=
  ∃ table, st.table slot.1 = some table ∧
    slot.2 ∈ holders (fun entry => entry.object = obj) table.entries (min table.size table.count)

/-- The number of entries of a table that point to an object, if there is one. -/
def pointingOf (table : Option HandleTable) (obj : ObjId) : Nat :=
  match table with
  | none => 0
  | some table => table.pointing obj

/-- The tables are in order, and each object counts the entries that point to
it. -/
structure State.Sound (st : State) : Prop where
  valid : ∀ owner table, st.table owner = some table → table.Valid
  counted : ∀ obj, Set.encard {slot | st.Holds obj slot} = st.handleCount obj

/-- The entries of a table that point to an object. -/
def pointers (table : Option HandleTable) (obj : ObjId) : Finset Nat :=
  match table with
  | none => ∅
  | some table =>
    holders (fun entry => entry.object = obj) table.entries (min table.size table.count)

theorem card_pointers (table : Option HandleTable) :
    (pointers table obj).card = pointingOf table obj := by
  cases table with
  | none => rfl
  | some table => rfl

theorem State.holds_iff : st.Holds obj slot ↔ slot.2 ∈ pointers (st.table slot.1) obj := by
  unfold State.Holds
  cases st.table slot.1 with
  | none => simp [pointers]
  | some table => simp [pointers]

/-- The entries of one table and those of the others. -/
theorem encard_holds (st : State) (owner : Owner) (obj : ObjId) :
    Set.encard {slot | st.Holds obj slot} =
      Set.encard {slot | (st.setTable owner none).Holds obj slot} +
        pointingOf (st.table owner) obj := by
  have split : {slot | st.Holds obj slot} = {slot | (st.setTable owner none).Holds obj slot} ∪
        Prod.mk owner '' (pointers (st.table owner) obj : Set Nat) := by
    ext ⟨other, i⟩
    simp only [mem_ofPred_eq, mem_union, mem_image, holds_iff,
      setTable, Finset.mem_coe, Prod.mk.injEq]
    by_cases same : other = owner
    · subst same
      rw [update_self]
      simp [pointers]
    · rw [update_of_ne same]
      constructor
      · exact .inl
      · rintro (inside | ⟨_, _, impossible, _⟩)
        · exact inside
        · exact absurd impossible.symm same
  have disjoint : Disjoint {slot | (st.setTable owner none).Holds obj slot}
      (Prod.mk owner '' (pointers (st.table owner) obj : Set Nat)) := by
    rw [disjoint_right]
    rintro _ ⟨i, _, rfl⟩ holds
    rw [mem_ofPred_eq, holds_iff] at holds
    simp [setTable, pointers] at holds
  rw [split, encard_union_eq disjoint,
    (Prod.mk_right_injective owner).encard_image, encard_coe_eq_coe_finsetCard,
    card_pointers]

/-! ## Changes of one table -/

/-- The table of one owner is changed, and the counts with it. -/
structure Amends (st : State) (owner : Owner) (after : Option HandleTable)
    (st' : State) : Prop where
  table : st'.table = update st.table owner after
  moved : ∀ obj, st'.handleCount obj + pointingOf (st.table owner) obj =
    st.handleCount obj + pointingOf after obj

theorem Amends.sound {after : Option HandleTable} (amends : Amends st owner after st')
    (sound : st.Sound) (valid : ∀ table, after = some table → table.Valid) :
    st'.Sound := by
  constructor
  · intro other table here
    rw [amends.table] at here
    by_cases same : other = owner
    · subst same
      rw [update_self] at here
      exact valid table here
    · rw [update_of_ne same] at here
      exact sound.valid other table here
  · intro obj
    have before := encard_holds st owner obj
    have later := encard_holds st' owner obj
    have others : st'.setTable owner none = { st' with
        table := (st.setTable owner none).table } := by
      rw [setTable, setTable, amends.table, update_idem]
    have here : st'.table owner = after := by rw [amends.table, update_self]
    have same : {slot | (st'.setTable owner none).Holds obj slot} =
        {slot | (st.setTable owner none).Holds obj slot} := by
      rw [others]
      rfl
    rw [same, here] at later
    rw [sound.counted obj] at before
    have moved := amends.moved obj
    have finite : Set.encard {slot | (st.setTable owner none).Holds obj slot} ≠ ⊤ := by
      intro infinite
      rw [infinite, top_add] at before
      exact ENat.natCast_ne_top _ before
    rcases ENat.ne_top_iff_exists.mp finite with ⟨rest, eq⟩
    rw [← eq] at before later
    rw [later]
    norm_cast at before ⊢
    omega

/-- A step that keeps the order and the counts, and all entries but some. -/
structure Change (touched : Set Slot) (st st' : State) : Prop where
  sound : st.Sound → st'.Sound
  kept : st.Sound → ∀ slot entry, slot ∉ touched → st.entryAt slot = some entry →
    st'.entryAt slot = some entry

variable {touched touched' : Set Slot}

theorem Change.refl (touched : Set Slot) (st : State) : Change touched st st :=
  ⟨id, fun _ _ _ _ here => here⟩

/-- The server ends with its tables as they are. -/
theorem Change.fault (touched : Set Slot) (st : State) :
    Change touched st { st with fault := true } :=
  ⟨fun sound => ⟨sound.valid, sound.counted⟩, fun _ _ _ _ here => here⟩

theorem Change.trans (first : Change touched st st') (second : Change touched st' st'') :
    Change touched st st'' :=
  ⟨fun sound => second.sound (first.sound sound),
    fun sound slot entry apart here => second.kept (first.sound sound) slot entry apart
      (first.kept sound slot entry apart here)⟩

theorem Change.mono (change : Change touched st st') (subset : touched ⊆ touched') :
    Change touched' st st' :=
  ⟨change.sound, fun sound slot entry apart =>
    change.kept sound slot entry fun inside => apart (subset inside)⟩

/-- A change of one table is judged by that table alone. -/
theorem Amends.change {after : Option HandleTable} (amends : Amends st owner after st')
    (valid : ∀ table, after = some table → table.Valid)
    (kept : ∀ table, st.table owner = some table → ∀ i entry, (owner, i) ∉ touched →
      i < table.size → table.entries i = some entry →
      ∃ table', after = some table' ∧ i < table'.size ∧ table'.entries i = some entry) :
    Change touched st st' := by
  refine ⟨fun sound => amends.sound sound valid, ?_⟩
  rintro - ⟨other, i⟩ entry apart here
  rcases entryAt_eq_some_iff.mp here with ⟨table, at_other, inside, there⟩
  rw [entryAt_eq_some_iff, amends.table]
  by_cases same : other = owner
  · subst same
    rw [update_self]
    exact kept table at_other i entry apart inside there
  · rw [update_of_ne same]
    exact ⟨table, at_other, inside, there⟩

end WineRedRose.Handles
