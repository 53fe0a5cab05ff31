import WineRedRose.Registry.Frame

/-!
# The tree of keys

The tree is stored twice: in the parent of each key, and in the sorted array
that each key has of its subkeys.  `Linked` says that the two agree and that
the arrays are sorted and fit into their slots.  Creating, linking and
unlinking keys keep it.
-/

namespace WineRedRose.Registry

open Library.SortedArray List State

variable (lower : WChar → WChar)

/-! ## The invariant -/

/-- The name of a key as the arrays are sorted by it. -/
def foldKey (reg : State) (k : KeyId) : List Nat := foldName lower (reg.key k).name

/-- The fields of a key that make up the tree. -/
structure Shape where
  name : Name
  parent : Option KeyId
  subkeys : List KeyId
  nbSubkeys : Nat

def Key.shape (key : Key) : Shape := ⟨key.name, key.parent, key.subkeys, key.nbSubkeys⟩

/-- The slots in use are allocated; an allocated array has its least size. -/
structure Room (key : Key) : Prop where
  used : key.subkeys.length ≤ key.nbSubkeys
  least : key.nbSubkeys = 0 ∨ minSubkeys ≤ key.nbSubkeys

/-- The arrays are sorted and hold the keys that have them as parents. -/
structure Linked (reg : State) : Prop where
  running : reg.fault = false
  sorted : ∀ p, SortedBy (foldKey lower reg) (reg.key p).subkeys
  room : ∀ p, Room (reg.key p)
  child_iff : ∀ p k, k ∈ (reg.key p).subkeys ↔ (reg.key k).parent = some p
  order : ∀ k p, (reg.key k).parent = some p → p < k ∧ k < reg.nextKey

variable {lower} {reg reg' : State} {k p : KeyId}

section

variable (linked : Linked lower reg)
include linked

theorem Linked.of_frame (frame : Frame Key.shape reg reg') : Linked lower reg' := by
  have names : ∀ q, (reg'.key q).name = (reg.key q).name :=
    fun q => congrArg Shape.name (frame.key q)
  have parents : ∀ q, (reg'.key q).parent = (reg.key q).parent :=
    fun q => congrArg Shape.parent (frame.key q)
  have arrays : ∀ q, (reg'.key q).subkeys = (reg.key q).subkeys :=
    fun q => congrArg Shape.subkeys (frame.key q)
  have sizes : ∀ q, (reg'.key q).nbSubkeys = (reg.key q).nbSubkeys :=
    fun q => congrArg Shape.nbSubkeys (frame.key q)
  refine ⟨frame.fault.trans linked.running, fun q => ?_, fun q => ?_, fun q x => ?_, fun x q => ?_⟩
  · rw [arrays q]
    refine (linked.sorted q).congr fun x _ => ?_
    rw [foldKey, foldKey, names x]
  · refine ⟨?_, ?_⟩
    · rw [arrays q, sizes q]
      exact (linked.room q).used
    · rw [sizes q]
      exact (linked.room q).least
  · rw [arrays q, parents x]
    exact linked.child_iff q x
  · rw [parents x, frame.nextKey]
    exact linked.order x q

omit linked in
/-- What a lookup among the subkeys finds. -/
theorem findSubkey_spec (sorted : SortedBy (foldKey lower reg) (reg.key p).subkeys) (name : Name) :
    (∃ k index, findSubkey lower reg p name = (some k, index) ∧
        k ∈ (reg.key p).subkeys ∧ foldKey lower reg k = foldName lower name) ∨
      ∃ index, findSubkey lower reg p name = (none, index) ∧
        Fits (foldKey lower reg) (foldName lower name) (reg.key p).subkeys index := by
  have compares := compareName_compares lower (fun k => (reg.key k).name) name
  rcases search_sorted compares sorted with ⟨index, k, found, here, same⟩ | ⟨index, missing, fits⟩
  · refine .inl ⟨k, index, ?_, mem_of_getElem? here, same⟩
    simp only [findSubkey, found, here]
  · refine .inr ⟨index, ?_, fits⟩
    simp only [findSubkey, missing]

/-- A lookup finds exactly the child with that name, in any case. -/
theorem Linked.findSubkey_eq_some_iff (name : Name) : (findSubkey lower reg p name).1 = some k ↔
      (reg.key k).parent = some p ∧ foldKey lower reg k = foldName lower name := by
  rcases findSubkey_spec (linked.sorted p) name with
    ⟨child, index, found, member, same⟩ | ⟨index, missing, fits⟩
  · rw [found, Option.some.injEq, ← linked.child_iff p k]
    constructor
    · rintro rfl
      exact ⟨member, same⟩
    · rintro ⟨here, named⟩
      exact (linked.sorted p).key_injective member here (same.trans named.symm)
  · rw [missing]
    constructor
    · intro impossible
      cases impossible
    · rintro ⟨isChild, named⟩
      have member := (linked.child_iff p k).mpr isChild
      exact (fits.key_ne k member named).elim

theorem Linked.parent_ne (isChild : (reg.key k).parent = some p) : p ≠ k :=
  (linked.order k p isChild).1.ne

/-! ## New keys -/

/-- A new key object, not in the tree yet. -/
theorem Linked.addKey {key : Key} (noParent : key.parent = none) (noSubkeys : key.subkeys = [])
    (noSlots : key.nbSubkeys = 0) :
    Linked lower ({ reg with nextKey := reg.nextKey + 1 }.setKey reg.nextKey key) := by
  have fresh : (reg.key reg.nextKey).parent = none := by
    rcases parent : (reg.key reg.nextKey).parent with _ | q
    · rfl
    · exact (lt_irrefl _ (linked.order _ q parent).2).elim
  have childless : ∀ x, (reg.key x).parent ≠ some reg.nextKey := by
    intro x isChild
    have bounds := linked.order x _ isChild
    exact lt_asymm bounds.1 bounds.2
  have parents : ∀ x, (({ reg with nextKey := reg.nextKey + 1 }.setKey reg.nextKey key).key
        x).parent = (reg.key x).parent := by
    intro x
    rcases eq_or_ne x reg.nextKey with rfl | other
    · rw [key_setKey_self, noParent, fresh]
    · rw [key_setKey_of_ne _ other]
  refine ⟨linked.running, fun q => ?_, fun q => ?_, fun q x => ?_, fun x q isChild => ?_⟩
  · rcases eq_or_ne q reg.nextKey with rfl | other
    · rw [key_setKey_self, noSubkeys]
      exact List.Pairwise.nil
    · rw [key_setKey_of_ne _ other]
      refine (linked.sorted q).congr fun x member => ?_
      have older : x ≠ reg.nextKey := by
        rintro rfl
        rw [linked.child_iff, fresh] at member
        cases member
      rw [foldKey, foldKey, key_setKey_of_ne _ older]
  · rcases eq_or_ne q reg.nextKey with rfl | other
    · rw [key_setKey_self]
      exact ⟨by simp [noSubkeys], .inl noSlots⟩
    · rw [key_setKey_of_ne _ other]
      exact linked.room q
  · rw [parents x]
    rcases eq_or_ne q reg.nextKey with rfl | other
    · simp [noSubkeys, childless x]
    · rw [key_setKey_of_ne _ other]
      exact linked.child_iff q x
  · rw [parents x] at isChild
    have bounds := linked.order x q isChild
    exact ⟨bounds.1, Nat.lt_succ_of_lt bounds.2⟩

end

/-! ## Changing one array -/

/--
A step changes the array of `p`, and the name or the parent of `k`, which is
a child of `p` or not in the tree, before and after.
-/
structure ChangesArray (p k : KeyId) (reg reg' : State) : Prop where
  order : p < k
  known : k < reg.nextKey
  fault : reg'.fault = reg.fault
  nextKey : reg'.nextKey = reg.nextKey
  rest : ∀ q, q ≠ p → q ≠ k → (reg'.key q).shape = (reg.key q).shape
  parentName : (reg'.key p).name = (reg.key p).name
  parentParent : (reg'.key p).parent = (reg.key p).parent
  childSubkeys : (reg'.key k).subkeys = (reg.key k).subkeys
  childSlots : (reg'.key k).nbSubkeys = (reg.key k).nbSubkeys
  before : ∀ q, (reg.key k).parent = some q → q = p
  after : ∀ q, (reg'.key k).parent = some q → q = p

variable {x q : KeyId} {least nb used : Nat}

section

variable (changes : ChangesArray p k reg reg')
include changes

theorem ChangesArray.name (other : x ≠ k) : (reg'.key x).name = (reg.key x).name := by
  rcases eq_or_ne x p with rfl | notParent
  · exact changes.parentName
  · exact congrArg Shape.name (changes.rest x notParent other)

theorem ChangesArray.parent (other : x ≠ k) : (reg'.key x).parent = (reg.key x).parent := by
  rcases eq_or_ne x p with rfl | notParent
  · exact changes.parentParent
  · exact congrArg Shape.parent (changes.rest x notParent other)

theorem ChangesArray.subkeys (other : q ≠ p) : (reg'.key q).subkeys = (reg.key q).subkeys := by
  rcases eq_or_ne q k with rfl | notChild
  · exact changes.childSubkeys
  · exact congrArg Shape.subkeys (changes.rest q other notChild)

theorem ChangesArray.nbSubkeys (other : q ≠ p) :
    (reg'.key q).nbSubkeys = (reg.key q).nbSubkeys := by
  rcases eq_or_ne q k with rfl | notChild
  · exact changes.childSlots
  · exact congrArg Shape.nbSubkeys (changes.rest q other notChild)

/-- Parents other than `p` have the children they had. -/
theorem ChangesArray.parent_iff (other : q ≠ p) (x : KeyId) :
    (reg'.key x).parent = some q ↔ (reg.key x).parent = some q := by
  rcases eq_or_ne x k with rfl | notChild
  · constructor
    · intro isChild
      exact (other (changes.after q isChild)).elim
    · intro isChild
      exact (other (changes.before q isChild)).elim
  · rw [changes.parent notChild]

end

/-- It is enough to look at the array that changes. -/
theorem Linked.changeArray (linked : Linked lower reg) (changes : ChangesArray p k reg reg')
    (sorted : SortedBy (foldKey lower reg') (reg'.key p).subkeys) (room : Room (reg'.key p))
    (siblings : ∀ x, x ≠ k → (x ∈ (reg'.key p).subkeys ↔ x ∈ (reg.key p).subkeys))
    (entered : k ∈ (reg'.key p).subkeys ↔ (reg'.key k).parent = some p) :
    Linked lower reg' := by
  refine ⟨changes.fault.trans linked.running, fun q => ?_, fun q => ?_,
    fun q x => ?_, fun x q isChild => ?_⟩
  · rcases eq_or_ne q p with rfl | other
    · exact sorted
    · rw [changes.subkeys other]
      refine (linked.sorted q).congr fun x member => ?_
      have notChild : x ≠ k := by
        rintro rfl
        exact other (changes.before q ((linked.child_iff q x).mp member))
      rw [foldKey, foldKey, changes.name notChild]
  · rcases eq_or_ne q p with rfl | other
    · exact room
    · refine ⟨?_, ?_⟩
      · rw [changes.subkeys other, changes.nbSubkeys other]
        exact (linked.room q).used
      · rw [changes.nbSubkeys other]
        exact (linked.room q).least
  · rcases eq_or_ne q p with rfl | other
    · rcases eq_or_ne x k with rfl | notChild
      · exact entered
      · rw [siblings x notChild, changes.parent notChild]
        exact linked.child_iff q x
    · rw [changes.subkeys other, changes.parent_iff other x]
      exact linked.child_iff q x
  · rw [changes.nextKey]
    rcases eq_or_ne x k with rfl | notChild
    · rw [changes.after q isChild]
      exact ⟨changes.order, changes.known⟩
    · rw [changes.parent notChild] at isChild
      exact linked.order x q isChild

/-! ## Linking and unlinking -/

theorem growArray_room (positive : 2 ≤ least) (inUse : used ≤ nb) (size : nb = 0 ∨ least ≤ nb) :
    used + 1 ≤ (if used = nb then growArray least nb else nb) ∧
      least ≤ if used = nb then growArray least nb else nb := by
  simp only [growArray]
  split_ifs <;> omega

theorem shrinkArray_room (inUse : used ≤ nb) (size : nb = 0 ∨ least ≤ nb) :
    used ≤ shrinkArray least nb used ∧
      (shrinkArray least nb used = 0 ∨ least ≤ shrinkArray least nb used) := by
  simp only [shrinkArray]
  split_ifs <;> omega

theorem keyLinkName_changes (free : (reg.key k).parent = none) (order : p < k)
    (known : k < reg.nextKey) :
    ChangesArray p k reg (keyLinkName lower reg k p) where
  order := order
  known := known
  fault := rfl
  nextKey := rfl
  rest q notParent notChild := by simp [keyLinkName, notParent, notChild]
  parentName := by simp [keyLinkName, order.ne]
  parentParent := by simp [keyLinkName, order.ne]
  childSubkeys := by simp [keyLinkName, order.ne']
  childSlots := by simp [keyLinkName, order.ne']
  before q isChild := by simp [free] at isChild
  after q isChild := by
    simp only [keyLinkName, key_modifyKey_self, Option.some.injEq] at isChild
    exact isChild.symm

section

variable (linked : Linked lower reg)
include linked

/-- Entering a key under a name that no sibling has. -/
theorem Linked.keyLinkName (free : (reg.key k).parent = none) (order : p < k)
    (known : k < reg.nextKey) {index : Nat}
    (missing : findSubkey lower reg p (reg.key k).name = (none, index))
    (fits : Fits (foldKey lower reg) (foldKey lower reg k) (reg.key p).subkeys index) :
    Linked lower (keyLinkName lower reg k p) := by
  have array : ((Registry.keyLinkName lower reg k p).key p).subkeys =
      (reg.key p).subkeys.insertIdx index k := by
    simp [Registry.keyLinkName, order.ne, missing, insertSlot_eq fits.inside]
  have changes : ChangesArray p k reg (Registry.keyLinkName lower reg k p) :=
    keyLinkName_changes free order known
  apply linked.changeArray changes
  · rw [array]
    apply (fits.insertIdx (linked.sorted p)).congr
    intro x _
    rcases eq_or_ne x k with rfl | notChild
    · simp [foldKey, keyLinkName, order.ne']
    · rw [foldKey, foldKey, changes.name notChild]
  · have room := growArray_room (by decide : 2 ≤ minSubkeys)
      (linked.room p).used (linked.room p).least
    refine ⟨?_, .inr ?_⟩
    · rw [array, length_insertIdx_of_le_length fits.inside]
      simpa [Registry.keyLinkName, order.ne] using room.1
    · simpa [Registry.keyLinkName, order.ne] using room.2
  · intro x notChild
    rw [array, mem_insertIdx fits.inside]
    simp [notChild]
  · rw [array, mem_insertIdx fits.inside]
    simp [Registry.keyLinkName]

/-- The key is found in the array, so the assertion holds. -/
theorem Linked.keyUnlinkName_eq (isChild : (reg.key k).parent = some p) :
    keyUnlinkName reg k = (reg.setKey p
        { reg.key p with
          subkeys := (reg.key p).subkeys.erase k
          wow6432node :=
            if (reg.key p).wow6432node = some k then none
            else (reg.key p).wow6432node
          nbSubkeys := shrinkArray minSubkeys (reg.key p).nbSubkeys
              ((reg.key p).subkeys.erase k).length }).modifyKey k
                fun key => { key with parent := none } := by
  have inside : (reg.key p).subkeys.idxOf k < (reg.key p).subkeys.length :=
    idxOf_lt_length_iff.mpr ((linked.child_iff p k).mpr isChild)
  rw [erase_eq_eraseIdx_of_idxOf rfl, ← removeSlot_eq inside]
  simp only [keyUnlinkName, isChild, if_pos inside]

theorem keyUnlinkName_changes (isChild : (reg.key k).parent = some p) :
    ChangesArray p k reg (keyUnlinkName reg k) := by
  have other : p ≠ k := linked.parent_ne isChild
  rw [linked.keyUnlinkName_eq isChild]
  exact {
    order := (linked.order k p isChild).1
    known := (linked.order k p isChild).2
    fault := rfl
    nextKey := rfl
    rest := fun q notParent notChild => by simp [notParent, notChild]
    parentName := by simp [other]
    parentParent := by simp [other]
    childSubkeys := by simp [other.symm]
    childSlots := by simp [other.symm]
    before := fun q same => (Option.some.inj (isChild.symm.trans same)).symm
    after := fun q same => by simp at same }

/-- Taking a key out of the tree. -/
theorem Linked.keyUnlinkName (isChild : (reg.key k).parent = some p) :
    Linked lower (keyUnlinkName reg k) := by
  have other : p ≠ k := linked.parent_ne isChild
  have array : ((Registry.keyUnlinkName reg k).key p).subkeys = (reg.key p).subkeys.erase k := by
    simp [linked.keyUnlinkName_eq isChild, other]
  have nodup := (linked.sorted p).nodup
  have changes := keyUnlinkName_changes linked isChild
  apply linked.changeArray changes
  · rw [array]
    have erased : SortedBy (foldKey lower reg) ((reg.key p).subkeys.erase k) :=
      List.Pairwise.sublist erase_sublist (linked.sorted p)
    apply erased.congr
    intro x member
    have notChild : x ≠ k := (nodup.mem_erase_iff.mp member).1
    rw [foldKey, foldKey, changes.name notChild]
  · have fewer : ((reg.key p).subkeys.erase k).length ≤ (reg.key p).nbSubkeys :=
      length_erase_le.trans (linked.room p).used
    have room := shrinkArray_room fewer (linked.room p).least
    refine ⟨?_, ?_⟩
    · simpa [linked.keyUnlinkName_eq isChild, other] using room.1
    · simpa [linked.keyUnlinkName_eq isChild, other] using room.2
  · intro x notChild
    rw [array, nodup.mem_erase_iff]
    simp [notChild]
  · rw [array, nodup.mem_erase_iff]
    simp [linked.keyUnlinkName_eq isChild]

theorem Linked.unlinked (k : KeyId) : Linked lower (Registry.keyUnlinkName reg k) := by
  rcases parent : (reg.key k).parent with _ | p
  · simpa [Registry.keyUnlinkName, parent] using linked
  · exact linked.keyUnlinkName parent

/-! ## Creating keys -/

omit linked in
theorem blind_shape : Blind Key.shape := fun _ _ _ _ => rfl

/-- A new key is entered under a name that was not found. -/
theorem Linked.linkNewKey (known : p < reg.nextKey) {name : Name}
    (absent : (findSubkey lower reg p name).1 = none) (options : CreateOptions) :
    Linked lower (linkNewKey lower reg p name options) := by
  have added : Linked lower (reg.addKey (newKey reg name options)) := linked.addKey rfl rfl rfl
  have older : ∀ x, x ∈ (reg.key p).subkeys → x ≠ reg.nextKey := by
    rintro x member rfl
    exact lt_irrefl _ (linked.order _ p ((linked.child_iff p _).mp member)).2
  have parent : (reg.addKey (newKey reg name options)).key p = reg.key p :=
    State.key_setKey_of_ne _ known.ne _
  have child : (reg.addKey (newKey reg name options)).key reg.nextKey = newKey reg name options :=
    State.key_setKey_self _ _ _
  rcases findSubkey_spec (added.sorted p) name with
    ⟨x, index, found, member, same⟩ | ⟨index, missing, fits⟩
  · -- the new object is not in the array, so the old search had found it
    rw [parent] at member
    rw [foldKey, State.addKey, State.key_setKey_of_ne _ (older x member)] at same
    have present := (linked.findSubkey_eq_some_iff name).mpr
      ⟨(linked.child_iff p x).mp member, same⟩
    rw [absent] at present
    cases present
  · have free : ((reg.addKey (newKey reg name options)).key reg.nextKey).parent = none := by
      rw [child]
      rfl
    have named : ((reg.addKey (newKey reg name options)).key reg.nextKey).name = name := by
      rw [child]
      rfl
    apply added.keyLinkName free known (Nat.lt_succ_self _)
    · rw [named]
      exact missing
    · rw [foldKey, named]
      exact fits

theorem Linked.createKey (known : p < reg.nextKey) (name : Name) (options : CreateOptions)
    (keyClass : Option Name) :
    Linked lower (createKey lower reg p name options keyClass).1 := by
  apply createKey_cases
  · exact linked
  · intro k _
    exact linked.of_frame (openClass_frame (fun _ _ => rfl) _ _ _)
  · intro absent
    exact (linked.linkNewKey known absent options).unlinked _
  · intro absent _
    exact (linked.linkNewKey known absent options).of_frame
      (createdKey_frame blind_shape (fun _ _ => rfl) (fun _ _ => rfl) _ _ _ _ _)

end

end WineRedRose.Registry
