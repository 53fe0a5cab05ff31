import WineRedRose.Library.Runs
import WineRedRose.Registry.Deletion

/-!
# Renaming keys and the arrays of subkeys

`rename_key` looks for the place of the new name in the array that still has
the old entry, and then moves the entry.  Where the new name belongs right
behind the old one nothing is shifted, and the entry is written over its
neighbour or behind the end of the array.  Every other rename keeps the
arrays, and so do all other requests.
-/

namespace WineRedRose.Registry

open Library.SortedArray List
open Library.Runs

variable {lower : WChar → WChar} {reg reg' : State} {k p : KeyId}

/-! ## Moving an entry -/

variable {index : Nat} {newName : Name} {request : Request} {state : Tracked}

/-- An entry that moves away from its neighbours ends up in its new place. -/
theorem moveSubkey_eq {xs : List KeyId} {slots : Nat} (member : k ∈ xs) (inside : index ≤ xs.length)
    (used : xs.length ≤ slots) (safe : index = xs.idxOf k + 1 → index = xs.length ∧ index < slots) :
    (moveSubkey xs k index).1 = (xs.eraseIdx (xs.idxOf k)).insertIdx
          (if xs.idxOf k < index then index - 1 else index) k ∧
      (moveSubkey xs k index).2 < slots := by
  have bound : xs.idxOf k < xs.length := idxOf_lt_length_iff.mpr member
  have stay : xs.set (xs.idxOf k) k = (xs.eraseIdx (xs.idxOf k)).insertIdx (xs.idxOf k) k := by
    simpa [shiftLeft] using set_shiftLeft_eq (le_refl (xs.idxOf k)) bound k
  rcases lt_trichotomy index (xs.idxOf k) with left | here | right
  · have moved := set_shiftRight_eq left.le bound k
    rw [moveSubkey, if_neg (by omega), if_pos left, if_neg (by omega)]
    exact ⟨moved, by dsimp only; omega⟩
  · rw [moveSubkey, if_neg (by omega), if_neg (by omega), if_neg (by omega)]
    rw [here]
    exact ⟨stay, by dsimp only; omega⟩
  · rcases eq_or_lt_of_le (Nat.succ_le_of_lt right) with next | far
    · have last := safe next.symm
      rw [moveSubkey, if_neg (by omega), if_neg (by omega), if_pos right]
      refine ⟨?_, last.2⟩
      have same : xs.set (xs.idxOf k) k = xs := by
        calc xs.set (xs.idxOf k) k
            = xs.set (xs.idxOf k) xs[xs.idxOf k] := by rw [getElem_idxOf bound]
          _ = xs := set_getElem_self bound
      rw [set_eq_of_length_le last.1.ge, ← next]
      exact same.symm.trans stay
    · have moved := set_shiftLeft_eq (Nat.le_sub_one_of_lt right)
        (by omega : index - 1 < xs.length) k
      rw [moveSubkey, if_pos (by omega), if_pos right]
      exact ⟨moved, by dsimp only; omega⟩

/-- An entry that moves to its neighbour's slot overwrites it. -/
theorem moveSubkey_overwrites {xs : List KeyId} (inside : xs.idxOf k + 1 < xs.length) :
    ¬ (moveSubkey xs k (xs.idxOf k + 1)).1.Nodup := by
  have bound : xs.idxOf k < xs.length := Nat.lt_of_succ_lt inside
  rw [moveSubkey, if_neg (by omega), if_neg (by omega)]
  intro nodup
  have first : (xs.set (xs.idxOf k + 1) k)[xs.idxOf k]? = some k := by
    rw [getElem?_set_ne (by omega), getElem?_eq_getElem bound, getElem_idxOf bound]
  have second : (xs.set (xs.idxOf k + 1) k)[xs.idxOf k + 1]? = some k := getElem?_set_self inside
  have same := (getElem?_inj (by rwa [length_set]) nodup).mp (first.trans second.symm)
  omega

/-- The new name sorts behind the key and before all siblings behind it. -/
def RightBehind (lower : WChar → WChar) (reg : State) (k p : KeyId) (newName : Name) : Prop :=
  foldKey lower reg k < foldName lower newName ∧ ∀ s, (reg.key s).parent = some p →
      foldKey lower reg k < foldKey lower reg s →
      foldName lower newName < foldKey lower reg s

/-- The key is the last of its siblings, and the array has a spare slot. -/
def LastWithSpareSlot (lower : WChar → WChar) (reg : State) (k p : KeyId) :
    Prop :=
  (∀ s, (reg.key s).parent = some p → foldKey lower reg s ≤ foldKey lower reg k) ∧
    (reg.key p).subkeys.length < (reg.key p).nbSubkeys

section

variable (linked : Linked lower reg) (isChild : (reg.key k).parent = some p)
include linked isChild

section

variable (fits : Fits (foldKey lower reg) (foldName lower newName) (reg.key p).subkeys index)
include fits

theorem Linked.rightBehind_iff :
    RightBehind lower reg k p newName ↔ index = (reg.key p).subkeys.idxOf k + 1 := by
  have here := getElem?_idxOf ((linked.child_iff p k).mpr isChild)
  constructor
  · rintro ⟨behind, before⟩
    have above : (reg.key p).subkeys.idxOf k < index := by
      by_contra notAbove
      exact lt_asymm behind (fits.after _ k (not_lt.mp notAbove) here)
    by_contra other
    have inside : (reg.key p).subkeys.idxOf k + 1 < (reg.key p).subkeys.length := by
      have := fits.inside
      omega
    have next := getElem?_eq_getElem inside
    have less := ((linked.sorted p).key_lt_iff here next).mpr (Nat.lt_succ_self _)
    have sibling := (linked.child_iff p _).mp (getElem_mem inside)
    exact lt_asymm (fits.before _ _ (by omega) next) (before _ sibling less)
  · intro next
    refine ⟨fits.before _ k (by omega) here, fun s sibling less => ?_⟩
    have there := getElem?_idxOf ((linked.child_iff p s).mpr sibling)
    have above := ((linked.sorted p).key_lt_iff here there).mp less
    exact fits.after _ s (by omega) there

omit fits in
theorem Linked.last_iff :
    (∀ s, (reg.key s).parent = some p → foldKey lower reg s ≤ foldKey lower reg k) ↔
      (reg.key p).subkeys.idxOf k + 1 = (reg.key p).subkeys.length := by
  have member := (linked.child_iff p k).mpr isChild
  have bound := idxOf_lt_length_iff.mpr member
  have here := getElem?_idxOf member
  constructor
  · intro greatest
    by_contra notLast
    have inside : (reg.key p).subkeys.idxOf k + 1 < (reg.key p).subkeys.length := by omega
    refine not_lt.mpr (greatest _ ((linked.child_iff p _).mp (getElem_mem inside))) ?_
    exact ((linked.sorted p).key_lt_iff here (getElem?_eq_getElem inside)).mpr (Nat.lt_succ_self _)
  · intro last s sibling
    have inside := (linked.child_iff p s).mpr sibling
    have bound' := idxOf_lt_length_iff.mpr inside
    rw [← not_lt, (linked.sorted p).key_lt_iff here (getElem?_idxOf inside)]
    omega

omit fits in
theorem movedKey_changes (newName : Name)
    (written : (moveSubkey (reg.key p).subkeys k index).2 < (reg.key p).nbSubkeys) :
    ChangesArray p k reg (movedKey reg k p newName index) := by
  have other : p ≠ k := linked.parent_ne isChild
  exact {
    order := (linked.order k p isChild).1
    known := (linked.order k p isChild).2
    fault := by simp [movedKey, written]
    nextKey := rfl
    rest := fun q notParent notChild => by simp [movedKey, notParent, notChild]
    parentName := by simp [movedKey, other]
    parentParent := by simp [movedKey, other]
    childSubkeys := by simp [movedKey, other.symm]
    childSlots := by simp [movedKey, other.symm]
    before := fun q same => (Option.some.inj (isChild.symm.trans same)).symm
    after := fun q same => by
      have parent : (reg.key k).parent = some q := by simpa [movedKey, other.symm] using same
      exact (Option.some.inj (isChild.symm.trans parent)).symm }

/-- A rename that does not go right behind the old name keeps the arrays. -/
theorem Linked.movedKey
    (safe : RightBehind lower reg k p newName → LastWithSpareSlot lower reg k p) :
    Linked lower (movedKey reg k p newName index) := by
  have other : p ≠ k := linked.parent_ne isChild
  have member := (linked.child_iff p k).mpr isChild
  have bound := idxOf_lt_length_iff.mpr member
  have nodup := (linked.sorted p).nodup
  rcases moveSubkey_eq member fits.inside (linked.room p).used (by
      intro next
      rcases safe ((linked.rightBehind_iff isChild fits).mpr next) with ⟨last, spare⟩
      have end_ := (linked.last_iff isChild).mp last
      exact ⟨next.trans end_, by omega⟩) with ⟨moved, written⟩
  have changes := movedKey_changes linked isChild newName written
  have array : ((Registry.movedKey reg k p newName index).key p).subkeys =
      (moveSubkey (reg.key p).subkeys k index).1 := by
    simp [Registry.movedKey, other]
  have slots : ((Registry.movedKey reg k p newName index).key p).nbSubkeys =
      (reg.key p).nbSubkeys := by
    simp [Registry.movedKey, other]
  have renamed : foldKey lower (Registry.movedKey reg k p newName index) k =
      foldName lower newName := by
    simp [foldKey, Registry.movedKey]
  have erased : (reg.key p).subkeys.eraseIdx
      ((reg.key p).subkeys.idxOf k) = (reg.key p).subkeys.erase k :=
    (erase_eq_eraseIdx_of_idxOf rfl).symm
  have gap := fits.eraseIdx bound
  rw [erased] at gap moved
  have others : ∀ x ∈
      (reg.key p).subkeys.erase k, foldKey lower (Registry.movedKey reg k p newName index) x =
      foldKey lower reg x := by
    intro x inRest
    have notChild : x ≠ k := (nodup.mem_erase_iff.mp inRest).1
    rw [foldKey, foldKey, changes.name notChild]
  apply linked.changeArray changes
  · rw [array, moved]
    have gap' := gap.congr others
    rw [← renamed] at gap'
    apply gap'.insertIdx
    have sorted : SortedBy (foldKey lower reg) ((reg.key p).subkeys.erase k) :=
      List.Pairwise.sublist erase_sublist (linked.sorted p)
    exact sorted.congr others
  · have length : ((reg.key p).subkeys.erase k).length + 1 = (reg.key p).subkeys.length := by
      rw [length_erase_of_mem member]
      omega
    refine ⟨?_, ?_⟩
    · rw [array, moved, length_insertIdx_of_le_length gap.inside, length, slots]
      exact (linked.room p).used
    · rw [slots]
      exact (linked.room p).least
  · intro x notChild
    rw [array, moved, mem_insertIdx gap.inside, nodup.mem_erase_iff]
    simp [notChild]
  · rw [array, moved, mem_insertIdx gap.inside]
    simp [Registry.movedKey, other.symm, isChild]

/-- A rename right behind the old name loses a sibling or leaves the array. -/
theorem not_linked_movedKey (behind : RightBehind lower reg k p newName)
    (crowded : ¬ LastWithSpareSlot lower reg k p) : (movedKey reg k p newName index).fault = true ∨
      ¬ ((movedKey reg k p newName index).key p).subkeys.Nodup := by
  have other : p ≠ k := linked.parent_ne isChild
  have next := (linked.rightBehind_iff isChild fits).mp behind
  rcases eq_or_lt_of_le fits.inside with last | inner
  · left
    have written : (moveSubkey (reg.key p).subkeys k index).2 = index := by
      rw [moveSubkey, if_neg (by omega), if_neg (by omega)]
    have full : (reg.key p).nbSubkeys ≤ index := by
      by_contra spare
      refine crowded ⟨(linked.last_iff isChild).mpr ?_, ?_⟩
      · exact next.symm.trans last
      · omega
    simp [movedKey, written, full]
  · right
    rw [next] at inner
    simpa [movedKey, other, next] using moveSubkey_overwrites inner

end

end

/-! ## Single requests -/

/-- `rename_key` takes the new name for a child of `p`. -/
structure RenameAccepted (lower : WChar → WChar) (reg : State) (k p : KeyId)
    (newName : Name) : Prop where
  usable : reg.Usable k
  element : IsElement newName
  child : (reg.key k).parent = some p
  free : ∀ s, (reg.key s).parent = some p → foldKey lower reg s ≠ foldName lower newName
  noWow : ¬ ((reg.key p).wow6432node = some k ∨ isWow6432node lower newName)

/--
A rename that is accepted does not go right behind the old name, or the key is
the last one and there is a spare slot.
-/
def RenameSafe (lower : WChar → WChar) (reg : State) : Request → Prop
  | .renameKey k newName =>
    ∀ p, RenameAccepted lower reg k p newName →
      RightBehind lower reg k p newName → LastWithSpareSlot lower reg k p
  | _ => True

/-- An accepted rename moves the key to where the new name fits. -/
theorem RenameAccepted.renamed (accepted : RenameAccepted lower reg k p newName)
    (linked : Linked lower reg) :
    ∃ index, Fits (foldKey lower reg) (foldName lower newName) (reg.key p).subkeys index ∧
      step lower reg (.renameKey k newName) = touchKey (movedKey reg k p newName index) k := by
  rcases findSubkey_spec (linked.sorted p) newName with
    ⟨s, index, found, member, same⟩ | ⟨index, missing, fits⟩
  · exact (accepted.free s ((linked.child_iff p s).mp member) same).elim
  · refine ⟨index, fits, ?_⟩
    simp only [step, linked.running, renameKey, accepted.child, missing,
      if_pos accepted.usable, if_neg (not_not.mpr accepted.element),
      if_neg accepted.noWow, Bool.false_eq_true, if_false]

theorem Linked.renameKey (linked : Linked lower reg) (usable : reg.Usable k)
    (safe : RenameSafe lower reg (.renameKey k newName)) :
    Linked lower (renameKey lower reg k newName).1 := by
  apply renameKey_cases
  · exact linked
  · intro p index element child missing noWow
    rcases findSubkey_spec (linked.sorted p) newName with
      ⟨s, other, found, _, _⟩ | ⟨other, missing', fits⟩
    · rw [missing] at found
      cases found
    · rw [missing] at missing'
      cases missing'
      have free : ∀ s, (reg.key s).parent = some p →
          foldKey lower reg s ≠ foldName lower newName := by
        intro s sibling
        exact fits.key_ne s ((linked.child_iff p s).mpr sibling)
      have moved := linked.movedKey child fits (safe p ⟨usable, element, child, free, noWow⟩)
      exact moved.of_frame (touchKey_frame blind_shape _ _)

/-- Every safe request keeps the arrays. -/
theorem Linked.step (linked : Linked lower reg) (safe : RenameSafe lower reg request) :
    Linked lower (step lower reg request) := by
  apply step_cases blind_shape (fun _ _ _ => rfl) reg linked.running
  · exact linked.of_frame
  · exact fun p name options keyClass usable => linked.createKey usable.1 name options keyClass
  · exact fun k recurse result returned => linked.deleteKey returned
  · rintro k newName rfl usable
    exact linked.renameKey usable safe

/-! ## Where keys are -/

/--
Keys that are not in their old place are deleted, and deleted keys are out of
the tree.
-/
structure Settled (reg reg' : State) : Prop where
  buried : Buried reg'
  places : ∀ k, k < reg.nextKey → (reg'.key k).place = (reg.key k).place ∨
      (reg'.key k).place = (none, true)

theorem Settled.of_places (buried : Buried reg)
    (same : ∀ k, (reg'.key k).place = (reg.key k).place) :
    Settled reg reg' := by
  refine ⟨fun k deleted => ?_, fun k _ => .inl (same k)⟩
  exact (congrArg Prod.fst (same k)).trans
    (buried k ((congrArg Prod.snd (same k)).symm.trans deleted))

/-- A new key is not deleted, and the others stay where they are. -/
theorem Settled.of_new (buried : Buried reg) (fresh : (reg'.key reg.nextKey).deleted = false)
    (same : ∀ k, k ≠ reg.nextKey → (reg'.key k).place = (reg.key k).place) :
    Settled reg reg' := by
  refine ⟨fun k deleted => ?_, fun k known => .inl (same k known.ne)⟩
  rcases eq_or_ne k reg.nextKey with rfl | other
  · rw [fresh] at deleted
    cases deleted
  · exact (congrArg Prod.fst (same k other)).trans
      (buried k ((congrArg Prod.snd (same k other)).symm.trans deleted))

theorem linkNewKey_places (known : p < reg.nextKey) (name : Name) (options : CreateOptions) :
    ((linkNewKey lower reg p name options).key reg.nextKey).deleted = false ∧ ∀ k, k ≠ reg.nextKey →
      ((linkNewKey lower reg p name options).key k).place = (reg.key k).place := by
  have added : ∀ k, k ≠ reg.nextKey → (reg.addKey (newKey reg name options)).key k = reg.key k :=
    fun k other => State.key_setKey_of_ne _ other _
  constructor
  · simp [linkNewKey, keyLinkName, known.ne', State.addKey, newKey]
  · intro k other
    rcases eq_or_ne k p with rfl | notParent
    · simp [linkNewKey, keyLinkName, other, added k other, Key.place]
    · simp [linkNewKey, keyLinkName, other, notParent, added k other]

theorem createKey_settled (linked : Linked lower reg) (buried : Buried reg)
    (known : p < reg.nextKey) (name : Name) (options : CreateOptions) (keyClass : Option Name) :
    Settled reg (createKey lower reg p name options keyClass).1 := by
  rcases @linkNewKey_places lower reg p known name options with ⟨fresh, rest⟩
  apply createKey_cases
  · exact Settled.of_places buried fun _ => rfl
  · intro k _
    exact Settled.of_places buried (openClass_frame (fun _ _ => rfl) reg k keyClass).key
  · intro absent
    have entered := linked.linkNewKey known absent options
    have unlink := entered.keyUnlinkName_removes reg.nextKey
    refine Settled.of_new buried ((unlink.deleted _).trans fresh) fun k other => ?_
    exact (Prod.ext (unlink.parents k other) (unlink.deleted k)).trans (rest k other)
  · intro absent _
    have frame : Frame Key.place (linkNewKey lower reg p name options)
        (createdKey lower reg p name options keyClass) :=
      createdKey_frame blind_place (fun _ _ => rfl) (fun _ _ => rfl) _ _ _ _ _
    refine Settled.of_new buried ?_ fun k other => ?_
    · exact (congrArg Prod.snd (frame.key _)).trans fresh
    · exact (frame.key k).trans (rest k other)

theorem movedKey_places (q : KeyId) :
    ((movedKey reg k p newName index).key q).place = (reg.key q).place := by
  rcases eq_or_ne q k with rfl | notChild
  · rcases eq_or_ne q p with rfl | notParent
    · simp [movedKey, Key.place]
    · simp [movedKey, Key.place, notParent]
  · rcases eq_or_ne q p with rfl | notParent
    · simp [movedKey, Key.place, notChild]
    · simp [movedKey, notChild, notParent]

theorem renameKey_settled (buried : Buried reg) :
    Settled reg (renameKey lower reg k newName).1 := by
  apply renameKey_cases
  · exact Settled.of_places buried fun _ => rfl
  · intro p index _ _ _ _
    refine Settled.of_places buried fun q => ?_
    exact ((touchKey_frame blind_place _ _).key q).trans (movedKey_places q)

/-- Only deletions move keys. -/
theorem step_settled (linked : Linked lower reg) (buried : Buried reg) (request : Request) :
    Settled reg (step lower reg request) := by
  apply step_cases blind_place (fun _ _ _ => rfl) reg linked.running
  · exact fun frame => Settled.of_places buried frame.key
  · exact fun p name options keyClass usable =>
      createKey_settled linked buried usable.1 name options keyClass
  · intro k recurse result returned
    have pruned := (delete_pruned linked buried _).1 _ _ returned
    exact ⟨pruned.buried, fun c _ => pruned.places c⟩
  · exact fun k newName _ _ => renameKey_settled buried

/-! ## Whole runs -/

/-- A registry, and the parent that each key was created under. -/
structure Tracked where
  reg : State
  /-- `none` for keys that are deleted or were never created. -/
  parent : KeyId → Option KeyId

/-- A new key is recorded when it is linked, a deleted one is forgotten. -/
def Tracked.step (lower : WChar → WChar) (state : Tracked) (request : Request) : Tracked :=
  let reg := Registry.step lower state.reg request
  { reg := reg
    parent := fun k =>
      if (reg.key k).deleted then none
      else if k < state.reg.nextKey then state.parent k
      else (reg.key k).parent }

/--
The arrays of all keys: sorted without repetition, inside the slots that are
allocated, with exactly the children that were created and not deleted, and
searchable by any casing of their names.
-/
structure SubkeysConsistent (lower : WChar → WChar) (state : Tracked) :
    Prop where
  running : state.reg.fault = false
  sorted : ∀ p, ((state.reg.key p).subkeys.map fun k =>
    foldName lower (state.reg.key k).name).Pairwise (· < ·)
  slots : ∀ p, (state.reg.key p).subkeys.length ≤ (state.reg.key p).nbSubkeys
  complete : ∀ p k, k ∈ (state.reg.key p).subkeys ↔ state.parent k = some p
  found : ∀ p k name, (findSubkey lower state.reg p name).1 = some k ↔ state.parent k = some p ∧
      foldName lower (state.reg.key k).name = foldName lower name

/-- The record agrees with the tree. -/
structure Tracked.Inv (lower : WChar → WChar) (state : Tracked) : Prop where
  linked : Linked lower state.reg
  buried : Buried state.reg
  recorded : ∀ k, state.parent k = (state.reg.key k).parent

theorem Tracked.Inv.consistent (inv : state.Inv lower) : SubkeysConsistent lower state where
  running := inv.linked.running
  sorted p := pairwise_map.mpr (inv.linked.sorted p)
  slots p := (inv.linked.room p).used
  complete p k := by
    rw [inv.recorded k]
    exact inv.linked.child_iff p k
  found p k name := by
    rw [inv.recorded k]
    exact inv.linked.findSubkey_eq_some_iff name

theorem Tracked.Inv.step (inv : state.Inv lower) (safe : RenameSafe lower state.reg request) :
    (state.step lower request).Inv lower := by
  have settled := step_settled inv.linked inv.buried request
  refine ⟨inv.linked.step safe, settled.buried, fun k => ?_⟩
  simp only [Tracked.step]
  split_ifs with deleted known
  · exact (settled.buried k deleted).symm
  · rw [inv.recorded k]
    rcases settled.places k known with same | gone
    · exact (congrArg Prod.fst same).symm
    · exact (deleted (congrArg Prod.snd gone)).elim
  · rfl

/-- A request that violates the condition damages an array at once. -/
theorem Tracked.Inv.safe_of_consistent (inv : state.Inv lower)
    (consistent : SubkeysConsistent lower (state.step lower request)) :
    RenameSafe lower state.reg request := by
  cases request with
  | renameKey k newName =>
    intro p accepted behind
    by_contra crowded
    rcases accepted.renamed inv.linked with ⟨index, fits, renamed⟩
    have touch := touchKey_frame blind_shape (movedKey state.reg k p newName index) k
    have running := consistent.running
    have sorted := consistent.sorted p
    simp only [Tracked.step, renamed] at running sorted
    rcases not_linked_movedKey inv.linked accepted.child fits behind crowded with fault | repeated
    · rw [touch.fault, fault] at running
      cases running
    · have nodup : (((touchKey (movedKey state.reg k p newName index) k).key p).subkeys).Nodup :=
        List.Nodup.of_map _ (sorted.imp fun less => less.ne)
      rw [show ((touchKey (movedKey state.reg k p newName index) k).key
        p).subkeys = _ from congrArg Shape.subkeys (touch.key p)] at nodup
      exact repeated nodup
  | _ => trivial

/--
The arrays are consistent throughout a run exactly if no accepted rename of
it gives a key a name right behind its old one, except to the last key of an
array with a spare slot.
-/
theorem subkeysConsistent_iff (state : Tracked) (start : state.Inv lower)
    (requests : List Request) :
    Visits (Tracked.step lower) (SubkeysConsistent lower) state requests ↔
      Along (Tracked.step lower) (fun state request => RenameSafe lower state.reg request) state
        requests :=
  visits_iff_along (fun _ inv => inv.consistent) (fun _ _ inv safe => inv.step safe)
    (fun _ _ inv consistent => inv.safe_of_consistent consistent)
    start requests

/-- The root key is no child and has no children. -/
theorem inv_rootRegistry : Tracked.Inv lower ⟨rootRegistry, fun _ => none⟩ := by
  have blank : ∀ k, (rootRegistry.key k).parent = none ∧ (rootRegistry.key k).subkeys = [] ∧
      (rootRegistry.key k).nbSubkeys = 0 := by
    intro k
    rw [rootRegistry]
    dsimp only
    split
    · exact ⟨rfl, rfl, rfl⟩
    · exact ⟨rfl, rfl, rfl⟩
  refine ⟨⟨rfl, fun p => ?_, fun p => ?_, fun p k => ?_,
    fun k p isChild => ?_⟩, fun k _ => (blank k).1, fun k => ?_⟩
  · rw [(blank p).2.1]
    exact List.Pairwise.nil
  · exact ⟨by rw [(blank p).2.1]; exact Nat.zero_le _, .inl (blank p).2.2⟩
  · simp [blank]
  · rw [(blank k).1] at isChild
    cases isChild
  · exact (blank k).1.symm

/-- A creation of a permanent key with a name of one letter. -/
def createLetter (letter : Char) : Request :=
  .createKey 0 [wchar letter] ⟨false, false, false, false⟩ none

/-- Creating two keys and deleting the first one. -/
theorem subkeysConsistent_iff_delete :
    Visits (Tracked.step asciiLower) (SubkeysConsistent asciiLower) ⟨rootRegistry, fun _ => none⟩
      [createLetter 'A', createLetter 'C', .deleteKey 1 false] :=
  (subkeysConsistent_iff _ inv_rootRegistry _).mpr ⟨trivial, trivial, trivial, trivial⟩

/-- The keys `A` and `C`; renaming the first one to `B` loses the second. -/
theorem renameKey_loses_sibling : ¬ Visits (Tracked.step asciiLower) (SubkeysConsistent asciiLower)
      ⟨rootRegistry, fun _ => none⟩
      [createLetter 'A', createLetter 'C', .renameKey 1 [wchar 'B']] := by
  rintro ⟨_, _, _, final⟩
  exact absurd (final.sorted 0) (by decide)

end WineRedRose.Registry
