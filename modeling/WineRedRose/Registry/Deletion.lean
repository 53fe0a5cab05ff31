import WineRedRose.Registry.Tree

/-!
# Deleting keys

`delete_key` removes a key, or with `recurse` all keys below it first.  It
keeps the arrays, takes deleted keys out of the tree and returns: every key
below costs two calls, so the fuel of the requests is enough.
-/

namespace WineRedRose.Registry

open Finset

variable {lower : WChar → WChar} {reg reg' : State} {k p : KeyId}

theorem Linked.removeKey (linked : Linked lower reg) (k p : KeyId) :
    Linked lower (deleteKey.removeKey reg k p).1 := by
  have marked := linked.of_frame (Frame.modifyKey reg k (fun key => { key with deleted := true })
      fun _ => rfl)
  exact (marked.unlinked k).of_frame (touchKey_frame blind_shape _ _)

variable {c : KeyId}

section

variable (linked : Linked lower reg)
include linked

theorem Linked.deleteKey {recurse : Bool} {fuel : Nat} {result : State × Status × Bool}
    (returned : deleteKey recurse fuel reg k = some result) :
    Linked lower result.1 := by
  apply (deleteKey_keeps (Linked lower) (fun _ => True) ?_ ?_ fuel).1
    recurse reg k result linked trivial returned
  · intro reg k c _ _ _
    trivial
  · intro before reg k p _ _ linked _
    exact linked.removeKey k p

/-- Deleted keys are not in the tree. -/
def Buried (reg : State) : Prop := ∀ k, (reg.key k).deleted = true → (reg.key k).parent = none

/-- A key is taken out of the tree; the others stay where they are. -/
structure Removes (k : KeyId) (reg reg' : State) : Prop where
  nextKey : reg'.nextKey = reg.nextKey
  removed : (reg'.key k).parent = none
  parents : ∀ c, c ≠ k → (reg'.key c).parent = (reg.key c).parent
  deleted : ∀ c, (reg'.key c).deleted = (reg.key c).deleted

theorem Linked.keyUnlinkName_removes (k : KeyId) :
    Removes k reg (Registry.keyUnlinkName reg k) := by
  rcases parent : (reg.key k).parent with _ | p
  · have same : Registry.keyUnlinkName reg k = reg := by simp [Registry.keyUnlinkName, parent]
    rw [same]
    exact ⟨rfl, parent, fun _ _ => rfl, fun _ => rfl⟩
  · have changes := keyUnlinkName_changes linked parent
    have other : p ≠ k := linked.parent_ne parent
    refine ⟨changes.nextKey, ?_, fun c notChild => changes.parent notChild, fun c => ?_⟩
    · simp [linked.keyUnlinkName_eq parent]
    · rw [linked.keyUnlinkName_eq parent]
      rcases eq_or_ne c k with rfl | notChild
      · simp [other.symm]
      · rcases eq_or_ne c p with rfl | notParent
        · simp [notChild]
        · simp [notChild, notParent]

/-- Where a key is and whether it is deleted. -/
def Key.place (key : Key) : Option KeyId × Bool := (key.parent, key.deleted)

omit linked in
theorem blind_place : Blind Key.place := fun _ _ _ _ => rfl

/-- The removal of a key takes it out of the tree and nothing else. -/
theorem Linked.removeKey_places (k p : KeyId) : (deleteKey.removeKey reg k p).1.nextKey =
      reg.nextKey ∧ ((deleteKey.removeKey reg k p).1.key k).place = (none, true) ∧ ∀ c, c ≠ k →
      ((deleteKey.removeKey reg k p).1.key c).place = (reg.key c).place := by
  have mark : Frame Key.shape reg (reg.modifyKey k fun key => { key with deleted := true }) :=
    Frame.modifyKey _ _ _ fun _ => rfl
  have unlink := (linked.of_frame mark).keyUnlinkName_removes k
  have touch := touchKey_frame blind_place (Registry.keyUnlinkName
      (reg.modifyKey k fun key => { key with deleted := true }) k) p
  refine ⟨touch.nextKey.trans (unlink.nextKey.trans mark.nextKey), ?_, fun c other => ?_⟩
  · refine (touch.key k).trans (Prod.ext unlink.removed ?_)
    refine (unlink.deleted k).trans ?_
    rw [State.key_modifyKey_self]
  · have marked := congrArg Shape.parent (mark.key c)
    refine (touch.key c).trans (Prod.ext ((unlink.parents c other).trans marked) ?_)
    refine (unlink.deleted c).trans ?_
    rw [State.key_modifyKey_of_ne _ other]
    rfl

/--
A later state of a deletion.  Keys that are not in their old place are deleted
and out of the tree.
-/
structure Pruned (lower : WChar → WChar) (reg reg' : State) : Prop where
  linked : Linked lower reg'
  buried : Buried reg'
  nextKey : reg'.nextKey = reg.nextKey
  places : ∀ c, (reg'.key c).place = (reg.key c).place ∨ (reg'.key c).place = (none, true)

omit linked in
/-- No key gets a new parent. -/
theorem Pruned.parent (pruned : Pruned lower reg reg') (child : (reg'.key c).parent = some p) :
    (reg.key c).parent = some p := by
  rcases pruned.places c with same | gone
  · exact (congrArg Prod.fst same).symm.trans child
  · rw [show (reg'.key c).parent = none from congrArg Prod.fst gone] at child
    cases child

omit linked in
theorem Pruned.removeKey {start : State} (pruned : Pruned lower start reg) (k p : KeyId) :
    Pruned lower start (deleteKey.removeKey reg k p).1 := by
  rcases pruned.linked.removeKey_places k p with ⟨nextKey, gone, rest⟩
  refine ⟨pruned.linked.removeKey k p, fun c deleted => ?_,
    nextKey.trans pruned.nextKey, fun c => ?_⟩
  · rcases eq_or_ne c k with rfl | other
    · exact congrArg Prod.fst gone
    · have same := rest c other
      exact (congrArg Prod.fst same).trans
        (pruned.buried c ((congrArg Prod.snd same).symm.trans deleted))
  · rcases eq_or_ne c k with rfl | other
    · exact .inr gone
    · rw [rest c other]
      exact pruned.places c

theorem Pruned.refl (buried : Buried reg) :
    Pruned lower reg reg :=
  ⟨linked, buried, rfl, fun _ => .inl rfl⟩

/-- Both functions of a deletion only take keys out. -/
theorem delete_pruned (buried : Buried reg) (fuel : Nat) :
    (∀ recurse result, deleteKey recurse fuel reg k = some result → Pruned lower reg result.1) ∧
      ∀ result, deleteSubkeys fuel reg k = some result → Pruned lower reg result.1 := by
  have keeps := deleteKey_keeps (Pruned lower reg) (fun _ => True) (fun _ _ _ _ _ _ => trivial)
    (fun _ _ c p _ _ pruned _ => pruned.removeKey c p) fuel
  have start := Pruned.refl linked buried
  constructor
  · intro recurse result returned
    exact keeps.1 recurse reg k result start trivial returned
  · intro result returned
    exact keeps.2 reg k result start trivial returned

end

end WineRedRose.Registry
