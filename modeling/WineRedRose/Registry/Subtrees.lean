import WineRedRose.Registry.Dirty
import WineRedRose.Registry.Rename

/-!
# What a deletion removes

A deletion that succeeds removes a key with all keys below it, and it succeeds
unless one of them is predefined.  Keys elsewhere stay in their places, and
what a key holds is not changed.
-/

namespace WineRedRose.Registry

open Library.Ancestry Library.Runs

variable {lower : WChar → WChar} {reg reg' : State} {k p c : KeyId}

/-! ## Contents -/

/-- What a key holds, apart from its place, its subkeys and its marks. -/
def Key.contents (key : Key) : Name × Option Name × List KeyValue × Bool × Bool × Bool :=
  (key.name, key.keyClass, key.values, key.volatile, key.symlink, key.predef)

/-- A later state of the deletion of a key: the keys elsewhere are in their
places, and every key holds what it held. -/
structure PrunedBelow (lower : WChar → WChar) (k : KeyId) (reg reg' : State) : Prop
    extends Pruned lower reg reg' where
  elsewhere : ∀ c, ¬ Above reg c k → (reg'.key c).place = (reg.key c).place
  contents : ∀ c, (reg'.key c).contents = (reg.key c).contents

theorem Pruned.above {q : KeyId} (pruned : Pruned lower reg reg') (above : Above reg' c q) :
    Above reg c q :=
  Ancestor.mono (fun _ _ _ child => pruned.parent child) above

/-- A path that does not meet the deleted keys is still there. -/
theorem PrunedBelow.above_of_outside {q : KeyId} (pruned : PrunedBelow lower c reg reg')
    {d : KeyId} (outside : ¬ Above reg d c) (above : Above reg d q) : Above reg' d q := by
  induction above with
  | refl => exact .refl reg' _
  | up isChild _ ih =>
    have parent := congrArg Prod.fst (pruned.elsewhere _ outside)
    refine .up (parent.trans isChild) (ih fun upper => outside ?_)
    exact .up isChild upper

/-! ## Success -/

/-- None of the keys is predefined, or the deletion fails; they are gone after
a success. -/
structure Empties (scope : KeyId → Prop) (reg reg' : State) (done : Bool) : Prop where
  done_iff : done = true ↔ ∀ c, scope c → (reg.key c).predef = false
  gone : done = true → ∀ c, scope c → (reg'.key c).place = (none, true)

theorem PrunedBelow.predef (pruned : PrunedBelow lower k reg reg') (c : KeyId) :
    (reg'.key c).predef = (reg.key c).predef :=
  congrArg (fun contents => contents.2.2.2.2.2) (pruned.contents c)

theorem Pruned.gone (pruned : Pruned lower reg reg') (gone : (reg.key c).place = (none, true)) :
    (reg'.key c).place = (none, true) := by
  rcases pruned.places c with same | gone'
  · exact same.trans gone
  · exact gone'

/-- One round of the loop and the rest of it. -/
theorem Empties.trans {mid : State} {done : Bool}
    (first : Empties (fun d => Above reg d c) reg mid true) (pruned : PrunedBelow lower c reg mid)
    (later : Pruned lower mid reg')
    (second : Empties (fun d => Above mid d k ∧ d ≠ k) mid reg' done) :
    Empties (fun d => Above reg d k ∧ d ≠ k) reg reg' done where
  done_iff := by
    rw [second.done_iff]
    constructor
    · rintro free d ⟨above, proper⟩
      by_cases below : Above reg d c
      · exact first.done_iff.mp rfl d below
      · rw [← pruned.predef d]
        exact free d ⟨pruned.above_of_outside below above, proper⟩
    · rintro free d ⟨above, proper⟩
      rw [pruned.predef d]
      exact free d ⟨pruned.above above, proper⟩
  gone success d := by
    rintro ⟨above, proper⟩
    by_cases below : Above reg d c
    · exact later.gone (first.gone rfl d below)
    · exact second.gone success d ⟨pruned.above_of_outside below above, proper⟩

/-- The key goes after the keys below it. -/
theorem Empties.removeKey {mid : State} (linked : Linked lower mid)
    (below : Empties (fun c => Above reg c k ∧ c ≠ k) reg mid true)
    (free : (reg.key k).predef = false) (p : KeyId) :
    Empties (fun c => Above reg c k) reg (deleteKey.removeKey mid k p).1 true := by
  obtain ⟨-, gone, rest⟩ := linked.removeKey_places k p
  refine ⟨iff_of_true rfl fun c above => ?_, fun _ c above => ?_⟩
  · rcases eq_or_ne c k with rfl | proper
    · exact free
    · exact below.done_iff.mp rfl c ⟨above, proper⟩
  · rcases eq_or_ne c k with rfl | proper
    · exact gone
    · exact (rest c proper).trans (below.gone rfl c ⟨above, proper⟩)

theorem Buried.alive (buried : Buried reg) (parent : (reg.key k).parent = some p) :
    (reg.key k).deleted = false := by
  by_contra deleted
  rw [buried k (Bool.not_eq_false _ ▸ deleted)] at parent
  cases parent

end WineRedRose.Registry
