import WineRedRose.Registry.Model

/-!
# What the registry functions leave alone

Most functions change a few fields of a few keys.  A frame says that a view
of all keys, the number of keys and the branches stay the same and that
nothing went wrong.  The functions that only keep the books (`make_dirty`, `make_clean`,
`touch_key`) preserve every view that does not look at the books.
-/

namespace WineRedRose.Registry

/-! ## Changing one key -/

@[simp]
theorem State.key_setKey_self (reg : State) (k : KeyId) (key : Key) :
    (reg.setKey k key).key k = key := by
  simp [State.setKey]

@[simp]
theorem State.key_setKey_of_ne (reg : State) {k q : KeyId} (other : q ≠ k) (key : Key) :
    (reg.setKey k key).key q = reg.key q := by
  simp [State.setKey, other]

@[simp]
theorem State.key_modifyKey_self (reg : State) (k : KeyId) (change : Key → Key) :
    (reg.modifyKey k change).key k = change (reg.key k) :=
  reg.key_setKey_self k _

@[simp]
theorem State.key_modifyKey_of_ne (reg : State) {k q : KeyId} (other : q ≠ k) (change : Key → Key) :
    (reg.modifyKey k change).key q = reg.key q :=
  reg.key_setKey_of_ne other _

/-! ## Frames -/

section Frames

variable {View : Type*} {view : Key → View} {reg reg' reg'' : State}

/-- All keys look the same, and there are no new ones. -/
structure Frame (view : Key → View) (reg reg' : State) : Prop where
  key : ∀ k, view (reg'.key k) = view (reg.key k)
  nextKey : reg'.nextKey = reg.nextKey
  saveBranches : reg'.saveBranches = reg.saveBranches
  fault : reg'.fault = reg.fault

theorem Frame.refl (view : Key → View) (reg : State) : Frame view reg reg :=
  ⟨fun _ => rfl, rfl, rfl, rfl⟩

theorem Frame.trans (first : Frame view reg reg') (second : Frame view reg' reg'') :
    Frame view reg reg'' :=
  ⟨fun k => (second.key k).trans (first.key k), second.nextKey.trans first.nextKey,
    second.saveBranches.trans first.saveBranches,
    second.fault.trans first.fault⟩

/-- A coarser view of the keys is the same as well. -/
theorem Frame.comp {View' : Type*} (frame : Frame view reg reg') (coarse : View → View') :
    Frame (fun key => coarse (view key)) reg reg' :=
  ⟨fun k => congrArg coarse (frame.key k), frame.nextKey, frame.saveBranches, frame.fault⟩

theorem Frame.setKey {k : KeyId} {key : Key} (same : view key = view (reg.key k)) :
    Frame view reg (reg.setKey k key) := by
  refine ⟨fun q => ?_, rfl, rfl, rfl⟩
  by_cases here : q = k
  · subst here
    rw [State.key_setKey_self, same]
  · rw [State.key_setKey_of_ne reg here]

theorem Frame.modifyKey (reg : State) (k : KeyId) (change : Key → Key)
    (same : ∀ key, view (change key) = view key) :
    Frame view reg (reg.modifyKey k change) :=
  Frame.setKey (same (reg.key k))

theorem Frame.foldl {f : State → KeyId → State} (each : ∀ reg k, Frame view reg (f reg k))
    (ks : List KeyId) (reg : State) : Frame view reg (ks.foldl f reg) := by
  induction ks generalizing reg with
  | nil => exact Frame.refl view reg
  | cons k ks ih => exact (each reg k).trans (ih (f reg k))

end Frames

/-! ## The functions that keep the books -/

/-- The view does not depend on the flags and times of saving. -/
def Blind {View : Type*} (view : Key → View) : Prop :=
  ∀ (key : Key) (dirty : Bool) (modif : Int) (timestampCounter : Nat), view
      { key with
        dirty := dirty
        modif := modif
        timestampCounter := timestampCounter } = view key

section Books

variable {View : Type*} {view : Key → View}

section

variable (blind : ∀ (key : Key) (timestampCounter : Nat),
  view { key with dirty := true, timestampCounter := timestampCounter } = view key)
include blind

theorem markDirty_frame (reg : State) (k : KeyId) : Frame view reg (reg.markDirty k) :=
  Frame.modifyKey reg k _ fun key => blind key _

theorem makeDirtyLoop_frame (fuel : Nat) (k : Option KeyId) (reg : State) :
    Frame view reg (makeDirtyLoop fuel k reg) := by
  induction fuel generalizing k reg with
  | zero => exact Frame.refl view reg
  | succ fuel ih =>
    cases k with
    | none => exact Frame.refl view reg
    | some k =>
      rw [makeDirtyLoop]
      split_ifs with stop
      · exact Frame.refl view reg
      · exact (markDirty_frame blind reg k).trans (ih _ _)

end

section

variable (blind : Blind view)
include blind

theorem makeDirty_frame (reg : State) (k : KeyId) : Frame view reg (makeDirty reg k) := by
  have counted : Frame view reg
      { reg with changeTimestampCounter := reg.changeTimestampCounter + 1 } :=
    ⟨fun _ => rfl, rfl, rfl, rfl⟩
  exact counted.trans (makeDirtyLoop_frame (fun key => blind key true key.modif) _ _ _)

theorem touchKey_frame (reg : State) (k : KeyId) : Frame view reg (touchKey reg k) := by
  have touched : Frame view reg
      (reg.modifyKey k fun key => { key with modif := reg.currentTime }) :=
    Frame.modifyKey reg k _ fun key => blind key key.dirty _ key.timestampCounter
  exact touched.trans (makeDirty_frame blind _ k)

theorem makeClean_frame (timestampCounter fuel : Nat) (reg : State) (k : KeyId) :
    Frame view reg (makeClean timestampCounter fuel reg k) := by
  induction fuel generalizing reg k with
  | zero => exact Frame.refl view reg
  | succ fuel ih =>
    simp only [makeClean]
    split_ifs
    · exact Frame.refl view reg
    · exact (Frame.setKey (blind _ false _ _)).trans (Frame.foldl ih _ _)
    · exact Frame.foldl ih _ _
    · exact Frame.refl view reg

theorem flushKeyDone_frame (reg : State) (branch timestampCounter : Nat) :
    Frame view reg (flushKeyDone reg branch timestampCounter).1 := by
  rw [flushKeyDone]
  split
  · exact makeClean_frame blind _ _ _ _
  · exact Frame.refl view reg

theorem saveBranch_frame (reg : State) (k : KeyId) (written : Bool) :
    Frame view reg (saveBranch reg k written).1 := by
  simp only [saveBranch]
  split_ifs
  · exact makeClean_frame blind _ _ _ _
  · exact Frame.refl view reg
  · exact Frame.refl view reg

end

end Books

/-! ## The outcomes of the requests -/

section Outcomes

variable {lower : WChar → WChar}

/-- The state after a key was created below `p`. -/
def createdKey (lower : WChar → WChar) (reg : State) (p : KeyId) (name : Name)
    (options : CreateOptions) (keyClass : Option Name) : State :=
  let flagged := (linkNewKey lower reg p name options).modifyKey reg.nextKey (creationFlag options)
  let touched := if options.absolute then flagged else touchKey flagged p
  touched.modifyKey reg.nextKey fun key => { key with keyClass := keyClass }

/-- What happens to a new key after it is linked. -/
theorem createdKey_frame {View : Type*} {view : Key → View} (blind : Blind view)
    (flagless : ∀ (key : Key) volatile, view { key with volatile := volatile } = view key)
    (classless : ∀ (key : Key) keyClass, view { key with keyClass := keyClass } = view key)
    (reg : State) (p : KeyId) (name : Name) (options : CreateOptions) (keyClass : Option Name) :
    Frame view (linkNewKey lower reg p name options)
      (createdKey lower reg p name options keyClass) := by
  have flagged : Frame view (linkNewKey lower reg p name options)
      ((linkNewKey lower reg p name options).modifyKey reg.nextKey (creationFlag options)) := by
    refine Frame.modifyKey _ _ _ fun key => ?_
    rw [creationFlag]
    split
    · exact flagless key true
    · exact blind key true _ _
  rw [createdKey]
  refine Frame.trans ?_ (Frame.modifyKey _ _ _ fun key => classless key _)
  split
  · exact flagged
  · exact flagged.trans (touchKey_frame blind _ _)

theorem openClass_frame {View : Type*} {view : Key → View}
    (classless : ∀ (key : Key) keyClass, view { key with keyClass := keyClass } = view key)
    (reg : State) (k : KeyId) (keyClass : Option Name) :
    Frame view reg (reg.modifyKey k (openClass keyClass)) := by
  refine Frame.modifyKey _ _ _ fun key => ?_
  cases keyClass with
  | none => exact classless key _
  | some text => exact classless key _

variable {motive : State → Prop}

/-- A creation fails, opens a key that was there, or makes a new one. -/
theorem createKey_cases (reg : State) (p : KeyId) (name : Name)
    (options : CreateOptions) (keyClass : Option Name)
    (same : motive reg)
    (opened : ∀ k, (findSubkey lower reg p name).1 = some k →
      motive (reg.modifyKey k (openClass keyClass)))
    (refused : (findSubkey lower reg p name).1 = none →
      motive (keyUnlinkName (linkNewKey lower reg p name options) reg.nextKey))
    (created : (findSubkey lower reg p name).1 = none →
      (options.volatile = false → options.absolute = false →
        ((linkNewKey lower reg p name options).key p).volatile = false) →
      motive (createdKey lower reg p name options keyClass)) :
    motive (createKey lower reg p name options keyClass).1 := by
  rw [createKey]
  split
  · exact same
  split
  · exact same
  split
  · exact same
  split
  · next k index found =>
      split
      · exact opened k (by rw [found])
      · exact same
  · next index found =>
      have absent : (findSubkey lower reg p name).1 = none := by rw [found]
      rw [createKeyObject]
      by_cases refusal : (!options.volatile && !options.absolute &&
          ((linkNewKey lower reg p name options).key p).volatile) = true
      · rw [if_pos refusal]
        exact refused absent
      · rw [if_neg refusal]
        refine created absent fun permanent relative => ?_
        simpa [permanent, relative] using refusal

/-- A renaming fails or moves the key inside the array of its parent. -/
theorem renameKey_cases (reg : State) (k : KeyId) (newName : Name) (same : motive reg)
    (renamed : ∀ p index, IsElement newName → (reg.key k).parent = some p →
      findSubkey lower reg p newName = (none, index) →
      ¬ ((reg.key p).wow6432node = some k ∨ isWow6432node lower newName) →
      motive (touchKey (movedKey reg k p newName index) k)) :
    motive (renameKey lower reg k newName).1 := by
  rw [renameKey]
  split
  · exact same
  next element =>
  split
  · exact same
  next p parent =>
  split
  · exact same
  next index missing =>
  split
  · exact same
  next noWow =>
  exact renamed p index (not_not.mp element) parent missing noWow

/-- Setting a value fails or changes the values of the key. -/
theorem setValue_cases (reg : State) (k : KeyId) (name : Name)
    (type : BitVec 32) (data : List (BitVec 8))
    (same : motive reg)
    (changed : ∀ values nbValues, motive (touchKey (reg.setKey k
          { reg.key k with values := values, nbValues := nbValues }) k)) :
    motive (setValue lower reg k name type data).1 := by
  rw [setValue]
  split
  · exact same
  split
  · split
    · exact same
    split
    · exact same
    · exact changed _ _
  · split
    · exact same
    rw [insertValue]
    by_cases long : maxValueLen < name.length
    · rw [if_pos long]
      exact same
    · rw [if_neg long]
      exact changed _ _

/-- Deleting a value fails or changes the values of the key. -/
theorem deleteValue_cases (reg : State) (k : KeyId) (name : Name) (same : motive reg)
    (changed : ∀ values (nbValues : Key → Nat), motive ((touchKey
        (reg.setKey k { reg.key k with values := values }) k).modifyKey k
          fun key => { key with nbValues := nbValues key })) :
    motive (deleteValue lower reg k name).1 := by
  rw [deleteValue]
  split
  · exact same
  split
  · exact same
  · next value index found =>
      exact changed _ fun key =>
        shrinkArray minValues key.nbValues (removeValue (reg.key k).values index value.order).length

section Values

variable {View : Type*} {view : Key → View}

section

variable (blind : Blind view)
  (valueless : ∀ (key : Key) values nbValues,
    view { key with values := values, nbValues := nbValues } = view key)
  (reg : State) (k : KeyId) (name : Name)
include blind valueless reg k name

theorem setValue_frame (type : BitVec 32) (data : List (BitVec 8)) :
    Frame view reg (setValue lower reg k name type data).1 := by
  apply setValue_cases
  · exact Frame.refl view reg
  · intro values nbValues
    exact Frame.trans (Frame.setKey (valueless _ _ _)) (touchKey_frame blind _ _)

theorem deleteValue_frame : Frame view reg (deleteValue lower reg k name).1 := by
  apply deleteValue_cases
  · exact Frame.refl view reg
  · intro values nbValues
    refine Frame.trans ?_ (Frame.modifyKey _ _ _ fun key => valueless key key.values _)
    exact Frame.trans (Frame.setKey (valueless _ _ (reg.key k).nbValues)) (touchKey_frame blind _ _)

omit k name in
/-- A request creates, deletes or renames a key, or leaves the tree of keys alone. -/
theorem step_cases (running : reg.fault = false) (request : Request)
    (framed : ∀ {later}, Frame view reg later → motive later)
    (created : ∀ p name options keyClass, reg.Usable p →
      motive (createKey lower reg p name options keyClass).1)
    (deleted : ∀ k recurse result, deleteKey recurse (deleteFuel reg) reg k = some result →
      motive result.1)
    (renamed : ∀ k newName, request = .renameKey k newName → reg.Usable k →
      motive (renameKey lower reg k newName).1) : motive (step lower reg request) := by
  have same : motive reg := framed (Frame.refl view reg)
  rw [step.eq_def, running, if_neg Bool.false_ne_true]
  cases request with
  | createKey p name options keyClass =>
    dsimp only
    split_ifs with usable
    · exact created p name options keyClass usable
    · exact same
  | deleteKey k recurse =>
    dsimp only
    split_ifs
    · split
      · next returned => exact deleted k recurse _ returned
      · exact same
    · exact same
  | renameKey k newName =>
    dsimp only
    split_ifs with usable
    · exact renamed k newName rfl usable
    · exact same
  | setValue k name type data =>
    dsimp only
    split_ifs
    · exact framed (setValue_frame blind valueless _ _ _ _ _)
    · exact same
  | deleteValue k name =>
    dsimp only
    split_ifs
    · exact framed (deleteValue_frame blind valueless _ _ _)
    · exact same
  | flushKeyDone branch timestampCounter => exact framed (flushKeyDone_frame blind _ _ _)
  | saveBranch branch written =>
    dsimp only
    split
    · exact framed (saveBranch_frame blind _ _ _)
    · exact same
  | setTime time => exact framed ⟨fun _ => rfl, rfl, rfl, running.symm⟩

end

end Values

/--
What every removal of a single key keeps, a deletion keeps.  The keys that it
removes are the first one and the ones that it finds as subkeys.
-/
theorem deleteKey_keeps (inv : State → Prop) (scope : KeyId → Prop)
    (child : ∀ reg k c, inv reg → scope k → c ∈ (reg.key k).subkeys → scope c)
    (remove : ∀ before reg k p, inv before → (before.key k).parent = some p → inv reg → scope k →
      inv (deleteKey.removeKey reg k p).1)
    (fuel : Nat) :
    (∀ recurse reg k result, inv reg → scope k →
        deleteKey recurse fuel reg k = some result → inv result.1) ∧
      ∀ reg k result, inv reg → scope k →
        deleteSubkeys fuel reg k = some result → inv result.1 := by
  induction fuel with
  | zero =>
    constructor
    · intro recurse reg k result start within returned
      simp [deleteKey] at returned
    · intro reg k result start within returned
      simp [deleteSubkeys] at returned
  | succ fuel ih =>
    rcases ih with ⟨ihKey, ihSubkeys⟩
    constructor
    · intro recurse reg k result start within returned
      rw [deleteKey] at returned
      split at returned
      · cases returned
        exact start
      split at returned
      · cases returned
        exact start
      next p parent =>
      split at returned
      · cases returned
        exact start
      split at returned
      · split at returned
        · cases returned
        · next below =>
            cases returned
            exact ihSubkeys _ _ _ start within below
        · next below =>
            cases returned
            exact remove reg _ k p start parent (ihSubkeys _ _ _ start within below) within
      split at returned
      · cases returned
        exact start
      · cases returned
        exact remove reg reg k p start parent start within
    · intro reg k result start within returned
      rw [deleteSubkeys] at returned
      split at returned
      · cases returned
        exact start
      next c last =>
      have found := child reg k c start within (List.mem_of_getLast? last)
      split at returned
      · cases returned
      · next deleted =>
          cases returned
          exact ihKey _ _ _ _ start found deleted
      · next deleted => exact ihSubkeys _ _ _ (ihKey _ _ _ _ start found deleted) within returned

end Outcomes

end WineRedRose.Registry
