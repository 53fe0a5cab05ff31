import WineRedRose.Registry.Dirty
import WineRedRose.Registry.Rename

/-!
# What requests change, and what they mark

What is saved of a key is its name, class, link flag, time and values and the
names of its subkeys.  A request edits a few keys and then touches one of
them.  `Covers` says that every key that was edited is marked up to the root
of its branch afterwards.  For each request this module gives a condition on
the paths of the keys that it edits under which it does.
-/

namespace WineRedRose.Registry

open Library.Ancestry Library.SortedArray Key State Option

variable {lower : WChar → WChar} {reg reg' reg'' : State} {k p q : KeyId}

/-! ## Contents -/

/-- What a flush writes of a key. -/
structure SavedKey where
  name : Name
  keyClass : Option Name
  symlink : Bool
  modif : Int
  values : List KeyValue
  children : List Name
deriving DecidableEq

def savedKey (reg : State) (k : KeyId) : SavedKey :=
  let key := reg.key k
  { name := key.name
    keyClass := key.keyClass
    symlink := key.symlink
    modif := key.modif
    values := key.values
    children := key.subkeys.map fun c => (reg.key c).name }

/-- The key is new, or what is saved of it is different. -/
def Changed (reg reg' : State) (k : KeyId) : Prop :=
  k < reg'.nextKey ∧ (reg.nextKey ≤ k ∨ savedKey reg' k ≠ savedKey reg k)

instance (reg reg' : State) (k : KeyId) : Decidable (Changed reg reg' k) :=
  inferInstanceAs (Decidable (_ ∧ _))

/-- Parents are older than their children. -/
def Ordered (reg : State) : Prop := ∀ k p, (reg.key k).parent = some p → p < k

theorem Linked.ordered (linked : Linked lower reg) : Ordered reg :=
  fun k p isChild => (linked.order k p isChild).1

/-! ## Edits -/

/-- Only the keys in the set are edited, and no mark is lost. -/
structure Edits (edited : KeyId → Prop) (reg reg' : State) : Prop where
  nextKey : reg.nextKey ≤ reg'.nextKey
  branches : reg'.saveBranches = reg.saveBranches
  parents : ∀ k p, k < reg.nextKey → (reg'.key k).parent = some p → (reg.key k).parent = some p
  dirty : ∀ k, k < reg.nextKey → (reg.key k).dirty = true → (reg'.key k).dirty = true
  volatile : ∀ k, k < reg.nextKey → (reg'.key k).volatile = (reg.key k).volatile
  changed : ∀ k, Changed reg reg' k → edited k

/-- Every key that was edited is marked. -/
def Covers (reg reg' : State) : Prop := Edits (Marked reg') reg reg'

variable {edited : KeyId → Prop}

theorem Edits.covers (edits : Edits edited reg reg') (marked : ∀ k, edited k → Marked reg' k) :
    Covers reg reg' :=
  { edits with changed := fun k changed => marked k (edits.changed k changed) }

theorem Covers.refl (reg : State) : Covers reg reg where
  nextKey := le_rfl
  branches := rfl
  parents _ _ _ isChild := isChild
  dirty _ _ dirty := dirty
  volatile _ _ := rfl
  changed k changed := by
    rcases changed with ⟨known, new | differs⟩
    · exact (Nat.not_lt.mpr new known).elim
    · exact (differs rfl).elim

section

variable (edits : Edits edited reg reg') (ordered : Ordered reg')
include edits ordered

theorem Edits.above (known : k < reg.nextKey) (above : Above reg' k q) :
    Above reg k q :=
  Ancestor.mono (fun x p upper => edits.parents x p ((upper.le ordered).trans_lt known)) above

/-- A path that was dirty before still is. -/
theorem Edits.dirtyTo {r : KeyId} (ordered₀ : Ordered reg) (known : k < reg.nextKey)
    (path : DirtyTo reg k r) : DirtyTo reg' k r := by
  have older : ∀ q, Above reg k q → q < reg.nextKey :=
    fun q above => (above.le ordered₀).trans_lt known
  refine DirtyTo.mono (fun q q' upper above => ?_) (fun q upper => ?_) path
  · exact edits.above ordered (older q upper) above
  · exact edits.dirty q (older q upper)

/-- A key that was marked before still is. -/
theorem Edits.marked (ordered₀ : Ordered reg) (known : k < reg.nextKey) (marked : Marked reg k) :
    Marked reg' k := by
  rcases marked with isVolatile | dirty
  · exact .inl ((edits.volatile k known).trans isVolatile)
  · refine .inr fun r isRoot => ?_
    rw [edits.branches] at isRoot
    exact edits.dirtyTo ordered ordered₀ known (dirty r isRoot)

end

theorem Covers.trans (first : Covers reg reg') (second : Covers reg' reg'')
    (ordered' : Ordered reg') (ordered'' : Ordered reg'') :
    Covers reg reg'' where
  nextKey := first.nextKey.trans second.nextKey
  branches := second.branches.trans first.branches
  parents k p known isChild :=
    first.parents k p known (second.parents k p (known.trans_le first.nextKey) isChild)
  dirty k known dirty := second.dirty k (known.trans_le first.nextKey) (first.dirty k known dirty)
  volatile k known := (second.volatile k (known.trans_le first.nextKey)).trans
      (first.volatile k known)
  changed k changed := by
    by_cases later : Changed reg' reg'' k
    · exact second.changed k later
    · -- the key is what it was after the first part
      have known : k < reg'.nextKey := by
        by_contra new
        exact later ⟨changed.1, .inl (not_lt.mp new)⟩
      have same : savedKey reg'' k = savedKey reg' k := by
        by_contra differs
        exact later ⟨changed.1, .inr differs⟩
      have earlier : Changed reg reg' k := by
        rw [Changed, same] at changed
        exact ⟨known, changed.2⟩
      exact second.marked ordered'' ordered' known (first.changed k earlier)

/-! ## Touching -/

/-- A view of everything that is saved but the time. -/
def Key.texts (key : Key) : Name × Option Name × Bool × List KeyValue × List KeyId :=
  (key.name, key.keyClass, key.symlink, key.values, key.subkeys)

/-- Keys with the same texts, time and children's names are saved the same. -/
theorem savedKey_congr (texts : (reg'.key k).texts = (reg.key k).texts)
    (modif : (reg'.key k).modif = (reg.key k).modif)
    (names : ∀ c ∈ (reg.key k).subkeys, (reg'.key c).name = (reg.key c).name) :
    savedKey reg' k = savedKey reg k := by
  simp only [Key.texts, Prod.mk.injEq] at texts
  rcases texts with ⟨name, keyClass, symlink, values, subkeys⟩
  simp only [savedKey, name, keyClass, symlink, values, subkeys, modif, SavedKey.mk.injEq, true_and]
  exact List.map_congr_left names

section

variable (nextKey : reg.nextKey ≤ reg'.nextKey) (branches : reg'.saveBranches = reg.saveBranches)
  (new : ∀ q, reg.nextKey ≤ q → q < reg'.nextKey → edited q)
  (kept : ∀ q, q < reg.nextKey → ¬ edited q → (reg'.key q).texts = (reg.key q).texts ∧
    (reg'.key q).modif = (reg.key q).modif ∧
      ∀ c ∈ (reg.key q).subkeys, (reg'.key c).name = (reg.key c).name)
include nextKey branches new kept

/-- Edits are found by comparing the old keys one by one. -/
theorem Edits.of_keys
    (parents : ∀ q r, q < reg.nextKey → (reg'.key q).parent = some r → (reg.key q).parent = some r)
    (flags : ∀ q, q < reg.nextKey → (reg'.key q).marks.2 = (reg.key q).marks.2) :
    Edits edited reg reg' where
  nextKey := nextKey
  branches := branches
  parents := parents
  dirty q known := (congrArg Prod.snd (flags q known)).trans
  volatile q known := congrArg Prod.fst (flags q known)
  changed q changed := by
    by_contra other
    rcases changed with ⟨known, isNew | differs⟩
    · exact other (new q isNew known)
    · rcases Nat.lt_or_ge q reg.nextKey with old | isNew
      · rcases kept q old other with ⟨texts, modif, names⟩
        exact differs (savedKey_congr texts modif names)
      · exact other (new q isNew known)

theorem Edits.of_marks (marks : ∀ q, q < reg.nextKey → (reg'.key q).marks = (reg.key q).marks) :
    Edits edited reg reg' :=
  .of_keys nextKey branches new kept
    (fun q _ known isChild => (parent_of_marks (marks q known)).symm.trans isChild)
    fun q known => congrArg Prod.snd (marks q known)

end

/-- Edits go on with a change of edited keys that loses no mark. -/
theorem Edits.step (edits : Edits edited reg reg') (nextKey : reg''.nextKey = reg'.nextKey)
    (branches : reg''.saveBranches = reg'.saveBranches)
    (marks : ∀ q, q < reg.nextKey → (reg''.key q).parent = (reg'.key q).parent ∧
      (reg''.key q).volatile = (reg'.key q).volatile ∧
        ((reg'.key q).dirty = true → (reg''.key q).dirty = true))
    (saved : ∀ q, ¬ edited q → savedKey reg'' q = savedKey reg' q) : Edits edited reg reg'' where
  nextKey := nextKey ▸ edits.nextKey
  branches := branches.trans edits.branches
  parents q p known isChild := edits.parents q p known ((marks q known).1.symm.trans isChild)
  dirty q known dirty := (marks q known).2.2 (edits.dirty q known dirty)
  volatile q known := (marks q known).2.1.trans (edits.volatile q known)
  changed q changed := by
    by_contra other
    rw [Changed, saved q other, nextKey] at changed
    exact other (edits.changed q changed)

theorem savedKey_touchKey_of_ne (other : q ≠ k) : savedKey (touchKey reg k) q = savedKey reg q := by
  have frame := touchKey_frame (show Blind Key.texts from fun _ _ _ _ => rfl) reg k
  apply savedKey_congr (frame.key q)
  · refine ((@makeDirtyLoop_frame _ Key.modif (fun _ _ => rfl) _ _ _).key q).trans ?_
    dsimp only
    rw [key_modifyKey_of_ne _ other]
  · intro c _
    exact congrArg Prod.fst (frame.key c)

theorem touchKey_place (reg : State) (k : KeyId) :
    Frame (fun key => (key.parent, key.volatile)) reg (touchKey reg k) :=
  touchKey_frame (fun _ _ _ _ => rfl) reg k

theorem Edits.touchKey (edits : Edits edited reg reg') (isEdited : edited k) :
    Edits edited reg (touchKey reg' k) := by
  have frame := touchKey_place reg' k
  apply edits.step frame.nextKey frame.saveBranches
  · intro q _
    have same := frame.key q
    exact ⟨congrArg Prod.fst same, congrArg Prod.snd same, touchKey_dirty k⟩
  · intro q other
    exact savedKey_touchKey_of_ne fun same => other (same ▸ isEdited)

/-- A change of fields that are neither saved nor marks. -/
theorem Edits.of_frame (edits : Edits edited reg reg')
    (frame : Frame (fun key => (key.marks, key.texts, key.modif)) reg' reg'') :
    Edits edited reg reg'' := by
  have marks : ∀ q, (reg''.key q).marks = (reg'.key q).marks :=
    fun q => congrArg Prod.fst (frame.key q)
  have texts : ∀ q, (reg''.key q).texts = (reg'.key q).texts :=
    fun q => congrArg (fun view => view.2.1) (frame.key q)
  apply edits.step frame.nextKey frame.saveBranches
  · intro q _
    exact ⟨parent_of_marks (marks q), volatile_of_marks (marks q), (dirty_of_marks (marks q)).trans⟩
  · intro q _
    exact savedKey_congr (texts q) (congrArg (fun view => view.2.2) (frame.key q))
      fun c _ => congrArg Prod.fst (texts c)

/-- New keys are edited, so they can be changed further. -/
theorem Edits.modifyKey {change : Key → Key} (edits : Edits edited reg reg') (isEdited : edited k)
    (fresh : reg.nextKey ≤ k) (named : ∀ key, (change key).name = key.name) :
    Edits edited reg (reg'.modifyKey k change) := by
  have names : ∀ q, ((reg'.modifyKey k change).key q).name = (reg'.key q).name := by
    intro q
    rcases eq_or_ne q k with rfl | other
    · rw [key_modifyKey_self]
      exact named _
    · rw [key_modifyKey_of_ne _ other]
  have same : ∀ q, q ≠ k → (reg'.modifyKey k change).key q = reg'.key q :=
    fun q other => key_modifyKey_of_ne _ other _
  refine edits.step rfl rfl ?_ ?_
  · intro q known
    rw [same q (known.trans_le fresh).ne]
    exact ⟨rfl, rfl, id⟩
  · intro q other
    have old := same q fun equal => other (equal ▸ isEdited)
    exact savedKey_congr (by rw [old]) (by rw [old]) fun c _ => names c

theorem Marked.of_frame (frame : Frame Key.marks reg reg') (marked : Marked reg k) :
    Marked reg' k := by
  rcases marked with isVolatile | dirty
  · exact .inl ((volatile_of_marks (frame.key k)).trans isVolatile)
  · exact .inr (dirty.congr frame.saveBranches fun q _ => frame.key q)

theorem Ready.of_frame (frame : Frame Key.marks reg reg') (ready : Ready reg k) : Ready reg' k :=
  ready.congr frame.saveBranches fun q _ => frame.key q

theorem Ordered.of_frame (frame : Frame Key.marks reg reg') (ordered : Ordered reg) :
    Ordered reg' :=
  (frame.comp Prod.fst).order ordered

/-! ## Values -/

/-- A key is edited in place. -/
theorem edits_setKey {key : Key} (marks : key.marks = (reg.key k).marks)
    (name : key.name = (reg.key k).name) :
    Edits (· = k) reg (reg.setKey k key) := by
  have frame : Frame (fun key => (key.marks, key.name)) reg (reg.setKey k key) :=
    Frame.setKey (by rw [marks, name])
  refine Edits.of_marks le_rfl rfl ?_ ?_ fun q _ => congrArg Prod.fst (frame.key q)
  · intro q new known
    exact (Nat.not_lt.mpr new known).elim
  · intro q _ other
    rw [key_setKey_of_ne _ other]
    exact ⟨rfl, rfl, fun c _ => congrArg Prod.snd (frame.key c)⟩

theorem touch_setKey_covers {key : Key} (ordered : Ordered reg) (ready : Ready reg k)
    (marks : key.marks = (reg.key k).marks) (name : key.name = (reg.key k).name) :
    Covers reg (touchKey (reg.setKey k key) k) := by
  have frame : Frame Key.marks reg (reg.setKey k key) := Frame.setKey marks
  apply ((edits_setKey marks name).touchKey rfl).covers
  rintro q rfl
  exact touchKey_marked (ordered.of_frame frame) (ready.of_frame frame)

theorem setValue_covers (ordered : Ordered reg) (ready : Ready reg k) (name : Name)
    (type : BitVec 32) (data : List (BitVec 8)) :
    Covers reg (setValue lower reg k name type data).1 := by
  apply setValue_cases
  · exact .refl reg
  · intro values nbValues
    exact touch_setKey_covers ordered ready rfl rfl

theorem deleteValue_covers (ordered : Ordered reg) (ready : Ready reg k) (name : Name) :
    Covers reg (deleteValue lower reg k name).1 := by
  apply deleteValue_cases
  · exact .refl reg
  · intro values nbValues
    have touched : Covers reg (touchKey (reg.setKey k { reg.key k with values := values }) k) :=
      touch_setKey_covers ordered ready rfl rfl
    have shrunk : Frame (fun key => (key.marks, key.texts, key.modif))
        (touchKey (reg.setKey k { reg.key k with values := values }) k)
        ((touchKey (reg.setKey k { reg.key k with values := values })
          k).modifyKey k fun key => { key with nbValues := nbValues key }) :=
      Frame.modifyKey _ _ _ fun _ => rfl
    exact (touched.of_frame shrunk).covers fun q marked => marked.of_frame (shrunk.comp Prod.fst)

/-! ## Renaming -/

theorem movedKey_marks (k p : KeyId) (newName : Name) (index : Nat) (q : KeyId) :
    ((movedKey reg k p newName index).key q).marks = (reg.key q).marks := by
  rcases eq_or_ne q k with rfl | notChild
  · rcases eq_or_ne q p with rfl | notParent
    · simp [movedKey, marks]
    · simp [movedKey, marks, notParent]
  · rcases eq_or_ne q p with rfl | notParent
    · simp [movedKey, marks, notChild]
    · simp [movedKey, notChild, notParent]

section

variable (linked : Linked lower reg)
include linked

/-- A rename edits the key and its parent's list. -/
theorem movedKey_edits (isChild : (reg.key k).parent = some p) (newName : Name) (index : Nat) :
    Edits (fun q => q = k ∨ q = p) reg (movedKey reg k p newName index) := by
  refine Edits.of_marks le_rfl rfl ?_ ?_ fun q _ => movedKey_marks k p newName index q
  · intro q new known
    exact (Nat.not_lt.mpr new known).elim
  · intro q _ other
    rw [not_or] at other
    have same : (movedKey reg k p newName index).key q = reg.key q := by
      simp [movedKey, other.1, other.2]
    rw [same]
    refine ⟨rfl, rfl, fun c member => ?_⟩
    -- the renamed key is not in another array
    have notChild : c ≠ k := by
      rintro rfl
      have parent := (linked.child_iff q c).mp member
      rw [isChild] at parent
      exact other.2 (some.inj parent).symm
    rcases eq_or_ne c p with rfl | notParent
    · simp [movedKey, notChild]
    · simp [movedKey, notChild, notParent]

theorem renameKey_covers {newName : Name} (ready : Ready reg k)
    (parentMarked : ∀ p, (reg.key k).parent = some p → (reg.key k).volatile = true → Marked reg p) :
    Covers reg (renameKey lower reg k newName).1 := by
  apply renameKey_cases
  · exact .refl reg
  · intro p index _ isChild _ _
    have marks : ∀ q, ((movedKey reg k p newName index).key q).marks =
        (reg.key q).marks := movedKey_marks k p newName index
    have edits := (movedKey_edits linked isChild newName index).touchKey (.inl rfl)
    have ordered : Ordered (movedKey reg k p newName index) := by
      intro q r child
      rw [parent_of_marks (marks q)] at child
      exact linked.ordered q r child
    have moved : Ready (movedKey reg k p newName index) k := by
      apply ready.congr _ fun q _ => marks q
      rfl
    have marked := touchKey_marked ordered moved
    apply edits.covers
    rintro q (rfl | rfl)
    · exact marked
    · rcases marked with isVolatile | dirty
      · have known : q < reg.nextKey :=
          (linked.order k q isChild).1.trans (linked.order k q isChild).2
        have old := edits.volatile k (linked.order k q isChild).2
        exact edits.marked ((touchKey_frame blind_parent _ k).order ordered) linked.ordered known
          (parentMarked q isChild (old.symm.trans isVolatile))
      · refine .inr (dirty.above ?_)
        rw [touchKey_above]
        exact .single ((parent_of_marks (marks k)).trans isChild)

/-! ## Deleting -/

/-- The state in which the parent of a removed key is touched. -/
def unlinkedKey (reg : State) (k : KeyId) : State :=
  keyUnlinkName (reg.modifyKey k fun key => { key with deleted := true }) k

section

variable (isChild : ∀ q, (reg.key k).parent = some q → q = p)
include isChild

/-- Unlinking changes the parent of a key and the array that it was in. -/
theorem keyUnlinkName_keys (q : KeyId) : ((keyUnlinkName reg k).key q).name = (reg.key q).name ∧
      ((keyUnlinkName reg k).key q).modif = (reg.key q).modif ∧
      ((keyUnlinkName reg k).key q).marks.2 = (reg.key q).marks.2 ∧
      (q ≠ p → ((keyUnlinkName reg k).key q).texts = (reg.key q).texts) := by
  rcases parent : (reg.key k).parent with _ | r
  · have same : keyUnlinkName reg k = reg := by simp [keyUnlinkName, parent]
    rw [same]
    exact ⟨rfl, rfl, rfl, fun _ => rfl⟩
  · have isParent := isChild r parent
    subst isParent
    have other : r ≠ k := linked.parent_ne parent
    rw [linked.keyUnlinkName_eq parent]
    rcases eq_or_ne q k with rfl | notChild
    · simp [marks, texts, other.symm]
    · rcases eq_or_ne q r with rfl | notParent
      · simp [marks, notChild]
      · simp [notChild, notParent]

omit linked in
omit isChild in
theorem keyUnlinkName_saveBranches : (keyUnlinkName reg k).saveBranches = reg.saveBranches := by
  rw [keyUnlinkName]
  split
  · rfl
  · dsimp only
    split_ifs <;> rfl

/--
A removal edits the list of the parent.  No key gets a new parent and no mark
changes.
-/
theorem unlinkedKey_edits : Edits (· = p) reg (unlinkedKey reg k) ∧
      (∀ q r, ((unlinkedKey reg k).key q).parent = some r → (reg.key q).parent = some r) ∧
      ∀ q, ((unlinkedKey reg k).key q).marks.2 = (reg.key q).marks.2 := by
  have mark : Frame (fun key =>
      (key.shape, key.marks, key.texts, key.modif)) reg
      (reg.modifyKey k fun key => { key with deleted := true }) :=
    Frame.modifyKey _ _ _ fun _ => rfl
  have linked' := linked.of_frame (mark.comp Prod.fst)
  have keys := keyUnlinkName_keys (k := k) (p := p) linked' fun q parent =>
    isChild q ((congrArg (fun view => view.1.parent) (mark.key k)).symm.trans parent)
  have removes := linked'.keyUnlinkName_removes k
  have nextKey : (unlinkedKey reg k).nextKey = reg.nextKey := removes.nextKey.trans mark.nextKey
  have parents : ∀ q r, ((unlinkedKey reg k).key q).parent = some r →
      (reg.key q).parent = some r := by
    intro q r parent
    rcases eq_or_ne q k with rfl | other
    · rw [show ((unlinkedKey reg q).key q).parent = none from removes.removed] at parent
      cases parent
    · exact ((removes.parents q other).trans
        (congrArg (fun view => view.1.parent) (mark.key q))).symm.trans parent
  have flags : ∀ q, ((unlinkedKey reg k).key q).marks.2 = (reg.key q).marks.2 := fun q =>
    (keys q).2.2.1.trans (congrArg (fun view => view.2.1.2) (mark.key q))
  refine ⟨?_, parents, flags⟩
  refine Edits.of_keys nextKey.ge keyUnlinkName_saveBranches ?_ ?_
    (fun q r _ => parents q r) fun q _ => flags q
  · intro q new known
    rw [nextKey] at known
    exact (Nat.not_lt.mpr new known).elim
  · intro q _ other
    refine ⟨((keys q).2.2.2 other).trans (congrArg (fun view => view.2.2.1) (mark.key q)),
      (keys q).2.1.trans (congrArg (fun view => view.2.2.2) (mark.key q)),
      fun c _ => ?_⟩
    exact (keys c).1.trans (congrArg (fun view => view.1.name) (mark.key c))

omit isChild in
theorem Linked.unlinkedKey (k : KeyId) : Linked lower (unlinkedKey reg k) :=
  (linked.of_frame (Frame.modifyKey reg k
    (fun key => { key with deleted := true }) fun _ => rfl)).unlinked k

/-- A removal marks the parent and spoils no other path. -/
theorem removeKey_covers (ready : Ready reg p) :
    Covers reg (deleteKey.removeKey reg k p).1 ∧ ∀ c, Ready reg c →
      Ready (deleteKey.removeKey reg k p).1 c := by
  rcases unlinkedKey_edits linked isChild with ⟨edits, parents, flags⟩
  have ordered := (linked.unlinkedKey k).ordered
  have spared : ∀ c, Ready reg c → Ready (unlinkedKey reg k) c :=
    fun c => Ready.mono edits.branches parents flags
  constructor
  · apply (edits.touchKey rfl).covers
    rintro q rfl
    exact touchKey_marked ordered (spared q ready)
  · intro c readyHere
    exact touchKey_ready ordered p (spared c readyHere)

end

variable {fuel : Nat} {result : State × Status × Bool}

omit linked in
theorem deleteKey_false_cases (returned : deleteKey false fuel reg k = some result) :
    result.1 = reg ∨ ∃ p, (reg.key k).parent = some p ∧
      result.1 = (deleteKey.removeKey reg k p).1 := by
  cases fuel with
  | zero => simp [deleteKey] at returned
  | succ fuel =>
    rcases parent : (reg.key k).parent with _ | p
    all_goals
      simp only [deleteKey, parent, if_neg Bool.false_ne_true] at returned
      split_ifs at returned
    all_goals cases returned
    · exact .inl rfl
    · exact .inl rfl
    · exact .inl rfl
    · exact .inl rfl
    · exact .inl rfl
    · exact .inr ⟨p, rfl, rfl⟩

/-- The lists that a deletion can edit can be marked. -/
def DeleteReady (reg : State) (k : KeyId) (recurse : Bool) : Prop :=
  ∀ c p, Above reg c k → (recurse = true ∨ c = k) → (reg.key c).parent = some p → Ready reg p

theorem deleteKey_covers (buried : Buried reg) {recurse : Bool} (ready : DeleteReady reg k recurse)
    (returned : deleteKey recurse fuel reg k = some result) :
    Covers reg result.1 := by
  cases recurse with
  | false =>
    rcases deleteKey_false_cases returned with same | ⟨p, parent, same⟩
    · rw [same]
      exact .refl reg
    · rw [same]
      refine (removeKey_covers linked (fun q child => ?_)
        (ready k p (.refl reg k) (.inr rfl) parent)).1
      rw [parent] at child
      exact (some.inj child).symm
  | true =>
    let inv (later : State) : Prop := Pruned lower reg later ∧ Covers reg later ∧
        ∀ c, Ready reg c → Ready later c
    have keeps := deleteKey_keeps inv (fun c => Above reg c k) ?_ ?_ fuel
    · exact (keeps.1 true reg k result ⟨.refl linked buried, .refl reg, fun _ here => here⟩
        (.refl reg k) returned).2.1
    · intro later q c holds scope member
      have child := holds.1.parent ((holds.1.linked.child_iff q c).mp member)
      exact (Above.single child).trans scope
    · intro before later c p earlier parent holds scope
      have child := earlier.1.parent parent
      have removed := removeKey_covers (k := c) (p := p) holds.1.linked (fun q parentNow => ?_)
        (holds.2.2 p (ready c p scope (.inl rfl) child))
      · have pruned := holds.1.removeKey c p
        refine ⟨pruned, ?_, fun x here => removed.2 x (holds.2.2 x here)⟩
        exact holds.2.1.trans removed.1 holds.1.linked.ordered pruned.linked.ordered
      · have same := holds.1.parent parentNow
        rw [child] at same
        exact (some.inj same).symm

end

/-! ## Creating -/

section Creating

variable {name : Name} {options : CreateOptions} {keyClass : Option Name}

/-- A new key changes the array of its parent and no other old key. -/
theorem linkNewKey_keys (known : p < reg.nextKey) (other : q ≠ reg.nextKey) :
    ((linkNewKey lower reg p name options).key q).marks = (reg.key q).marks ∧
      ((linkNewKey lower reg p name options).key q).name = (reg.key q).name ∧
      (q ≠ p → (linkNewKey lower reg p name options).key q = reg.key q) := by
  have added : (reg.addKey (newKey reg name options)).key q = reg.key q :=
    key_setKey_of_ne _ other _
  rcases eq_or_ne q p with rfl | notParent
  · simp [linkNewKey, keyLinkName, other, added, marks]
  · simp [linkNewKey, keyLinkName, other, notParent, added]

theorem linkNewKey_parent (known : p < reg.nextKey) :
    ((linkNewKey lower reg p name options).key reg.nextKey).parent = some p := by
  simp [linkNewKey, keyLinkName, known.ne']

section

variable (linked : Linked lower reg) (known : p < reg.nextKey)
include linked known

/-- A creation edits the parent and the new key. -/
theorem linkNewKey_edits :
    Edits (fun q => q = p ∨ q = reg.nextKey) reg (linkNewKey lower reg p name options) := by
  have keys : ∀ q, q < reg.nextKey → _ := fun q old =>
    @linkNewKey_keys lower reg p q name options known old.ne
  refine Edits.of_marks (Nat.le_succ _) rfl ?_ ?_ fun q old => (keys q old).1
  · intro q new old
    exact .inr (Nat.le_antisymm (Nat.le_of_lt_succ old) new)
  · intro q old other
    rw [(keys q old).2.2 fun isParent => other (.inl isParent)]
    refine ⟨rfl, rfl, fun c member => ?_⟩
    exact (keys c (linked.order c q ((linked.child_iff q c).mp member)).2).2.1

section

variable (absent : (findSubkey lower reg p name).1 = none)
include absent

/-- A refusal leaves the texts, the time and the marks of every old key. -/
theorem refused_keys (other : q ≠ reg.nextKey) :
    let key := (keyUnlinkName (linkNewKey lower reg p name options) reg.nextKey).key q
    key.marks = (reg.key q).marks ∧ key.texts = (reg.key q).texts ∧
      key.modif = (reg.key q).modif := by
  have entered := linked.linkNewKey known absent options
  have parent := @linkNewKey_parent lower reg p name options known
  rw [entered.keyUnlinkName_eq parent, key_modifyKey_of_ne _ other]
  rcases eq_or_ne q p with rfl | notParent
  · have older : reg.nextKey ∉ (reg.key q).subkeys := fun member =>
      (linked.order _ q ((linked.child_iff q _).mp member)).2.false
    simp [marks, texts, linkNewKey, keyLinkName, known.ne, addKey, erase_insertSlot older]
  · rw [key_setKey_of_ne _ notParent, (linkNewKey_keys known other).2.2 notParent]
    exact ⟨rfl, rfl, rfl⟩

/-- A key that is refused leaves nothing that is saved. -/
theorem refused_edits : Edits (· = reg.nextKey) reg
      (keyUnlinkName (linkNewKey lower reg p name options) reg.nextKey) := by
  have removes := (linked.linkNewKey known absent options).keyUnlinkName_removes reg.nextKey
  have keys : ∀ q, q < reg.nextKey → _ := fun q old =>
    @refused_keys lower reg p q name options linked known absent old.ne
  refine Edits.of_marks ((Nat.le_succ _).trans removes.nextKey.ge)
    keyUnlinkName_saveBranches ?_ ?_ fun q old => (keys q old).1
  · intro q new old
    rw [removes.nextKey] at old
    exact Nat.le_antisymm (Nat.le_of_lt_succ old) new
  · intro q old _
    refine ⟨(keys q old).2.1, (keys q old).2.2, fun c member => ?_⟩
    exact congrArg Prod.fst (keys c (linked.order c q ((linked.child_iff q c).mp member)).2).2.1

end

/-- The state in which the parent of a new key is touched. -/
def flaggedKey (lower : WChar → WChar) (reg : State) (p : KeyId)
    (name : Name) (options : CreateOptions) : State :=
  (linkNewKey lower reg p name options).modifyKey reg.nextKey (creationFlag options)

/-- The path of the parent does not see the new key. -/
theorem flaggedKey_marks : ∀ q, Above reg p q →
      ((flaggedKey lower reg p name options).key q).marks = (reg.key q).marks := by
  intro q above
  have other : q ≠ reg.nextKey := ((above.le linked.ordered).trans_lt known).ne
  rw [flaggedKey, key_modifyKey_of_ne _ other]
  exact (linkNewKey_keys known other).1

omit linked in
theorem flaggedKey_new : ((flaggedKey lower reg p name options).key reg.nextKey).marks =
      (some p, options.volatile, !options.volatile) := by
  rw [flaggedKey, key_modifyKey_self, creationFlag]
  cases options.volatile <;>
    simp [linkNewKey, keyLinkName, known.ne', addKey, newKey, marks]

theorem flaggedKey_ordered (absent : (findSubkey lower reg p name).1 = none) :
    Ordered (flaggedKey lower reg p name options) := by
  have frame : Frame Key.parent (linkNewKey lower reg p name options)
      (flaggedKey lower reg p name options) := by
    refine Frame.modifyKey _ _ _ fun key => ?_
    rw [creationFlag]
    split <;> rfl
  exact frame.order (linked.linkNewKey known absent options).ordered

/-- What a creation edits can be marked. -/
def CreateReady (lower : WChar → WChar) (reg : State) (p : KeyId)
    (name : Name) (options : CreateOptions) (keyClass : Option Name) :
    Prop :=
  match (findSubkey lower reg p name).1 with
  | some k => openClass keyClass (reg.key k) = reg.key k ∨ Marked reg k
  | none =>
    if options.absolute then AllDirty reg p ∨ (reg.key p).volatile = true ∧ options.volatile = true
    else Ready reg p

/-- The parent of a new key, touched where `create_key` does it. -/
def touchedKey (lower : WChar → WChar) (reg : State) (p : KeyId)
    (name : Name) (options : CreateOptions) : State :=
  if options.absolute then flaggedKey lower reg p name options
  else touchKey (flaggedKey lower reg p name options) p

theorem touchedKey_edits :
    Edits (fun q => q = p ∨ q = reg.nextKey) reg (touchedKey lower reg p name options) := by
  have edits : Edits (fun q => q = p ∨ q = reg.nextKey) reg (flaggedKey lower reg p name options) :=
    (linkNewKey_edits linked known).modifyKey (.inr rfl) le_rfl fun key => by
      rw [creationFlag]
      split <;> rfl
  rw [touchedKey]
  split
  · exact edits
  · exact edits.touchKey (.inl rfl)

/-- The parent is marked, and all of its path if the new key is saved. -/
theorem touchedKey_parent (absent : (findSubkey lower reg p name).1 = none)
    (permitted : options.volatile = false → options.absolute = false →
      ((linkNewKey lower reg p name options).key p).volatile = false)
    (ready : CreateReady lower reg p name options keyClass) :
    Marked (touchedKey lower reg p name options) p ∧
      (options.volatile = false → AllDirty (touchedKey lower reg p name options) p) := by
  have marks := @flaggedKey_marks lower reg p name options linked known
  have ordered := @flaggedKey_ordered lower reg p name options linked known absent
  have branches : (flaggedKey lower reg p name options).saveBranches = reg.saveBranches := rfl
  rw [CreateReady, absent] at ready
  rw [touchedKey]
  split_ifs at ready ⊢ with absolute
  · rcases ready with dirty | ⟨isVolatile, alsoVolatile⟩
    · have still := dirty.congr branches marks
      exact ⟨.inr still, fun _ => still⟩
    · refine ⟨.inl ?_, fun permanent => ?_⟩
      · exact (volatile_of_marks (marks p (.refl reg p))).trans isVolatile
      · rw [alsoVolatile] at permanent
        cases permanent
  · have flagged := Ready.congr branches marks ready
    refine ⟨touchKey_marked ordered flagged, fun permanent => ?_⟩
    rcases flagged with isVolatile | closed
    · rw [flaggedKey, key_modifyKey_of_ne _ known.ne,
        permitted permanent (Bool.eq_false_of_not_eq_true absolute)]
        at isVolatile
      cases isVolatile
    · exact touchKey_allDirty ordered closed

end

theorem touchedKey_new (known : p < reg.nextKey) :
    ((touchedKey lower reg p name options).key reg.nextKey).parent = some p ∧
      ((touchedKey lower reg p name options).key reg.nextKey).volatile = options.volatile ∧
      (options.volatile = false → ((touchedKey lower reg p name options).key reg.nextKey).dirty =
          true) := by
  have new := @flaggedKey_new lower reg p name options known
  have parent := congrArg Prod.fst new
  have isVolatile := congrArg (fun marks => marks.2.1) new
  have dirty : options.volatile = false →
      ((flaggedKey lower reg p name options).key reg.nextKey).dirty = true := by
    intro permanent
    rw [permanent] at new
    exact congrArg (fun marks => marks.2.2) new
  rw [touchedKey]
  split_ifs
  · exact ⟨parent, isVolatile, dirty⟩
  · have same := (touchKey_place (flaggedKey lower reg p name options) p).key reg.nextKey
    exact ⟨(congrArg Prod.fst same).trans parent, (congrArg Prod.snd same).trans isVolatile,
      fun permanent => touchKey_dirty p (dirty permanent)⟩

section

variable (linked : Linked lower reg) (known : p < reg.nextKey)
include linked known

theorem createdKey_covers (absent : (findSubkey lower reg p name).1 = none)
    (permitted : options.volatile = false → options.absolute = false →
      ((linkNewKey lower reg p name options).key p).volatile = false)
    (ready : CreateReady lower reg p name options keyClass) :
    Covers reg (createdKey lower reg p name options keyClass) := by
  rcases touchedKey_parent linked known absent permitted ready with ⟨marked, path⟩
  rcases @touchedKey_new lower reg p name options known with ⟨parent, isVolatile, dirty⟩
  have frame : Frame Key.marks (touchedKey lower reg p name options)
      (createdKey lower reg p name options keyClass) := by
    rw [createdKey]
    exact Frame.modifyKey _ _ _ fun _ => rfl
  have edits : Edits (fun q => q = p ∨ q = reg.nextKey) reg
      (createdKey lower reg p name options keyClass) := by
    rw [createdKey]
    apply (touchedKey_edits linked known).modifyKey (.inr rfl) le_rfl
    exact fun _ => rfl
  apply edits.covers
  rintro q (rfl | rfl)
  · exact marked.of_frame frame
  · apply Marked.of_frame frame
    rcases flag : options.volatile with _ | _
    · exact .inr ((path flag).child parent (dirty flag))
    · exact .inl (isVolatile.trans flag)

/-- The object of a refused key is in no branch. -/
theorem refused_covers (absent : (findSubkey lower reg p name).1 = none)
    (roots : ∀ r ∈ reg.saveBranches, r < reg.nextKey) :
    Covers reg (keyUnlinkName (linkNewKey lower reg p name options) reg.nextKey) := by
  have removed := ((linked.linkNewKey known absent
    options).keyUnlinkName_removes reg.nextKey).removed
  have edits := @refused_edits lower reg p name options linked known absent
  apply edits.covers
  rintro q rfl
  refine .inr fun r isRoot q upper lower => ?_
  have object := Ancestor.eq_of_root upper removed
  subst object
  have object := Ancestor.eq_of_root lower removed
  subst object
  rw [edits.branches] at isRoot
  exact (lt_irrefl _ (roots _ isRoot)).elim

theorem createKey_covers (roots : ∀ r ∈ reg.saveBranches, r < reg.nextKey)
    (ready : CreateReady lower reg p name options keyClass) :
    Covers reg (createKey lower reg p name options keyClass).1 := by
  apply createKey_cases
  · exact .refl reg
  · intro k found
    rw [CreateReady, found] at ready
    rcases ready with same | marked
    · have still : reg.modifyKey k (openClass keyClass) = reg := by
        rw [modifyKey, same, setKey, Function.update_eq_self]
      rw [still]
      exact .refl reg
    · have frame : Frame Key.marks reg (reg.modifyKey k (openClass keyClass)) :=
        openClass_frame (fun _ _ => rfl) reg k keyClass
      have edits : Edits (· = k) reg (reg.modifyKey k (openClass keyClass)) :=
        edits_setKey (by cases keyClass <;> rfl) (by cases keyClass <;> rfl)
      apply edits.covers
      rintro q rfl
      exact marked.of_frame frame
  · intro absent
    exact refused_covers linked known absent roots
  · intro absent permitted
    exact createdKey_covers linked known absent permitted ready

end

end Creating

end WineRedRose.Registry
