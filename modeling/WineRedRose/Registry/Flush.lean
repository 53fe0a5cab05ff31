import WineRedRose.Registry.Edits

/-!
# Flushing

A client that flushes a key gets a snapshot of the dirty branches and the
value of `change_timestamp_counter`, writes the files, and confirms each with
a second request; other requests can come in between.  The server also saves
branches on its own.  A run here is any interleaving of these with requests
that change keys.  It records when each key has changed and which state of
each branch was last confirmed as written.
-/

namespace WineRedRose.Registry

open Library.Ancestry Library.Runs List Function

variable {lower : WChar → WChar} {reg reg' : State} {k p q root : KeyId}

/-! ## Runs -/

/-- What a client holds between `flush_key` and `flush_key_done`. -/
structure Snapshot where
  branch : Nat
  counter : Nat
  time : Nat
deriving DecidableEq, Repr

/-- The registry and the history that the property is about. -/
structure FlushRun where
  reg : State
  /-- The number of requests that changed keys. -/
  time : Nat
  changedAt : KeyId → Nat
  /-- The time of the state that each file holds. -/
  confirmedAt : Nat → Nat
  pending : List Snapshot

/-- The requests that work on keys, and not on files. -/
def Request.modifies : Request → Bool
  | .flushKeyDone _ _ | .saveBranch _ _ => false
  | _ => true

inductive FlushAction where
  | modify (request : Request)
  | flushKey (key : KeyId)
  /-- The client has written a snapshot that it holds. -/
  | flushKeyDone (snapshot : Nat)
  | saveBranch (branch : Nat) (written : Bool)
deriving DecidableEq, Repr

/-- The server writes the file of a branch. -/
def Saves (reg : State) (branch : Nat) (written : Bool) : Prop := written = true ∧
    (reg.saveBranches[branch]?.any fun root => (reg.key root).dirty) = true

instance (reg : State) (branch : Nat) (written : Bool) :
    Decidable (Saves reg branch written) :=
  inferInstanceAs (Decidable (_ ∧ _))

def FlushRun.step (lower : WChar → WChar) (run : FlushRun) : FlushAction → FlushRun
  | .modify request =>
    if request.modifies then
      let reg := Registry.step lower run.reg request
      { run with
        reg := reg
        time := run.time + 1
        changedAt := fun k => if Changed run.reg reg k then run.time + 1 else run.changedAt k }
    else run
  | .flushKey k =>
    if run.reg.Usable k then
      let (branches, counter) := flushKey run.reg k
      { run with
        pending := run.pending ++ branches.map fun branch => ⟨branch, counter, run.time⟩ }
    else run
  | .flushKeyDone i =>
    match run.pending[i]? with
    | some snapshot =>
      { run with
        reg := Registry.step lower run.reg (.flushKeyDone snapshot.branch snapshot.counter)
        confirmedAt := Function.update run.confirmedAt snapshot.branch snapshot.time
        pending := run.pending.eraseIdx i }
    | none => run
  | .saveBranch branch written =>
    { run with
      reg := Registry.step lower run.reg (.saveBranch branch written)
      confirmedAt :=
        if Saves run.reg branch written then Function.update run.confirmedAt branch run.time
        else run.confirmedAt }

/--
Every key that changed after the state in the file of its branch is dirty, up
to the root of the branch.
-/
def NothingLost (run : FlushRun) : Prop :=
  ∀ branch root, run.reg.saveBranches[branch]? = some root →
    ∀ k, Above run.reg k root → (run.reg.key k).volatile = false →
      run.confirmedAt branch < run.changedAt k → DirtyTo run.reg k root

/-! ## The condition -/

/-- Touching the edited key marks all that the request edits. -/
def MarkReady (lower : WChar → WChar) (reg : State) : Request → Prop
  | .createKey p name options keyClass => CreateReady lower reg p name options keyClass
  | .deleteKey k recurse => DeleteReady reg k recurse
  | .renameKey k _ =>
    Ready reg k ∧ ∀ p, (reg.key k).parent = some p → (reg.key k).volatile = true → Marked reg p
  | .setValue k _ _ _ => Ready reg k
  | .deleteValue k _ => Ready reg k
  | _ => True

/--
No later state of the branch was confirmed in between, and the keys that have
changed since the snapshot, with all keys above them, have later timestamps.
-/
def ConfirmSafe (run : FlushRun) (snapshot : Snapshot) : Prop :=
  run.confirmedAt snapshot.branch ≤ snapshot.time ∧
    ∀ root, run.reg.saveBranches[snapshot.branch]? = some root →
      ∀ k, Above run.reg k root → (run.reg.key k).volatile = false →
        snapshot.time < run.changedAt k →
        ∀ q, Above run.reg k q → Above run.reg q root →
          snapshot.counter < (run.reg.key q).timestampCounter

def FlushSafe (lower : WChar → WChar) (run : FlushRun) : FlushAction → Prop
  | .modify request => RenameSafe lower run.reg request ∧ MarkReady lower run.reg request
  | .flushKeyDone i => ∀ snapshot ∈ run.pending[i]?, ConfirmSafe run snapshot
  | _ => True

/-! ## Steps -/

/-- A request that can mark what it edits does. -/
theorem step_covers (linked : Linked lower reg) (buried : Buried reg)
    (roots : ∀ r ∈ reg.saveBranches, r < reg.nextKey) {request : Request}
    (modifies : request.modifies = true) (ready : MarkReady lower reg request) :
    Covers reg (step lower reg request) := by
  rw [step.eq_def, linked.running, if_neg Bool.false_ne_true]
  cases request with
  | createKey p name options keyClass =>
    dsimp only
    split_ifs with usable
    · exact createKey_covers linked usable.1 roots ready
    · exact .refl reg
  | deleteKey k recurse =>
    dsimp only
    split_ifs
    · split
      · next returned => exact deleteKey_covers linked buried ready returned
      · exact .refl reg
    · exact .refl reg
  | renameKey k newName =>
    dsimp only
    split_ifs
    · exact renameKey_covers linked ready.1 ready.2
    · exact .refl reg
  | setValue k name type data =>
    dsimp only
    split_ifs
    · exact setValue_covers linked.ordered ready name type data
    · exact .refl reg
  | deleteValue k name =>
    dsimp only
    split_ifs
    · exact deleteValue_covers linked.ordered ready name
    · exact .refl reg
  | flushKeyDone branch counter => cases modifies
  | saveBranch branch written => cases modifies
  | setTime time =>
    have frame : Frame (fun key => (key.marks, key.texts, key.modif)) reg
        { reg with currentTime := time, fault := false } :=
      ⟨fun _ => rfl, rfl, rfl, linked.running.symm⟩
    exact ((Covers.refl reg).of_frame frame).covers
      fun q marked => marked.of_frame (frame.comp Prod.fst)

/--
The tree is intact, branches do not contain each other, and nothing is lost.
-/
structure FlushRun.Inv (lower : WChar → WChar) (run : FlushRun) : Prop where
  linked : Linked lower run.reg
  buried : Buried run.reg
  roots : ∀ r ∈ run.reg.saveBranches, r < run.reg.nextKey
  distinct : run.reg.saveBranches.Nodup
  apart : ∀ r ∈ run.reg.saveBranches, ∀ r' ∈ run.reg.saveBranches, Above run.reg r r' → r = r'
  past : ∀ k, run.changedAt k ≤ run.time
  kept : NothingLost run

theorem Linked.known_of_above (linked : Linked lower reg) (above : Above reg k q)
    (known : q < reg.nextKey) : k < reg.nextKey := by
  cases above with
  | refl => exact known
  | up isChild _ => exact (linked.order k _ isChild).2

variable {run : FlushRun} {counter branch : Nat}

theorem FlushRun.Inv.modify (inv : run.Inv lower) {request : Request}
    (safe : FlushSafe lower run (.modify request)) :
    (run.step lower (.modify request)).Inv lower := by
  simp only [FlushRun.step]
  split_ifs with modifies
  swap
  · exact inv
  have covers := step_covers inv.linked inv.buried inv.roots modifies safe.2
  have linked := inv.linked.step safe.1
  have branches := covers.branches
  refine ⟨linked, (step_settled inv.linked inv.buried request).buried,
    fun r isRoot => ?_, ?_, fun r isRoot r' isRoot' above => ?_, fun k => ?_,
    fun branch root found k above permanent later => ?_⟩
  · rw [branches] at isRoot
    exact (inv.roots r isRoot).trans_le covers.nextKey
  · rw [branches]
    exact inv.distinct
  · rw [branches] at isRoot isRoot'
    exact inv.apart r isRoot r' isRoot' (covers.above linked.ordered (inv.roots r isRoot) above)
  · dsimp only
    split_ifs
    · exact le_rfl
    · exact (inv.past k).trans (Nat.le_succ _)
  · dsimp only at found above permanent later ⊢
    split_ifs at later with changed
    · rcases covers.changed k changed with isVolatile | dirty
      · rw [permanent] at isVolatile
        cases isVolatile
      · exact dirty root (mem_of_getElem? found)
    · rw [branches] at found
      have known : k < run.reg.nextKey := by
        by_contra new
        have isRoot := inv.roots root (mem_of_getElem? found)
        have there := linked.known_of_above above (isRoot.trans_le covers.nextKey)
        exact changed ⟨there, .inl (not_lt.mp new)⟩
      refine covers.dirtyTo linked.ordered inv.linked.ordered known
        (inv.kept branch root found k ?_ ?_ later)
      · exact covers.above linked.ordered known above
      · exact (covers.volatile k known).symm.trans permanent

/-- A path that changed late, or is in another branch, is not cleaned. -/
theorem Cleans.dirtyTo {other : KeyId} (cleans : Cleans counter root reg reg')
    (spared : ∀ q, Above reg k q → Above reg q other →
      counter < (reg.key q).timestampCounter ∨ ¬ Above reg q root)
    (path : DirtyTo reg k other) : DirtyTo reg' k other := by
  intro q upper lower
  rw [cleans.above_iff] at upper lower
  rw [cleans.dirty (spared q upper lower)]
  exact path q upper lower

theorem FlushRun.Inv.disjoint (inv : run.Inv lower) {branch' : Nat} {root' : KeyId}
    (found : run.reg.saveBranches[branch]? = some root)
    (found' : run.reg.saveBranches[branch']? = some root') (other : branch' ≠ branch) :
    ∀ q, Above run.reg q root → Above run.reg q root' → False := by
  intro q first second
  have isRoot := mem_of_getElem? found
  have isRoot' := mem_of_getElem? found'
  have inside := (List.getElem?_eq_some_iff.mp found').1
  have same : root = root' := by
    rcases Ancestor.total first second with above | above
    · exact inv.apart root isRoot root' isRoot' above
    · exact (inv.apart root' isRoot' root isRoot above).symm
  rw [← same, ← found] at found'
  exact other ((getElem?_inj inside inv.distinct).mp found')

/-- The snapshots that clients hold are not part of the invariant. -/
theorem FlushRun.Inv.congr (inv : run.Inv lower) {confirmedAt : Nat → Nat}
    (same : ∀ branch root, run.reg.saveBranches[branch]? = some root →
      confirmedAt branch = run.confirmedAt branch)
    (pending : List Snapshot) :
    FlushRun.Inv lower
      { run with confirmedAt := confirmedAt, pending := pending } := by
  refine ⟨inv.linked, inv.buried, inv.roots, inv.distinct, inv.apart,
    inv.past, fun branch root found k above permanent later => ?_⟩
  dsimp only at found later
  rw [same branch root found] at later
  exact inv.kept branch root found k above permanent later

/-- A branch is written and some of its keys are cleaned. -/
theorem FlushRun.Inv.cleaned (inv : run.Inv lower) {time : Nat}
    (found : run.reg.saveBranches[branch]? = some root)
    (clean : Frame (fun key => (key.shape, key.place)) run.reg reg')
    (cleans : Cleans counter root run.reg reg')
    (saved : ∀ k, Above run.reg k root → (run.reg.key k).volatile = false → time < run.changedAt k →
      DirtyTo reg' k root) (pending : List Snapshot) :
    FlushRun.Inv lower
      { run with
        reg := reg'
        confirmedAt := update run.confirmedAt branch time
        pending := pending } := by
  refine ⟨inv.linked.of_frame (clean.comp Prod.fst), (Settled.of_places inv.buried fun q =>
      congrArg Prod.snd (clean.key q)).buried,
    ?_, ?_, fun r isRoot r' isRoot' above => ?_, inv.past,
    fun branch' root' found' k above permanent later => ?_⟩
  · rw [clean.saveBranches, clean.nextKey]
    exact inv.roots
  · rw [clean.saveBranches]
    exact inv.distinct
  · rw [clean.saveBranches] at isRoot isRoot'
    rw [cleans.above_iff] at above
    exact inv.apart r isRoot r' isRoot' above
  · dsimp only at found' above permanent later ⊢
    rw [clean.saveBranches] at found'
    rw [cleans.above_iff] at above
    rw [cleans.keeps Key.volatile (fun _ => rfl)] at permanent
    rcases eq_or_ne branch' branch with rfl | other
    · rw [found] at found'
      cases found'
      rw [update_self] at later
      exact saved k above permanent later
    · rw [update_of_ne other] at later
      exact cleans.dirtyTo (fun q _ here => .inr fun there =>
        inv.disjoint found found' other q there here)
        (inv.kept branch' root' found' k above permanent later)

theorem step_flushKeyDone (running : reg.fault = false)
    (found : reg.saveBranches[branch]? = some root) :
    step lower reg (.flushKeyDone branch counter) = makeClean counter reg.nextKey reg root := by
  simp [step.eq_def, running, flushKeyDone, found]

theorem step_saveBranch {written : Bool} (running : reg.fault = false)
    (found : reg.saveBranches[branch]? = some root) (saves : Saves reg branch written) :
    step lower reg (.saveBranch branch written) =
      makeClean (reg.key root).timestampCounter reg.nextKey reg root := by
  have dirty : (reg.key root).dirty = true := by simpa [Saves, found] using saves.2
  simp [step.eq_def, running, saveBranch, found, dirty, saves.1]

theorem step_saveBranch_of_not {written : Bool} (running : reg.fault = false)
    (unsaved : ¬ Saves reg branch written) :
    step lower reg (.saveBranch branch written) = reg := by
  rcases found : reg.saveBranches[branch]? with _ | root
  · simp [step.eq_def, running, found]
  · have clean : written = true → (reg.key root).dirty = false := by
      simpa [Saves, found] using unsaved
    cases written with
    | true => simp [step.eq_def, running, found, saveBranch, clean rfl]
    | false =>
      rcases dirty : (reg.key root).dirty with _ | _
      · simp [step.eq_def, running, found, saveBranch, dirty]
      · simp [step.eq_def, running, found, saveBranch, dirty]

theorem blind_shape_place : Blind fun key => (key.shape, key.place) := fun _ _ _ _ => rfl

theorem FlushRun.Inv.flushKeyDone (inv : run.Inv lower) {i : Nat}
    (safe : FlushSafe lower run (.flushKeyDone i)) :
    (run.step lower (.flushKeyDone i)).Inv lower := by
  rw [FlushRun.step.eq_def]
  dsimp only
  split
  swap
  · exact inv
  next snapshot held =>
  rcases safe snapshot held with ⟨latest, stamped⟩
  rcases found : run.reg.saveBranches[snapshot.branch]? with _ | root
  · have still : Registry.step lower run.reg
        (.flushKeyDone snapshot.branch snapshot.counter) = run.reg := by
      simp [Registry.step.eq_def, inv.linked.running, Registry.flushKeyDone, found]
    rw [still]
    refine inv.congr (fun branch root here => ?_) _
    apply update_of_ne
    rintro rfl
    rw [found] at here
    cases here
  · rw [step_flushKeyDone inv.linked.running found]
    have cleans := makeClean_cleans (fun p x member => (inv.linked.child_iff p x).mp member)
      snapshot.counter run.reg.nextKey root
    apply inv.cleaned found (makeClean_frame blind_shape_place _ _ _ _) cleans
    intro k above permanent changed
    refine cleans.dirtyTo (fun q upper lower => .inl ?_) ?_
    · exact stamped root found k above permanent changed q upper lower
    · exact inv.kept _ root found k above permanent (latest.trans_lt changed)

theorem FlushRun.Inv.saveBranch (inv : run.Inv lower) (branch : Nat) (written : Bool) :
    (run.step lower (.saveBranch branch written)).Inv lower := by
  rw [FlushRun.step.eq_def]
  dsimp only
  by_cases saves : Saves run.reg branch written
  · rw [if_pos saves]
    rcases found : run.reg.saveBranches[branch]? with _ | root
    · simp [Saves, found] at saves
    · rw [step_saveBranch inv.linked.running found saves]
      have cleans := makeClean_cleans (fun p x member => (inv.linked.child_iff p x).mp member)
        (run.reg.key root).timestampCounter run.reg.nextKey root
      apply inv.cleaned found (makeClean_frame blind_shape_place _ _ _ _) cleans
      intro k _ _ changed
      exact (Nat.not_lt.mpr (inv.past k) changed).elim
  · rw [if_neg saves, step_saveBranch_of_not inv.linked.running saves]
    exact inv

theorem FlushRun.Inv.step (inv : run.Inv lower) {action : FlushAction}
    (safe : FlushSafe lower run action) :
    (run.step lower action).Inv lower := by
  cases action with
  | modify request => exact inv.modify safe
  | flushKey k =>
    simp only [FlushRun.step]
    split_ifs
    · exact inv.congr (fun _ _ _ => rfl) _
    · exact inv
  | flushKeyDone i => exact inv.flushKeyDone safe
  | saveBranch branch written => exact inv.saveBranch branch written

/-! ## Whole runs -/

end WineRedRose.Registry
