import WineRedRose.Library.Ancestry
import WineRedRose.Registry.Tree

/-!
# Dirty keys and their ancestors

A flush starts at the root of a branch and goes down through dirty keys, so a
dirty key is only saved if all keys between it and the root are dirty.
`make_dirty` walks up from a key and stops at the first key that is dirty or
volatile.  That is enough if everything above such a key is dirty already,
and `Closed` says so.  `make_clean` clears keys below a root by their
timestamps.
-/

namespace WineRedRose.Registry

open Library.Ancestry

/-! ## Paths to a branch root -/

section

variable (reg : State)

/-- The key `q` is `k` or one of its ancestors. -/
def Above (k q : KeyId) : Prop := Ancestor (fun k => (reg.key k).parent) k q

/-- All keys from `k` up to `r` are dirty. -/
def DirtyTo (k r : KeyId) : Prop := ∀ q, Above reg k q → Above reg q r → (reg.key q).dirty = true

/--
No key from `k` up to `r` is volatile, and everything above a dirty one is
dirty.
-/
def ClosedTo (k r : KeyId) : Prop := ∀ q, Above reg k q → Above reg q r →
    (reg.key q).volatile = false ∧ ((reg.key q).dirty = true → DirtyTo reg q r)

/-- All keys from `k` up to the root of its branch are dirty. -/
def AllDirty (k : KeyId) : Prop := ∀ r ∈ reg.saveBranches, DirtyTo reg k r

/-- The path from `k` to the root of its branch can be marked from below. -/
def Closed (k : KeyId) : Prop := ∀ r ∈ reg.saveBranches, ClosedTo reg k r

/-- Touching the key marks everything that has to be marked. -/
def Ready (k : KeyId) : Prop := (reg.key k).volatile = true ∨ Closed reg k

/-- The key is marked as far as it has to be. -/
def Marked (k : KeyId) : Prop := (reg.key k).volatile = true ∨ AllDirty reg k

end

section Paths

variable {reg reg' : State} {k p q r : KeyId}

theorem Above.refl (reg : State) (k : KeyId) : Above reg k k := Ancestor.refl k

theorem Above.trans (first : Above reg k q) (second : Above reg q r) :
    Above reg k r :=
  Ancestor.trans first second

theorem Above.single (isChild : (reg.key k).parent = some p) :
    Above reg k p :=
  Ancestor.single isChild

theorem DirtyTo.above (dirty : DirtyTo reg k r) (above : Above reg k q) :
    DirtyTo reg q r :=
  fun _ upper lower => dirty _ (above.trans upper) lower

theorem ClosedTo.above (closed : ClosedTo reg k r) (above : Above reg k q) :
    ClosedTo reg q r :=
  fun _ upper lower => closed _ (above.trans upper) lower

theorem AllDirty.above (dirty : AllDirty reg k) (above : Above reg k q) :
    AllDirty reg q :=
  fun r isRoot => (dirty r isRoot).above above

/-- A dirty key below a path that is dirty. -/
theorem AllDirty.child (isChild : (reg.key k).parent = some p) (here : (reg.key k).dirty = true)
    (dirty : AllDirty reg p) : AllDirty reg k := by
  intro r isRoot q upper lower
  rcases Ancestor.eq_or_above upper isChild with rfl | above
  · exact here
  · exact dirty r isRoot q above lower

/-- Keys are older than the keys below them. -/
theorem Above.le (order : ∀ k p, (reg.key k).parent = some p → p < k) (above : Above reg k q) :
    q ≤ k :=
  Ancestor.le order above

/--
Where no key of a path has got a new parent and the old keys are still dirty,
the path is still dirty.
-/
theorem DirtyTo.mono (above : ∀ q q', Above reg k q → Above reg' q q' → Above reg q q')
    (kept : ∀ q, Above reg k q → (reg.key q).dirty = true → (reg'.key q).dirty = true)
    (dirty : DirtyTo reg k r) : DirtyTo reg' k r := by
  intro q upper lower
  have old := above k q (.refl reg k) upper
  exact kept q old (dirty q old (above q r old lower))

end Paths

/-! ## Changes that do not concern the path -/

/-- The fields that the paths and the marks are made of. -/
def Key.marks (key : Key) : Option KeyId × Bool × Bool := (key.parent, key.volatile, key.dirty)

section Marks

variable {reg reg' : State} {k q r : KeyId}

section

variable (same : (reg'.key k).marks = (reg.key k).marks)
include same

theorem parent_of_marks : (reg'.key k).parent = (reg.key k).parent := congrArg Prod.fst same

theorem volatile_of_marks : (reg'.key k).volatile = (reg.key k).volatile :=
  congrArg (fun marks => marks.2.1) same

theorem dirty_of_marks : (reg'.key k).dirty = (reg.key k).dirty :=
  congrArg (fun marks => marks.2.2) same

end

section

variable (same : ∀ q, Above reg k q → (reg'.key q).marks = (reg.key q).marks)
include same

theorem above_of_marks {q' : KeyId} (above : Above reg k q) : Above reg' q q' ↔ Above reg q q' :=
  ancestor_congr fun x upper => parent_of_marks (same x (above.trans upper))

theorem DirtyTo.congr (dirty : DirtyTo reg k r) : DirtyTo reg' k r :=
  dirty.mono (fun _ _ upper => (above_of_marks same upper).mp)
    fun q upper => (dirty_of_marks (same q upper)).trans

theorem ClosedTo.congr (closed : ClosedTo reg k r) : ClosedTo reg' k r := by
  intro q upper lower
  rw [above_of_marks same (.refl reg k)] at upper
  rw [above_of_marks same upper] at lower
  rcases closed q upper lower with ⟨permanent, upwards⟩
  refine ⟨(volatile_of_marks (same q upper)).trans permanent, fun dirty => ?_⟩
  rw [dirty_of_marks (same q upper)] at dirty
  exact (upwards dirty).congr fun x above => same x (upper.trans above)

end

section

variable (branches : reg'.saveBranches = reg.saveBranches)
  (same : ∀ q, Above reg k q → (reg'.key q).marks = (reg.key q).marks)
include branches same

theorem AllDirty.congr (dirty : AllDirty reg k) : AllDirty reg' k := by
  intro r isRoot
  rw [branches] at isRoot
  exact (dirty r isRoot).congr same

/-- Marking depends on the path only. -/
theorem Ready.congr (ready : Ready reg k) : Ready reg' k := by
  rcases ready with isVolatile | closed
  · exact .inl ((volatile_of_marks (same k (.refl reg k))).trans isVolatile)
  · refine .inr fun r isRoot => ?_
    rw [branches] at isRoot
    exact (closed r isRoot).congr same

end

/-- A path that is cut off further down can still be marked. -/
theorem Ready.mono (branches : reg'.saveBranches = reg.saveBranches)
    (parents : ∀ q p, (reg'.key q).parent = some p → (reg.key q).parent = some p)
    (flags : ∀ q, (reg'.key q).marks.2 = (reg.key q).marks.2) (ready : Ready reg k) :
    Ready reg' k := by
  have above : ∀ q q', Above reg' q q' → Above reg q q' :=
    fun q q' path => Ancestor.mono (fun q p _ => parents q p) path
  have dirty : ∀ q, (reg'.key q).dirty = (reg.key q).dirty := fun q => congrArg Prod.snd (flags q)
  have isVolatile : ∀ q, (reg'.key q).volatile = (reg.key q).volatile :=
    fun q => congrArg Prod.fst (flags q)
  rcases ready with here | closed
  · exact .inl ((isVolatile k).trans here)
  · refine .inr fun r isRoot q upper lower => ?_
    rw [branches] at isRoot
    rcases closed r isRoot q (above k q upper) (above q r lower) with ⟨permanent, upwards⟩
    refine ⟨(isVolatile q).trans permanent, fun isDirty => ?_⟩
    rw [dirty q] at isDirty
    exact (upwards isDirty).mono (fun x y _ path => above x y path)
      fun x _ old => (dirty x).trans old

end Marks

/-! ## `make_dirty` -/

section MakeDirty

variable {reg : State} {k q r : KeyId} {fuel : Nat}

theorem blind_parent : Blind Key.parent := fun _ _ _ _ => rfl

@[simp]
theorem dirty_markDirty : ((reg.markDirty k).key k).dirty = true := by simp [State.markDirty]

/-- A mark is not seen from other keys. -/
theorem key_markDirty_of_ne (other : q ≠ k) : (reg.markDirty k).key q = reg.key q :=
  State.key_modifyKey_of_ne reg other _

theorem makeDirtyLoop_dirty (k : Option KeyId) (dirty : (reg.key q).dirty = true) :
    ((makeDirtyLoop fuel k reg).key q).dirty = true := by
  induction fuel generalizing k reg with
  | zero => exact dirty
  | succ fuel ih =>
    cases k with
    | none => exact dirty
    | some k =>
      rw [makeDirtyLoop]
      split_ifs
      · exact dirty
      · apply ih
        rcases eq_or_ne q k with rfl | other
        · exact dirty_markDirty
        · rw [key_markDirty_of_ne other]
          exact dirty

/-- Keys do not move when they are marked. -/
theorem Frame.above_iff {reg reg' : State} (frame : Frame Key.parent reg reg') (k q : KeyId) :
    Above reg' k q ↔ Above reg k q :=
  ancestor_congr fun q _ => frame.key q

theorem Frame.order {reg reg' : State} (frame : Frame Key.parent reg reg')
    (order : ∀ k p, (reg.key k).parent = some p → p < k) :
    ∀ k p, (reg'.key k).parent = some p → p < k := by
  intro k p isChild
  rw [frame.key k] at isChild
  exact order k p isChild

theorem makeDirtyLoop_above (start : Option KeyId) :
    Above (makeDirtyLoop fuel start reg) k q ↔ Above reg k q :=
  Frame.above_iff (makeDirtyLoop_frame (fun _ _ => rfl) fuel start reg) k q

theorem markDirty_above (x : KeyId) : Above (reg.markDirty x) k q ↔ Above reg k q :=
  Frame.above_iff (markDirty_frame (fun _ _ => rfl) reg x) k q

section

variable (order : ∀ k p, (reg.key k).parent = some p → p < k)
include order

/-- The mark of a key is not seen from the keys above it. -/
theorem marks_markDirty {p : KeyId} (below : p < k) :
    ∀ q, Above reg p q → ((reg.markDirty k).key q).marks = (reg.key q).marks := by
  intro q above
  have older : q ≠ k := ((above.le order).trans_lt below).ne
  rw [key_markDirty_of_ne older]

/-- The loop marks a closed path up to its end. -/
theorem makeDirtyLoop_dirtyTo (enough : k < fuel) (closed : ClosedTo reg k r) :
    DirtyTo (makeDirtyLoop fuel (some k) reg) k r := by
  induction fuel generalizing k reg with
  | zero => exact (Nat.not_lt_zero k enough).elim
  | succ fuel ih =>
    intro q upper lower
    rw [makeDirtyLoop_above] at upper lower
    rw [makeDirtyLoop]
    split_ifs with stop
    · have here := closed k (.refl reg k) (upper.trans lower)
      rcases stop with dirty | isVolatile
      · exact here.2 dirty q upper lower
      · rw [here.1] at isVolatile
        cases isVolatile
    · rcases parent : (reg.key k).parent with _ | p
      · have root : q = k := Ancestor.eq_of_root upper parent
        subst root
        exact makeDirtyLoop_dirty _ dirty_markDirty
      · rcases Ancestor.eq_or_above upper parent with rfl | above
        · exact makeDirtyLoop_dirty _ dirty_markDirty
        · -- the rest of the path does not see the mark at `k`
          have less := order k p parent
          have rest := ih (Frame.order (markDirty_frame (fun _ _ => rfl) reg k) order)
            (less.trans_le (Nat.le_of_lt_succ enough))
            ((closed.above (.single parent)).congr (marks_markDirty order less))
          apply rest q
          · rw [makeDirtyLoop_above, markDirty_above]
            exact above
          · rw [makeDirtyLoop_above, markDirty_above]
            exact lower

/-- A key that the loop marks lies on its way, and so does what is above. -/
theorem makeDirtyLoop_new (enough : k < fuel) (q : KeyId) :
    (makeDirtyLoop fuel (some k) reg).key q = reg.key q ∨ Above reg k q ∧
      ∀ r, ClosedTo reg q r → DirtyTo (makeDirtyLoop fuel (some k) reg) q r := by
  induction fuel generalizing k reg with
  | zero => exact (Nat.not_lt_zero k enough).elim
  | succ fuel ih =>
    rcases eq_or_ne q k with rfl | other
    · exact .inr ⟨.refl reg q, fun r closed => makeDirtyLoop_dirtyTo order enough closed⟩
    · rw [makeDirtyLoop]
      split_ifs with stop
      · exact .inl rfl
      · rcases parent : (reg.key k).parent with _ | p
        · have ends : makeDirtyLoop fuel none (reg.markDirty k) = reg.markDirty k := by
            cases fuel <;> rfl
          rw [ends]
          exact .inl (key_markDirty_of_ne other)
        · have less := order k p parent
          rcases ih (Frame.order (markDirty_frame (fun _ _ => rfl) reg k) order)
            (less.trans_le (Nat.le_of_lt_succ enough)) with same | ⟨above, rest⟩
          · exact .inl (same.trans (key_markDirty_of_ne other))
          · rw [markDirty_above] at above
            refine .inr ⟨(Above.single parent).trans above,
              fun r closed => rest r (closed.congr ?_)⟩
            intro x upper
            exact marks_markDirty order less x (above.trans upper)

/-! ## `touch_key` -/

end

theorem touchKey_above (x : KeyId) : Above (touchKey reg x) k q ↔ Above reg k q :=
  (touchKey_frame blind_parent reg x).above_iff k q

/-- The state in which the loop of a touched key starts. -/
theorem touchKey_start : ∃ start, touchKey reg k = makeDirtyLoop (k + 1) (some k) start ∧
      Frame Key.marks reg start ∧ ∀ q, q ≠ k → start.key q = reg.key q := by
  have timed : Frame Key.marks reg
      (reg.modifyKey k fun key => { key with modif := reg.currentTime }) :=
    Frame.modifyKey reg k _ fun _ => rfl
  exact ⟨_, rfl, ⟨timed.key, timed.nextKey, timed.saveBranches, timed.fault⟩,
    fun q other => by dsimp only; rw [State.key_modifyKey_of_ne reg other]⟩

theorem touchKey_dirty (k : KeyId) (dirty : (reg.key q).dirty = true) :
    ((touchKey reg k).key q).dirty = true := by
  rcases touchKey_start with ⟨start, same, frame, -⟩
  rw [same]
  apply makeDirtyLoop_dirty
  rw [dirty_of_marks (frame.key q)]
  exact dirty

section

variable (order : ∀ k p, (reg.key k).parent = some p → p < k)
include order

/-- Touching a key marks its path. -/
theorem touchKey_allDirty (closed : Closed reg k) : AllDirty (touchKey reg k) k := by
  rcases touchKey_start with ⟨start, same, frame, -⟩
  intro r isRoot
  rw [(touchKey_frame blind_parent reg k).saveBranches] at isRoot
  rw [same]
  apply makeDirtyLoop_dirtyTo _ (Nat.lt_succ_self k)
  · exact (closed r isRoot).congr fun q _ => frame.key q
  · exact (frame.comp Prod.fst).order order

theorem touchKey_marked (ready : Ready reg k) : Marked (touchKey reg k) k := by
  have flag : ((touchKey reg k).key k).volatile = (reg.key k).volatile :=
    (touchKey_frame (show Blind Key.volatile from fun _ _ _ _ => rfl) reg k).key k
  rcases ready with isVolatile | closed
  · exact .inl (flag.trans isVolatile)
  · exact .inr (touchKey_allDirty order closed)

/-- Touching a key does not spoil the path of another one. -/
theorem touchKey_ready (x : KeyId) (ready : Ready reg k) : Ready (touchKey reg x) k := by
  rcases touchKey_start with ⟨start, same, frame, -⟩
  have order' := (frame.comp Prod.fst).order order
  have flag : ∀ q, ((touchKey reg x).key q).volatile = (reg.key q).volatile :=
    (touchKey_frame (show Blind Key.volatile from fun _ _ _ _ => rfl) reg x).key
  rcases ready with isVolatile | closed
  · exact .inl ((flag k).trans isVolatile)
  · refine .inr fun r isRoot q upper lower => ?_
    rw [(touchKey_frame blind_parent reg x).saveBranches] at isRoot
    rw [touchKey_above] at upper lower
    have closedTo := closed r isRoot
    rcases closedTo q upper lower with ⟨permanent, upwards⟩
    refine ⟨(flag q).trans permanent, fun dirty => ?_⟩
    rw [same] at dirty
    rcases makeDirtyLoop_new order' (Nat.lt_succ_self x) q with old | ⟨_, rest⟩
    · rw [old, dirty_of_marks (frame.key q)] at dirty
      refine DirtyTo.mono (fun a b _ above => ?_) (fun a _ => ?_) (upwards dirty)
      · exact (touchKey_above x).mp above
      · exact touchKey_dirty x
    · rw [same]
      exact rest r ((closedTo.above upper).congr fun q _ => frame.key q)

end

end MakeDirty

/-! ## `make_clean` -/

section MakeClean

variable {reg reg' reg'' : State} {k q root : KeyId} {counter : Nat}

/-- Some keys at or below the root that changed early enough are clean now. -/
def Cleans (counter : Nat) (root : KeyId) (reg reg' : State) : Prop :=
  ∀ q, reg'.key q = reg.key q ∨ reg'.key q = { reg.key q with dirty := false } ∧
      (reg.key q).timestampCounter ≤ counter ∧ Above reg q root

theorem Cleans.refl (counter : Nat) (root : KeyId) (reg : State) :
    Cleans counter root reg reg :=
  fun _ => .inl rfl

section

variable (cleans : Cleans counter root reg reg')
include cleans

theorem Cleans.keeps {View : Type*} (view : Key → View)
    (blind : ∀ key : Key, view { key with dirty := false } = view key) (q : KeyId) :
    view (reg'.key q) = view (reg.key q) := by
  rcases cleans q with same | ⟨same, _⟩
  · rw [same]
  · rw [same, blind]

theorem Cleans.parent (q : KeyId) : (reg'.key q).parent = (reg.key q).parent :=
  cleans.keeps Key.parent (fun _ => rfl) q

theorem Cleans.above_iff (k q : KeyId) : Above reg' k q ↔ Above reg k q :=
  ancestor_congr fun q _ => cleans.parent q

omit cleans in
theorem Cleans.trans (first : Cleans counter root reg reg')
    (second : Cleans counter root reg' reg'') :
    Cleans counter root reg reg'' := by
  intro q
  rcases second q with kept | ⟨cleared, early, below⟩
  · rw [kept]
    exact first q
  · rw [first.above_iff] at below
    rcases first q with same | ⟨same, early', _⟩
    · rw [same] at cleared early
      exact .inr ⟨cleared, early, below⟩
    · rw [same] at cleared
      exact .inr ⟨cleared, early', below⟩

omit cleans in
theorem Cleans.mono (cleans : Cleans counter k reg reg') (above : Above reg k root) :
    Cleans counter root reg reg' := by
  intro q
  rcases cleans q with same | ⟨cleared, early, below⟩
  · exact .inl same
  · exact .inr ⟨cleared, early, below.trans above⟩

/-- The keys in the arrays have their parents there. -/
def ArraysBelow (reg : State) : Prop := ∀ p x, x ∈ (reg.key p).subkeys → (reg.key x).parent = some p

theorem Cleans.arraysBelow (arrays : ArraysBelow reg) : ArraysBelow reg' := by
  intro p x member
  rw [cleans.keeps Key.subkeys (fun _ => rfl)] at member
  rw [cleans.parent x]
  exact arrays p x member

end

theorem makeClean_cleans (arrays : ArraysBelow reg) (counter fuel : Nat) (k : KeyId) :
    Cleans counter k reg (makeClean counter fuel reg k) := by
  induction fuel generalizing reg k with
  | zero => exact .refl counter k reg
  | succ fuel ih =>
    have children : ∀ (ks : List KeyId) (reg : State), ArraysBelow reg → (∀ x ∈ ks, Above reg x k) →
        Cleans counter k reg (ks.foldl (makeClean counter fuel) reg) := by
      intro ks
      induction ks with
      | nil =>
        intro reg _ _
        exact .refl counter k reg
      | cons x ks ihKs =>
        intro reg arrays below
        have first := (ih arrays x).mono (below x List.mem_cons_self)
        refine first.trans (ihKs _ (first.arraysBelow arrays) ?_)
        intro y member
        rw [first.above_iff]
        exact below y (List.mem_cons_of_mem x member)
    have cleared : Cleans counter k reg (if (reg.key k).timestampCounter ≤ counter then
          reg.setKey k { reg.key k with dirty := false } else reg) := by
      split_ifs with early
      · intro q
        rcases eq_or_ne q k with rfl | other
        · exact .inr ⟨State.key_setKey_self _ _ _, early, .refl reg q⟩
        · exact .inl (State.key_setKey_of_ne _ other _)
      · exact .refl counter k reg
    rw [makeClean]
    by_cases isVolatile : (reg.key k).volatile = true
    · rw [if_pos isVolatile]
      exact .refl counter k reg
    · rw [if_neg isVolatile]
      by_cases clean : ¬ (reg.key k).dirty = true
      · rw [if_pos clean]
        exact .refl counter k reg
      · rw [if_neg clean]
        refine cleared.trans (children _ _ (cleared.arraysBelow arrays) ?_)
        intro x member
        rw [cleared.above_iff]
        exact .single (arrays k x member)

/-- A key that changed late, or is elsewhere, is as dirty as before. -/
theorem Cleans.dirty (cleans : Cleans counter root reg reg')
    (spared : counter < (reg.key q).timestampCounter ∨ ¬ Above reg q root) :
    (reg'.key q).dirty = (reg.key q).dirty := by
  rcases cleans q with same | ⟨_, early, below⟩
  · rw [same]
  · rcases spared with late | elsewhere
    · exact (Nat.not_lt.mpr early late).elim
    · exact (elsewhere below).elim

end MakeClean

end WineRedRose.Registry
