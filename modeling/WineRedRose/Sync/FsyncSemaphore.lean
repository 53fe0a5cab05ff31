import WineRedRose.Library.Runs
import WineRedRose.Sync.Semaphore

/-!
# Fsync semaphores

With fsync the count of a semaphore lives in memory that all processes share,
and `dlls/ntdll/unix/fsync.c` works on it with compare-and-swap loops.  Every
access to the count is one step here, and the steps of any number of threads
interleave.  The model keeps the local variables that a thread carries from
one access to the next.

The result compares each step with the server's `release_semaphore` at the
count that the step finds.
-/

namespace WineRedRose.Sync.Fsync

open Library.Runs BitVec

/-! ## The threads -/

abbrev ThreadId := Nat

/-- Where a thread stands in the semaphore code. -/
inductive Thread where
  | idle
  /-- At the top of the loop of `fsync_release_semaphore`. -/
  | release (count : BitVec 32)
  /-- Before the compare-and-swap of `fsync_release_semaphore`. -/
  | releaseSwap (count current : BitVec 32)
  /-- Before the first load of the count in `__fsync_wait_objects`. -/
  | grab
  /-- Before the compare-and-swap of `__fsync_wait_objects`. -/
  | grabSwap (current : BitVec 32)
deriving DecidableEq, Repr

/-- What the caller learns when an operation ends. -/
inductive Outcome where
  | released (count previous : BitVec 32)
  | limitExceeded (count : BitVec 32)
  | grabbed
  /-- The count was zero: the wait goes on to the next object or sleeps. -/
  | notSignaled
deriving DecidableEq, Repr

/-- The loop condition `current = new` of the grabbing loop. -/
def grabLoop (new : BitVec 32) : Thread × Option Outcome :=
  if new = 0 then (.idle, some .notSignaled) else (.grabSwap new, none)

/-- The next access of a thread to the shared memory. -/
def access (sem : Semaphore) : Thread → Semaphore × Thread × Option Outcome
  | .idle => (sem, .idle, none)
  | .release count =>
    let current := sem.count
    if count + current > sem.max then (sem, .idle, some (.limitExceeded count))
    else (sem, .releaseSwap count current, none)
  | .releaseSwap count current =>
    if sem.count = current then
      ({ sem with count := count + current }, .idle, some (.released count current))
    else (sem, .release count, none)
  | .grab => (sem, grabLoop sem.count)
  | .grabSwap current =>
    if sem.count = current then ({ sem with count := current - 1 }, .idle, some .grabbed)
    else (sem, grabLoop sem.count)

/-- The shared semaphore and the threads that use it. -/
structure State where
  sem : Semaphore
  thread : ThreadId → Thread

/-- A thread calls one of the operations, or goes on with the current one. -/
inductive Command where
  | releaseSemaphore (count : BitVec 32)
  | wait
  | next
deriving DecidableEq, Repr

/-- A command of one thread; a new call needs an idle thread. -/
structure Action where
  tid : ThreadId
  command : Command
deriving DecidableEq, Repr

def State.setThread (state : State) (tid : ThreadId) (thread : Thread) :
    State :=
  { state with thread := Function.update state.thread tid thread }

def step (state : State) (action : Action) : State :=
  match action.command with
  | .releaseSemaphore count =>
    if state.thread action.tid = .idle then state.setThread action.tid (.release count)
    else state
  | .wait =>
    if state.thread action.tid = .idle then state.setThread action.tid .grab
    else state
  | .next =>
    let (sem, thread, _) := access state.sem (state.thread action.tid)
    { state with sem := sem }.setThread action.tid thread

/-- What the caller learns from a step. -/
def outcome (state : State) (action : Action) : Option Outcome :=
  match action.command with
  | .next => (access state.sem (state.thread action.tid)).2.2
  | _ => none

/-- A created semaphore that no thread uses yet. -/
def start (sem : Semaphore) : State := ⟨sem, fun _ => .idle⟩

/-! ## Agreement with the server -/

/-- The count is between zero and the maximum, both as `int`. -/
def InBounds (sem : Semaphore) : Prop := 0 ≤ sem.count.toInt ∧ sem.count.toInt ≤ sem.max.toInt

/--
What a step does to the semaphore and tells its caller is what the server
would do and tell for the same count.
-/
def AgreesWith (sem : Semaphore) : Option Outcome → Semaphore → Prop
  | some (.released count previous), sem' =>
    sem'.count.toNat = sem.count.toNat + count.toNat ∧
      ntReleaseSemaphore sem count = ⟨.success, some previous, sem'⟩
  | some (.limitExceeded count), sem' =>
    ntReleaseSemaphore sem count = ⟨.semaphoreLimitExceeded, none, sem'⟩
  | some .grabbed, sem' => sem.count.toNat = sem'.count.toNat + 1 ∧ sem' = semaphoreSatisfied sem
  | some .notSignaled, sem' => semaphoreSignaled sem = false ∧ sem' = sem
  | none, sem' => sem' = sem

instance (sem : Semaphore) :
    ∀ (outcome : Option Outcome) (sem' : Semaphore), Decidable (AgreesWith sem outcome sem')
  | some (.released _ _), _ => inferInstanceAs (Decidable (_ ∧ _))
  | some (.limitExceeded _), _ => inferInstanceAs (Decidable (_ = _))
  | some .grabbed, _ => inferInstanceAs (Decidable (_ ∧ _))
  | some .notSignaled, _ => inferInstanceAs (Decidable (_ ∧ _))
  | none, _ => inferInstanceAs (Decidable (_ = _))

/-- A step agrees with the server. -/
def Refines (state : State) (action : Action) : Prop :=
  AgreesWith state.sem (outcome state action) (step state action).sem

instance (state : State) (action : Action) :
    Decidable (Refines state action) :=
  inferInstanceAs (Decidable (AgreesWith _ _ _))

/--
The step is not the update of a release whose sum with the shared count
exceeds 32 bits.
-/
def FitsWord (state : State) (action : Action) : Prop := ∀ count, action.command = .next →
    state.thread action.tid = .releaseSwap count state.sem.count →
    count.toNat + state.sem.count.toNat < 2 ^ 32

/-! ## The invariant -/

/-- What the local variables of a thread satisfy. -/
def LocalInv (max : BitVec 32) : Thread → Prop
  | .releaseSwap count current => count + current ≤ max
  | .grabSwap current => current ≠ 0
  | _ => True

/-- The bounds, and what every thread relies on. -/
structure Inv (state : State) : Prop where
  max_lt : state.sem.max.toNat < 2 ^ 31
  count_le : state.sem.count.toNat ≤ state.sem.max.toNat
  threads : ∀ tid, LocalInv state.sem.max (state.thread tid)

variable {state : State} {sem : Semaphore} {thread : Thread}

theorem Inv.inBounds (inv : Inv state) : InBounds state.sem := by
  rcases inv with ⟨max_lt, count_le, -⟩
  simp only [InBounds, toInt_eq_toNat_cond]
  split_ifs <;> omega

theorem inv_start {initial max : BitVec 32} (created : ntCreateSemaphore initial max = .ok sem) :
    Inv (start sem) := by
  simp only [ntCreateSemaphore] at created
  split_ifs at created with invalid
  cases created
  simp only [toInt_eq_toNat_cond] at invalid
  refine ⟨?_, ?_, fun tid => trivial⟩ <;> simp only [start] <;>
    split_ifs at invalid <;> omega

theorem localInv_grabLoop (max new : BitVec 32) : LocalInv max (grabLoop new).1 := by
  simp only [grabLoop]
  split_ifs with zero
  · trivial
  · exact zero

/--
One access keeps the bounds, also when the sum of a release wraps around: it
is then less than the count it replaces.
-/
theorem access_inv (count_le : sem.count.toNat ≤ sem.max.toNat)
    (localInv : LocalInv sem.max thread) :
    let (sem', thread', _) := access sem thread
    sem'.max = sem.max ∧ sem'.count.toNat ≤ sem.max.toNat ∧ LocalInv sem.max thread' := by
  cases thread with
  | idle => exact ⟨rfl, count_le, trivial⟩
  | release count =>
    simp only [access]
    split_ifs with exceeded
    · exact ⟨rfl, count_le, trivial⟩
    · exact ⟨rfl, count_le, BitVec.not_lt.mp exceeded⟩
  | releaseSwap count current =>
    simp only [access]
    split_ifs with unchanged
    · exact ⟨rfl, BitVec.le_def.mp localInv, trivial⟩
    · exact ⟨rfl, count_le, trivial⟩
  | grab => exact ⟨rfl, count_le, localInv_grabLoop _ _⟩
  | grabSwap current =>
    simp only [access]
    split_ifs with unchanged
    · refine ⟨rfl, ?_, trivial⟩
      have nonzero : current ≠ 0 := localInv
      bv_omega
    · exact ⟨rfl, count_le, localInv_grabLoop _ _⟩

/-- The sum of the limit test, in exact arithmetic. -/
theorem add_gt_max_iff {count current max : BitVec 32} (current_le : current.toNat ≤ max.toNat) :
    count + current > max ↔ count.toNat + current.toNat < 2 ^ 32 ∧
      max.toNat < count.toNat + current.toNat := by
  simp only [gt_iff_lt, lt_def, toNat_add]
  omega

/-- Leaving the grabbing loop without the semaphore. -/
theorem agreesWith_grabLoop : AgreesWith sem (grabLoop sem.count).2 sem := by
  simp only [grabLoop]
  split_ifs with zero
  · exact ⟨by simp [semaphoreSignaled, zero], rfl⟩
  · rfl

/-- An access agrees with the server unless it writes a sum that wrapped. -/
theorem access_agrees (count_le : sem.count.toNat ≤ sem.max.toNat)
    (localInv : LocalInv sem.max thread) :
    AgreesWith sem (access sem thread).2.2 (access sem thread).1 ↔
      ∀ count, thread = .releaseSwap count sem.count → count.toNat + sem.count.toNat < 2 ^ 32 := by
  cases thread with
  | idle => exact iff_of_true rfl (by simp)
  | release count =>
    apply iff_of_true ?_ (by simp)
    simp only [access]
    split_ifs with exceeded
    · have limit := (add_gt_max_iff count_le).mp exceeded
      simp only [AgreesWith, ntReleaseSemaphore_eq]
      rw [if_neg (by omega)]
    · rfl
  | releaseSwap count current =>
    simp only [access, Thread.releaseSwap.injEq]
    split_ifs with unchanged
    · subst unchanged
      have within : count + sem.count ≤ sem.max := localInv
      simp only [AgreesWith, ntReleaseSemaphore_eq]
      constructor
      · rintro ⟨sum, -⟩ other ⟨rfl, -⟩
        omega
      · intro fits
        have small := fits count ⟨rfl, trivial⟩
        have sum : (count + sem.count).toNat = count.toNat + sem.count.toNat := by
          rw [toNat_add, Nat.mod_eq_of_lt small]
        rw [le_def, sum] at within
        rw [if_pos (by omega), add_comm sem.count count]
        exact ⟨by omega, rfl⟩
    · refine iff_of_true rfl ?_
      rintro other ⟨-, same⟩
      exact (unchanged same.symm).elim
  | grab => exact iff_of_true agreesWith_grabLoop (by simp)
  | grabSwap current =>
    apply iff_of_true ?_ (by simp)
    simp only [access]
    split_ifs with unchanged
    · have nonzero : current ≠ 0 := localInv
      rw [← unchanged] at nonzero ⊢
      refine ⟨?_, rfl⟩
      bv_omega
    · exact agreesWith_grabLoop

theorem Inv.setThread (inv : Inv state) (tid : ThreadId)
    (localInv : LocalInv state.sem.max thread) :
    Inv (state.setThread tid thread) where
  max_lt := inv.max_lt
  count_le := inv.count_le
  threads other := by
    rcases eq_or_ne other tid with rfl | distinct
    · simpa [State.setThread] using localInv
    · simpa [State.setThread, distinct] using inv.threads other

/-- Every step keeps the invariant. -/
theorem Inv.step (inv : Inv state) (action : Action) : Inv (step state action) := by
  rcases action with ⟨tid, command⟩
  cases command with
  | releaseSemaphore _ | wait =>
    simp only [Fsync.step]
    split_ifs
    · exact inv.setThread tid trivial
    · exact inv
  | next =>
    have accessed := access_inv inv.count_le (inv.threads tid)
    rcases accessed with ⟨sameMax, count_le, localInv⟩
    have moved : Inv { state with
        sem := (access state.sem (state.thread tid)).1 } :=
      ⟨sameMax ▸ inv.max_lt, sameMax ▸ count_le, fun other => sameMax ▸ inv.threads other⟩
    exact moved.setThread tid (sameMax ▸ localInv)

/-- A step agrees with the server exactly if no wrapped sum is written. -/
theorem Inv.refines_iff (inv : Inv state) (action : Action) :
    Refines state action ↔ FitsWord state action := by
  rcases action with ⟨tid, command⟩
  cases command with
  | releaseSemaphore _ | wait =>
    refine iff_of_true ?_ (by simp [FitsWord])
    simp only [Refines, outcome, Fsync.step]
    split_ifs <;> rfl
  | next =>
    have agrees := access_agrees inv.count_le (inv.threads tid)
    exact agrees.trans (by simp [FitsWord])

/-! ## Runs -/

/--
For every created semaphore and every interleaving of releases and waits the
shared count stays within its bounds.  All steps agree with the server
exactly if no release is carried out whose sum exceeds 32 bits.
-/
theorem fsyncSemaphore_refines_iff (initial max : BitVec 32) (sem : Semaphore)
    (created : ntCreateSemaphore initial max = .ok sem) (actions : List Action) :
    Visits step (fun state => InBounds state.sem) (start sem) actions ∧
      (Along step Refines (start sem) actions ↔ Along step FitsWord (start sem) actions) := by
  have initially := inv_start created
  constructor
  · have visits : Visits step Inv (start sem) actions := by
      apply visits_of_step
      · exact fun _ action inv => inv.step action
      · exact initially
    exact visits.mono fun _ => Inv.inBounds
  · exact along_congr (fun _ action inv => inv.refines_iff action)
      (fun _ action inv _ => inv.step action) initially

theorem fsyncSemaphore_refines_iff_binary : ntCreateSemaphore 0 1 = .ok ⟨0, 1⟩ ∧
      Along step Refines (start ⟨0, 1⟩)
        [⟨0, .releaseSemaphore 1⟩, ⟨1, .wait⟩, ⟨0, .next⟩, ⟨0, .next⟩, ⟨1, .next⟩, ⟨1, .next⟩] :=
  ⟨by decide, (fsyncSemaphore_refines_iff 0 1 ⟨0, 1⟩ (by decide) _).2.mpr
      (by simp [Along, FitsWord, step, start, State.setThread, access, grabLoop])⟩

/--
A release of `0xffffffff` on a count of one succeeds and takes the count
down to zero; the server refuses it.
-/
theorem fsyncRelease_wraps : ntCreateSemaphore 1 1 = .ok ⟨1, 1⟩ ∧
      ¬ Along step Refines (start ⟨1, 1⟩)
        [⟨0, .releaseSemaphore 0xffffffff⟩, ⟨0, .next⟩, ⟨0, .next⟩] := by
  decide

end WineRedRose.Sync.Fsync
