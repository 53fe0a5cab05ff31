import WineRedRose.Fsync.Model

/-!
# Waiting for all objects

What a wait for several objects does while no other thread takes a step.  The
first step of `__fsync_wait_objects` goes to sleep on an abandoned mutex,
while the second and third step take it for a free one, so that a wait with a
zero timeout fails where the server would return `STATUS_ABANDONED`.  The
kernel may even refuse to sleep on that word, and the wait does not end.
-/

namespace WineRedRose.Fsync

open List Function Object

open Waits (ObjectId WaitObjects statusTimeout statusWait0
  statusAbandonedWait0 statusPending)

variable {futexWaitv : List Waitv → FutexResult} {t : Tid} {apcFutex : ApcFutex} {memory : Memory}
variable {objects : List ObjectId} {object : Object} {o : ObjectId}

/-! ## What a wait for all objects should do -/

/--
The object is signaled for the thread: a mutex is free, abandoned or owned by
the thread.
-/
def Object.available (t : Tid) : Object → Bool
  | .semaphore sem => Sync.semaphoreSignaled sem
  | .mutex m => m.tid = 0#32 || m.tid = abandonedTid || m.tid = t.word
  | .event _ signaled => signaled ≠ 0#32

/--
The result that the server would give: all objects are taken, or none of them
if one is not signaled.
-/
def TakesAll (t : Tid) (objects : List ObjectId) (memory : Memory) (result : Memory × Nat) : Prop :=
  if objects.all fun o => (memory o).available t then
    (result.2 =
      if objects.any fun o => (memory o).abandoned then statusAbandoned
      else statusWait0) ∧
    (∀ o ∈ objects, (result.1 o).toServer = ((memory o).toServer).taken t.toServer) ∧
    ∀ o, o ∉ objects → result.1 o = memory o
  else result = (memory, statusTimeout)

/-- An automatic event is signaled by the word that the swap looks for. -/
def Object.Plain : Object → Prop
  | .event type signaled => type.auto = true → signaled = 1#32
  | _ => True

/-- The first step does not wait for the object, and its count is in order. -/
def Object.Orderly : Object → Prop
  | .mutex m => m.tid ≠ abandonedTid ∧ (m.tid = 0#32 → m.count = 0#32)
  | _ => True

/--
What the kernel answers when the end time has passed and nobody wakes the
thread.  A value with more than 32 bits is cut to the word or refused.
-/
structure Expired (futexWaitv : List Waitv → FutexResult) : Prop where
  timesOut : ∀ entries, (∀ entry ∈ entries, entry.val = entry.word.setWidth 64) →
    futexWaitv entries = .timedOut
  cutOrRefused : ∀ entries, (∀ entry ∈ entries, entry.val.setWidth 32 = entry.word) →
    futexWaitv entries = .timedOut ∨ futexWaitv entries = .failed

/-- The object that the first step waits for. -/
def firstWaited (t : Tid) (objects : List ObjectId) (memory : Memory) : Option ObjectId :=
  objects.find? fun o => mustWait t (memory o)

/-- When the wait for all objects does what it should. -/
def WaitAllSafe (futexWaitv : List Waitv → FutexResult) (t : Tid) (apcFutex : ApcFutex)
    (objects : List ObjectId) (memory : Memory) : Prop :=
  if objects.all fun o => (memory o).available t then
    objects ≠ [] ∧ (∀ o ∈ objects, (memory o).Plain) ∧
      (2 ≤ objects.length → ∀ o ∈ objects, (memory o).Orderly) ∧
      (apcFutex.pending = true → 2 ≤ objects.length)
  else
    apcFutex.pending = false ∧ (2 ≤ objects.length → ∀ o ∈ firstWaited t objects memory,
      (waitWord (memory o)).msb = true →
        futexWaitv (waitvEntries apcFutex (waitWord (memory o))) = .timedOut)

/-! ## Single objects -/

section Mutexes

variable {m : Mutex}

theorem Mutex.toServer_of_free (free : m.tid = 0#32) :
    m.toServer = { count := 0#32, owner := none, abandoned := false } := by
  rw [toServer, if_pos free]

theorem Mutex.toServer_of_abandoned (dead : m.tid = abandonedTid) :
    m.toServer = { count := 0#32, owner := none, abandoned := true } := by
  rw [toServer, dead, if_neg (by decide), if_pos rfl]

theorem Mutex.toServer_of_owned (owned : m.tid = t.word) :
    m.toServer = { count := m.count, owner := some t.toServer, abandoned := false } := by
  rw [toServer, owned, if_neg t.notFree, if_neg t.notAbandoned, Tid.toServer]

/-- The mutex of the server after a thread has got a free one. -/
theorem taken_of_free {abandoned : Bool} (t : Waits.ThreadId) :
    (Waits.Object.mutex { count := 0#32, owner := none, abandoned := abandoned }).taken t =
      .mutex { count := 1#32, owner := some t, abandoned := false } := rfl

/-- The mutex of the server after its owner has got it again. -/
theorem taken_of_owned {count : Word} (t : Waits.ThreadId) :
    (Waits.Object.mutex { count := count, owner := some t, abandoned := false }).taken t =
      .mutex { count := count + 1#32, owner := some t, abandoned := false } := by
  simp [Waits.Object.taken]

end Mutexes

/-- The server agrees on what is signaled: an owner has a recursion count. -/
theorem Object.signaled_toServer
    (counted : ∀ m, object = .mutex m → m.tid ≠ 0#32 → m.tid ≠ abandonedTid → m.count ≠ 0#32) :
    object.toServer.signaled t.toServer = object.available t := by
  cases object with
  | semaphore sem => rfl
  | event type signaled => rfl
  | mutex m =>
    have same : m.tid.toNat = t.toServer ↔ m.tid = t.word := BitVec.toNat_inj
    simp only [toServer, Mutex.toServer, Waits.Object.signaled, available]
    split_ifs with free dead
    · simp [free]
    · simp [dead]
    · simp [counted m rfl free dead, free, dead, same]

theorem mustWait_eq_false_iff :
    mustWait t object = false ↔ object.available t = true ∧ object.abandoned = false := by
  cases object with
  | semaphore sem =>
    simp [mustWait, available, abandoned, Sync.semaphoreSignaled, BitVec.pos_iff_ne_zero]
  | event type signaled => simp [mustWait, available, abandoned]
  | mutex m =>
    have other := t.notAbandoned
    simp only [mustWait, available, abandoned]
    by_cases mine : m.tid = t.word <;> by_cases free : m.tid = 0#32 <;> simp_all [abandonedTid]

theorem stillSignaled_of_not_mustWait (passes : mustWait t object = false) :
    stillSignaled t object = true := by
  cases object with
  | semaphore sem => simpa [mustWait, stillSignaled] using passes
  | event type signaled => simpa [mustWait, stillSignaled] using passes
  | mutex m =>
    simp only [mustWait, stillSignaled] at passes ⊢
    by_cases mine : m.tid = t.word <;> simp_all

/-- The object after the third step. -/
def grabbed (t : Tid) : Object → Object
  | .mutex m => .mutex { m with tid := t.word }
  | .semaphore sem => .semaphore { sem with count := sem.count - 1 }
  | .event type signaled => .event type (if type.auto ∧ signaled = 1 then 0 else signaled)

theorem grab_of_not_mustWait (passes : mustWait t object = false) :
    grab t object = some (grabbed t object, false) := by
  cases object with
  | semaphore sem =>
    have count : sem.count ≠ 0#32 := of_decide_eq_false passes
    simp [grab, count, grabbed]
  | event type signaled =>
    have word : signaled ≠ 0#32 := of_decide_eq_false passes
    rw [grab, if_neg word, grabbed]
    cases type.auto <;> simp
  | mutex m =>
    have free : m.tid ≠ t.word → m.tid = 0#32 := by simpa [mustWait] using passes
    rw [grab]
    split_ifs with mine held
    · simp [grabbed, ← mine]
    · exact (held.1 (free mine)).elim
    · have zero := free mine
      simp [grabbed, zero, abandonedTid]

/-- The grabbed object is the one that the server would leave. -/
theorem toServer_grabbed (passes : mustWait t object = false) :
    (addCount (grabbed t object)).toServer = (object.toServer).taken t.toServer ↔
      object.Plain ∧ object.Orderly := by
  cases object with
  | semaphore sem => exact iff_of_true rfl ⟨trivial, trivial⟩
  | event type signaled =>
    have word : signaled ≠ 0#32 := of_decide_eq_false passes
    cases auto : type.auto
    · simp [grabbed, addCount, toServer, Waits.Object.taken, auto, Object.Plain, Object.Orderly]
    · by_cases one : signaled = 1#32
      · simp [grabbed, addCount, toServer, Waits.Object.taken, auto,
          Object.Plain, Object.Orderly, one]
      · simp [grabbed, addCount, toServer,
          Waits.Object.taken, auto, Object.Plain, Object.Orderly, one, word]
  | mutex m =>
    have after : (addCount (grabbed t (.mutex m))).toServer =
        .mutex { count := m.count + 1#32, owner := some t.toServer, abandoned := false } :=
      congrArg Waits.Object.mutex (Mutex.toServer_of_owned rfl)
    have owner : m.tid = t.word ∨ m.tid = 0#32 := by
      have free : m.tid ≠ t.word → m.tid = 0#32 := by simpa [mustWait] using passes
      exact or_iff_not_imp_left.mpr free
    rw [after, toServer]
    rcases owner with mine | free
    · rw [Mutex.toServer_of_owned mine, taken_of_owned]
      refine iff_of_true rfl ⟨trivial, ?_, fun zero => ?_⟩
      · exact mine ▸ t.notAbandoned
      · exact (t.notFree (mine ▸ zero)).elim
    · rw [Mutex.toServer_of_free free, taken_of_free]
      have alive : 0#32 ≠ abandonedTid := by decide
      simp [Object.Plain, Object.Orderly, free, alive]

/-! ## All objects -/

/-- Each of the objects is changed in the same way. -/
def mapObjects (change : Object → Object) (objects : List ObjectId) (memory : Memory) : Memory :=
  fun o => if o ∈ objects then change (memory o) else memory o

theorem mapObjects_cons {change : Object → Object} (absent : o ∉ objects) (memory : Memory) :
    mapObjects change objects (update memory o (change (memory o))) =
      mapObjects change (o :: objects) memory := by
  funext p
  rcases eq_or_ne p o with rfl | other
  · simp [mapObjects, absent]
  · simp [mapObjects, other]

theorem grabAll_eq (distinct : objects.Nodup)
    (passes : ∀ o ∈ objects, mustWait t (memory o) = false) :
    grabAll t objects memory = (mapObjects (grabbed t) objects memory, some false) := by
  induction objects generalizing memory with
  | nil => rfl
  | cons o objects ih =>
    rcases nodup_cons.mp distinct with ⟨absent, rest⟩
    have here := grab_of_not_mustWait (passes o mem_cons_self)
    have later := @ih (update memory o (grabbed t (memory o))) rest fun p member => by
        have other : p ≠ o := fun same => absent (same ▸ member)
        rw [update_of_ne other]
        exact passes p (mem_cons_of_mem _ member)
    rw [mapObjects_cons absent] at later
    simp only [grabAll, here, later, Bool.false_or]

/-- A loop that changes one object after the other. -/
theorem foldl_update_eq_mapObjects (change : Object → Object) (distinct : objects.Nodup)
    (memory : Memory) : objects.foldl (fun memory o => update memory o (change (memory o))) memory =
      mapObjects change objects memory := by
  induction objects generalizing memory with
  | nil => rfl
  | cons o objects ih =>
    rcases nodup_cons.mp distinct with ⟨absent, rest⟩
    rw [← mapObjects_cons absent]
    exact ih rest _

/-! ## The first step -/

theorem setWidth_futexVectorSet (word : Word) :
    (futexVectorSet word).val.setWidth 32 = (futexVectorSet word).word := by
  have cut : (word.signExtend 64).setWidth 32 = word := by grind
  exact cut

theorem mem_waitvEntries {entry : Waitv} {word : Word}
    (member : entry ∈ waitvEntries apcFutex word) :
    entry = futexVectorSet word ∨ ∃ apc ∈ apcFutex, entry = futexVectorSet apc := by
  cases apcFutex with
  | none => exact .inl (mem_singleton.mp member)
  | some apc =>
    rcases mem_cons.mp member with here | later
    · exact .inl here
    · exact .inr ⟨apc, rfl, mem_singleton.mp later⟩

section Kernel

variable (expired : Expired futexWaitv) {word : Word}
include expired

/-- The kernel does not say that a word was woken. -/
theorem Expired.timedOut_or_failed (apcFutex : ApcFutex) (word : Word) :
    futexWaitv (waitvEntries apcFutex word) = .timedOut ∨
      futexWaitv (waitvEntries apcFutex word) = .failed := by
  refine expired.cutOrRefused _ fun entry member => ?_
  rcases mem_waitvEntries member with rfl | ⟨apc, _, rfl⟩ <;> exact setWidth_futexVectorSet _

/-- A word that is not negative is waited for. -/
theorem Expired.timedOut_of_msb (quiet : apcFutex.pending = false) (positive : word.msb = false) :
    futexWaitv (waitvEntries apcFutex word) = .timedOut := by
  refine expired.timesOut _ fun entry member => ?_
  rcases mem_waitvEntries member with rfl | ⟨apc, found, rfl⟩
  · exact BitVec.signExtend_eq_setWidth_of_msb_false positive
  · obtain rfl : apcFutex = some apc := found
    obtain rfl : apc = 0#32 := by simpa [ApcFutex.pending] using quiet
    rfl

/-- How a call ends in the first step, if it ends. -/
def stopped (futexWaitv : List Waitv → FutexResult) (apcFutex : ApcFutex) (word : Word) :
    Option Nat :=
  if apcFutex.pending then some statusUserApc
  else if futexWaitv (waitvEntries apcFutex word) = .timedOut then some statusTimeout
  else none

/-- A refused wait is tried again for ever. -/
theorem waitOne_of_mustWait (waits : mustWait t object = true) (fuel : Nat) :
    waitOne futexWaitv t apcFutex object (fuel + 1) =
      stopped futexWaitv apcFutex (waitWord object) := by
  have answer := expired.timedOut_or_failed apcFutex (waitWord object)
  induction fuel with
  | zero =>
    rcases answer with answer | answer <;>
      cases pending : apcFutex.pending <;>
      simp [waitOne, waits, doSingleWait, stopped, answer, pending, statusPending,
        statusUserApc, statusTimeout]
  | succ fuel ih =>
    rw [waitOne, if_pos waits]
    rcases answer with answer | answer <;>
      cases pending : apcFutex.pending <;>
      simp [ih, doSingleWait, stopped, answer, pending, statusPending,
        statusUserApc, statusTimeout]

theorem waitEach_eq (fuel : Nat) :
    waitEach futexWaitv t apcFutex memory (fuel + 1) objects =
      match firstWaited t objects memory with
      | none => some statusWait0
      | some o => stopped futexWaitv apcFutex (waitWord (memory o)) := by
  induction objects with
  | nil => rfl
  | cons o objects ih =>
    rw [waitEach, firstWaited, find?_cons]
    cases waits : mustWait t (memory o) with
    | true =>
      rw [waitOne_of_mustWait expired waits]
      dsimp only
      rw [stopped]
      split_ifs <;> rfl
    | false =>
      have passes : waitOne futexWaitv t apcFutex (memory o) (fuel + 1) = some statusWait0 := by
        simp [waitOne, waits]
      rw [passes]
      exact ih

/-- One round is enough. -/
theorem waitAll_eq (distinct : objects.Nodup) (fuel : Nat) :
    waitAll futexWaitv t apcFutex objects (fuel + 1) memory =
      match firstWaited t objects memory with
      | none =>
        some (mapObjects (fun object => addCount (grabbed t object)) objects memory, statusWait0)
      | some o =>
        (stopped futexWaitv apcFutex (waitWord (memory o))).map fun status => (memory, status) := by
  rw [waitAll, waitEach_eq expired]
  cases first : firstWaited t objects memory with
  | some o =>
    simp only [stopped]
    split_ifs <;> rfl
  | none =>
    have passes : ∀ o ∈ objects, mustWait t (memory o) = false := by
      simpa [firstWaited] using first
    have still : (objects.all fun o => stillSignaled t (memory o)) = true :=
      all_eq_true.mpr fun o member => stillSignaled_of_not_mustWait (passes o member)
    have counted : addCounts (mapObjects (grabbed t) objects memory) objects =
        mapObjects (fun object => addCount (grabbed t object)) objects
          memory := by
      rw [addCounts, foldl_update_eq_mapObjects addCount distinct]
      funext o
      simp only [mapObjects]
      split_ifs <;> rfl
    have goesOn : ends statusWait0 = false := rfl
    simp [goesOn, still, grabAll_eq distinct passes, counted]

end Kernel

/-! ## One object -/

/-- The object after the only one was grabbed. -/
theorem waitAny_singleton : waitAny t 0 [o] memory =
      match tryGrab t (memory o) with
      | some (object, abandoned) =>
        (update memory o object, if abandoned then statusAbandoned else statusWait0)
      | none => (memory, statusTimeout) := by
  rw [waitAny]
  rcases tryGrab t (memory o) with _ | ⟨grabbed, _ | _⟩ <;> rfl

theorem tryGrab_eq_none_iff : tryGrab t object = none ↔ object.available t = false := by
  cases object with
  | semaphore sem =>
    simp only [tryGrab, available, Sync.semaphoreSignaled]
    split_ifs with zero <;> simp [zero, BitVec.pos_iff_ne_zero]
  | event type signaled =>
    simp only [tryGrab, available]
    split_ifs with zero <;> simp_all
  | mutex m =>
    simp only [tryGrab, available]
    split_ifs with mine free dead <;> simp_all

/-- Grabbing one object does what the server would do. -/
theorem tryGrab_spec {left : Object} {abandoned : Bool}
    (grabs : tryGrab t object = some (left, abandoned)) : abandoned = object.abandoned ∧
      (left.toServer = (object.toServer).taken t.toServer ↔ object.Plain) := by
  cases object with
  | semaphore sem =>
    simp only [tryGrab] at grabs
    split_ifs at grabs
    cases grabs
    exact ⟨rfl, iff_of_true rfl trivial⟩
  | event type signaled =>
    simp only [tryGrab] at grabs
    split_ifs at grabs with zero auto one <;> cases grabs
    · simp [abandoned, toServer, Waits.Object.taken, Object.Plain, auto, one]
    · simp [abandoned, toServer, Waits.Object.taken, Object.Plain, auto, one, zero]
    · simp [abandoned, toServer, Waits.Object.taken, Object.Plain, auto]
  | mutex m =>
    have after : ∀ count, (Object.mutex ⟨t.word, count⟩).toServer =
        .mutex { count := count, owner := some t.toServer, abandoned := false } :=
      fun _ => congrArg Waits.Object.mutex (Mutex.toServer_of_owned rfl)
    simp only [tryGrab] at grabs
    split_ifs at grabs with mine free dead <;> cases grabs
    · refine ⟨(decide_eq_false ?_).symm, iff_of_true ?_ trivial⟩
      · exact mine ▸ t.notAbandoned
      · rw [mine, after, toServer, Mutex.toServer_of_owned mine, taken_of_owned]
    · refine ⟨(decide_eq_false ?_).symm, iff_of_true ?_ trivial⟩
      · rw [free]
        decide
      · rw [after, toServer, Mutex.toServer_of_free free, taken_of_free]
    · refine ⟨(decide_eq_true dead).symm, iff_of_true ?_ trivial⟩
      rw [after, toServer, Mutex.toServer_of_abandoned dead, taken_of_free]

/-! ## The result -/

section Result

variable {result : Memory × Nat}

section

variable (passes : ∀ o ∈ objects, mustWait t (memory o) = false)
include passes

theorem all_available_of_pass : (objects.all fun o => (memory o).available t) = true :=
  all_eq_true.mpr fun o member => (mustWait_eq_false_iff.mp (passes o member)).1

theorem any_abandoned_of_pass : (objects.any fun o => (memory o).abandoned) = false :=
  any_eq_false.mpr fun o member => by
    rw [(mustWait_eq_false_iff.mp (passes o member)).2]
    exact Bool.false_ne_true

/-- A wait that has got all objects is right if each object is as it should. -/
theorem takesAll_grabbed_iff : TakesAll t objects memory
        (mapObjects (fun object => addCount (grabbed t object)) objects memory, statusWait0) ↔
      ∀ o ∈ objects, (memory o).Plain ∧ (memory o).Orderly := by
  rw [TakesAll, if_pos (all_available_of_pass passes), any_abandoned_of_pass passes]
  constructor
  · rintro ⟨_, taken, _⟩ o member
    have here := taken o member
    simp only [mapObjects, if_pos member] at here
    exact (toServer_grabbed (passes o member)).mp here
  · intro good
    refine ⟨rfl, fun o member => ?_, fun o outside => ?_⟩
    · simp only [mapObjects, if_pos member]
      exact (toServer_grabbed (passes o member)).mpr (good o member)
    · simp only [mapObjects, if_neg outside]

end

/-- Giving up is right if some object is not signaled. -/
theorem takesAll_stopped_iff {status : Nat} (ended : ends status = true) :
    TakesAll t objects memory (memory, status) ↔
      (objects.all fun o => (memory o).available t) = false ∧ status = statusTimeout := by
  rw [TakesAll]
  cases all : objects.all fun o => (memory o).available t
  · simp
  · refine iff_of_false (fun takes => ?_) fun wrong => ?_
    · have same : status = if objects.any fun o =>
          (memory o).abandoned then statusAbandoned else statusWait0 := takes.1
      generalize (objects.any fun o => (memory o).abandoned) = dead at same
      subst same
      revert ended
      cases dead <;> decide
    · cases wrong.1

theorem not_takesAll_userApc : ¬ TakesAll t objects memory (memory, statusUserApc) :=
  fun takes => absurd ((takesAll_stopped_iff rfl).mp takes).2 (by decide)

/-- The first step ends the call as it should. -/
theorem stopped_takesAll_iff (expired : Expired futexWaitv) {word : Word} :
    (∃ status ∈ stopped futexWaitv apcFutex word, TakesAll t objects memory (memory, status)) ↔
      (objects.all fun o => (memory o).available t) = false ∧ apcFutex.pending = false ∧
        (word.msb = true → futexWaitv (waitvEntries apcFutex word) = .timedOut) := by
  rw [stopped]
  split_ifs with pending times
  · simp [not_takesAll_userApc, pending]
  · simp [takesAll_stopped_iff (rfl : ends statusTimeout = true), pending, times]
  · refine iff_of_false (by simp) ?_
    rintro ⟨_, quiet, negative⟩
    cases sign : word.msb with
    | true => exact times (negative sign)
    | false => exact times (expired.timedOut_of_msb quiet sign)

theorem takesAll_waitAll_iff (expired : Expired futexWaitv) (distinct : objects.Nodup)
    (several : 2 ≤ objects.length) (fuel : Nat) :
    (∃ result, waitAll futexWaitv t apcFutex objects (fuel + 1) memory = some result ∧
        TakesAll t objects memory result) ↔
      WaitAllSafe futexWaitv t apcFutex objects memory := by
  have nonempty : objects ≠ [] := by
    rintro rfl
    exact absurd several (by decide)
  rw [waitAll_eq expired distinct]
  cases first : firstWaited t objects memory with
  | none =>
    have passes : ∀ o ∈ objects, mustWait t (memory o) = false := by
      simpa [firstWaited] using first
    simp only [Option.some.injEq, exists_eq_left']
    rw [takesAll_grabbed_iff passes, WaitAllSafe, if_pos (all_available_of_pass passes)]
    constructor
    · intro good
      exact ⟨nonempty, fun o member => (good o member).1,
        fun _ o member => (good o member).2, fun _ => several⟩
    · rintro ⟨_, plain, orderly, _⟩ o member
      exact ⟨plain o member, orderly several o member⟩
  | some o =>
    have waits : mustWait t (memory o) = true := by
      simpa using find?_some first
    have member : o ∈ objects := mem_of_find?_eq_some first
    simp only [Option.map_eq_some_iff, exists_exists_and_eq_and]
    refine (stopped_takesAll_iff expired).trans ?_
    rw [WaitAllSafe]
    cases all : objects.all fun o => (memory o).available t
    · simp [first, several]
    · refine iff_of_false (fun wrong => Bool.false_ne_true wrong.1.symm) ?_
      rintro ⟨_, _, orderly, _⟩
      refine Bool.false_ne_true ((mustWait_eq_false_iff.mpr ⟨?_, ?_⟩).symm.trans waits)
      · exact all_eq_true.mp all o member
      · have here := orderly several o member
        cases is : memory o with
        | mutex m =>
          rw [is] at here
          exact decide_eq_false here.1
        | semaphore sem => rfl
        | event type signaled => rfl

/-- A wait for one object. -/
theorem takesAll_waitAny_iff : TakesAll t [o] memory (waitAny t 0 [o] memory) ↔
      ((memory o).available t = true → (memory o).Plain) := by
  rw [waitAny_singleton, TakesAll]
  rcases grabs : tryGrab t (memory o) with _ | ⟨left, abandoned⟩
  · simp [tryGrab_eq_none_iff.mp grabs]
  · have available : (memory o).available t = true := by
      rw [← Bool.not_eq_false, ← tryGrab_eq_none_iff, grabs]
      exact Option.some_ne_none _
    rcases tryGrab_spec grabs with ⟨rfl, taken⟩
    have elsewhere : ∀ p, p ≠ o → update memory o left p = memory p :=
      fun p other => update_of_ne other _ _
    simpa [available, taken] using fun _ => elsewhere

end Result

/--
A wait for all objects with a zero timeout, while no other thread takes a
step, does what the server would do exactly if it is safe.
-/
theorem fsyncWaitObjects_takesAll_iff (futexWaitv : List Waitv → FutexResult)
    (expired : Expired futexWaitv) (t : Tid) (apcFutex : ApcFutex) (objects : WaitObjects)
    (memory : Memory) (fuel : Nat) :
    (∃ result, fsyncWaitObjects futexWaitv t false apcFutex objects.objects (fuel + 1) memory =
        some result ∧ TakesAll t objects.objects memory result) ↔
      WaitAllSafe futexWaitv t apcFutex objects.objects memory := by
  rcases objects with ⟨_ | ⟨o, _ | ⟨p, objects⟩⟩, distinct, few⟩
  · cases pending : apcFutex.pending <;>
      simp [fsyncWaitObjects, TakesAll, WaitAllSafe, waitAny, statusUserApc,
        statusTimeout, statusWait0, pending]
  · cases pending : apcFutex.pending
    · simp [fsyncWaitObjects, WaitAllSafe, takesAll_waitAny_iff, pending]
    · simp [fsyncWaitObjects, WaitAllSafe, not_takesAll_userApc, pending]
  · have several : 2 ≤ (o :: p :: objects).length := by
      simp only [length_cons]
      omega
    rw [fsyncWaitObjects, if_neg (by simp)]
    exact takesAll_waitAll_iff expired distinct several fuel

def firstTid : Tid := ⟨8, by decide, by decide⟩

/-- A kernel that refuses a value with more than 32 bits. -/
def refusingWaitv (entries : List Waitv) : FutexResult :=
  if ∀ entry ∈ entries, entry.val = entry.word.setWidth 64 then .timedOut else .failed

theorem expired_refusingWaitv : Expired refusingWaitv where
  timesOut _ short := if_pos short
  cutOrRefused _ _ := ite_eq_or_eq _ _ _

/-- A free mutex, a semaphore that can be taken and an event that cannot. -/
def mixedMemory : Memory
  | 0 => .mutex ⟨0, 0⟩
  | 1 => .semaphore ⟨2, 3⟩
  | _ => .event .autoEvent 0

/-- Mutex and semaphore are taken, and with the event nothing is. -/
theorem fsyncWaitObjects_takesAll_iff_mixed :
    (∃ result, fsyncWaitObjects refusingWaitv firstTid false none [0, 1] 1 mixedMemory =
        some result ∧ TakesAll firstTid [0, 1] mixedMemory result) ∧
      ∃ result, fsyncWaitObjects refusingWaitv firstTid false (some 0) [0, 1, 2] 1 mixedMemory =
        some result ∧ TakesAll firstTid [0, 1, 2] mixedMemory result := by
  constructor
  · refine (fsyncWaitObjects_takesAll_iff refusingWaitv expired_refusingWaitv firstTid none
      ⟨[0, 1], by decide, by decide⟩ mixedMemory 0).mpr ?_
    simp [WaitAllSafe, mixedMemory, available, Sync.semaphoreSignaled, Object.Plain,
      Object.Orderly, ApcFutex.pending, abandonedTid]
  · refine (fsyncWaitObjects_takesAll_iff refusingWaitv expired_refusingWaitv firstTid (some 0)
      ⟨[0, 1, 2], by decide, by decide⟩ mixedMemory 0).mpr ?_
    have blocked : ([0, 1, 2].all fun o => (mixedMemory o).available firstTid) = false := rfl
    have first : firstWaited firstTid [0, 1, 2] mixedMemory = some 2 := rfl
    rw [WaitAllSafe, blocked, first]
    simp [ApcFutex.pending, mixedMemory, waitWord]

/-- A mutex whose owner has died, and a semaphore that can be taken. -/
def abandonedMemory : Memory := fun o =>
    if o = 0 then .mutex ⟨abandonedTid, 0⟩ else .semaphore ⟨1, 1⟩

/--
Both objects are signaled and the wait times out, where the server returns
`STATUS_ABANDONED`.  When the kernel refuses the value, which has the sign of
the word, the wait does not end.
-/
theorem fsyncWaitObjects_abandoned_times_out :
    let t : Tid := ⟨8, by decide, by decide⟩
    (∀ o ∈ [0, 1], (abandonedMemory o).available t = true) ∧
      fsyncWaitObjects (fun _ => .timedOut) t false none [0, 1] 1 abandonedMemory =
        some (abandonedMemory, statusTimeout) ∧
      ¬ TakesAll t [0, 1] abandonedMemory (abandonedMemory, statusTimeout) ∧
      ∀ fuel, fsyncWaitObjects refusingWaitv t false none [0, 1] fuel abandonedMemory = none := by
  refine ⟨by decide, rfl, fun takes => ?_, fun fuel => ?_⟩
  · have status : statusTimeout = statusAbandoned := takes.1
    exact absurd status (by decide)
  · cases fuel with
    | zero => rfl
    | succ fuel =>
      exact waitAll_eq expired_refusingWaitv (by decide) fuel

end WineRedRose.Fsync
