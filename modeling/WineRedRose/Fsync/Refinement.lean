import WineRedRose.Fsync.Mutants
import WineRedRose.Waits.Wakeups

/-!
# Fsync mutexes refine server mutexes

The relation between the shared memory and the server says that each pair of
words stands for the mutex of the server, and that the server's lists of owned
mutexes are right.  All calls keep it; what they tell the caller is the same
if the previous count is not asked for, the handle carries the right that the
server checks, and no recursion count wraps around.
-/

namespace WineRedRose.Fsync

open Library.Runs List Function Mutex Option
open Waits

/-! ## A server where nobody waits -/

/-- No thread waits or is suspended. -/
structure Calm (server : Server) : Prop where
  wait : ∀ t, (server.thread t).wait = []
  running : ∀ t, suspended server t = false
  queue : ∀ o, server.queue o = []
  time : 0 ≤ server.currentTime

section Calm

variable {server server' : Server} {t : ThreadId} {o : ObjectId}

theorem Calm.keeps (calm : Calm server) (keeps : Keeps server server') : Calm server' where
  wait t := (keeps.wait t).trans (calm.wait t)
  running t := (keeps.suspended t).trans (calm.running t)
  queue o := (congrFun keeps.queue o).trans (calm.queue o)
  time := keeps.currentTime.ge.trans' calm.time

theorem wakeUp_of_queue_nil (empty : server.queue o = []) (max : Int) :
    wakeUp server o max = server := by
  rw [wakeUp, wakeUpLoop, empty, wakeFirst]

variable {m : Waits.Mutex}

/-- The lists of owned mutexes after a grab. -/
theorem mutexList_satisfied (is : server.object o = .mutex m) (u : ThreadId) :
    ((satisfied server o t).1.thread u).mutexList =
      if u = t ∧ m.count = 0 then o :: (server.thread u).mutexList
      else (server.thread u).mutexList := by
  simp only [satisfied, is, doGrab]
  by_cases free : m.count = 0
  · rw [if_pos free]
    rcases eq_or_ne u t with rfl | other
    · rw [Server.thread_modifyThread_self, if_pos ⟨rfl, free⟩]
      rfl
    · rw [Server.thread_modifyThread_of_ne _ other, if_neg fun both => other both.1]
      rfl
  · rw [if_neg free, if_neg fun both => free both.2]
    rfl

/-- The one object of a wait. -/
def single (o : ObjectId) : WaitObjects := Waits.oneObject o

/-- The server inside of a wait with a zero timeout for one object. -/
def entered (server : Server) (t : ThreadId) (o : ObjectId) : Server :=
  waitOn server t .wait (single o) 0

/-- What this wait waits for. -/
def enteredWait (server : Server) (o : ObjectId) : ThreadWait := newWait server .wait (single o) 0

/-- Neither the start nor the end of this wait changes what threads own. -/
theorem mutexList_popped (u : ThreadId) : (((entered server t o).modifyThread t fun thread =>
      { thread with wait := [] }).thread u).mutexList = (server.thread u).mutexList := by
  rcases eq_or_ne u t with rfl | other
  · rw [Server.thread_modifyThread_self]
    simp [entered, waitOn]
  · rw [Server.thread_modifyThread_of_ne _ other]
    simp [entered, waitOn, Server.modifyThread, other]

section

variable (calm : Calm server)
include calm

theorem wait_entered : ((entered server t o).thread t).wait = [enteredWait server o] := by
  rw [entered, wait_waitOn_self, calm.wait, enteredWait]

theorem Calm.checkWait : Waits.checkWait (entered server t o) t =
      if (server.object o).signaled t then some statusWait0
      else some statusTimeout := by
  have running : suspended (entered server t o) t = false := by
    rw [entered, suspended_waitOn, calm.running]
  have late : expired (entered server t o) (enteredWait server o) = true :=
    decide_eq_true (.inl ⟨le_rfl, calm.time⟩)
  have asked : signaledStatus (entered server t o) t (enteredWait server o) =
        if (server.object o).signaled t then some statusWait0 else none := by
    have object : (entered server t o).object = server.object := rfl
    have objects : (enteredWait server o).objects = [o] := rfl
    simp only [signaledStatus, enteredWait, newWait]
    rw [← newWait, ← enteredWait, objects]
    simp only [findIdx?_cons, findIdx?_nil, signaled, object]
    cases (server.object o).signaled t <;> rfl
  simp only [Waits.checkWait, wait_entered calm, running, Bool.false_eq_true,
    if_false, asked, late, if_true]
  cases (server.object o).signaled t <;> rfl

/-- The server after a wait for one object, with the status. -/
theorem Calm.selectOn (cookie : Nat) :
    Waits.selectOn server t (.wait [o] (nodup_singleton o)) cookie 0 =
      Waits.endWait (entered server t o) t (if (server.object o).signaled t then statusWait0
          else statusTimeout) := by
  have blocked : Waits.selectOn server t (.wait [o] (nodup_singleton o)) cookie 0 =
      Waits.blockOrFinish (entered server t o) t cookie := rfl
  rw [blocked, Waits.blockOrFinish, calm.checkWait]
  cases (server.object o).signaled t <;> rfl

/-- What the objects do at the end of the wait. -/
theorem Calm.endWait (status : Nat) :
    let popped := (entered server t o).modifyThread t fun thread =>
      { thread with wait := [] }
    let taken := if status = 0 then Waits.satisfied popped o t
      else (popped, false)
    endWait (entered server t o) t status = (removeQueues taken.1 t (enteredWait server o),
        if taken.2 then status + statusAbandonedWait0 else status) := by
  have objects : takenObjects (enteredWait server o) status = if status = 0 then [o] else [] := by
    have one : (enteredWait server o).objects = [o] := rfl
    rw [takenObjects, one]
    rcases status with _ | status <;> rfl
  simp only [Waits.endWait, wait_entered calm, objects]
  rcases status with _ | status
  · simp only [Waits.satisfyAll, if_true, Bool.or_false]
  · simp only [Waits.satisfyAll, Nat.succ_ne_zero, if_false]

/-- A wait leaves nobody waiting. -/
theorem Calm.endWait_calm (status : Nat) :
    Calm (Waits.endWait (entered server t o) t status).1 := by
  have ends := Waits.endWait_ends (wait_entered calm (t := t) (o := o)) status
  have popped := ends.popped
  rw [wait_entered calm, List.cons.injEq] at popped
  refine ⟨fun u => ?_, fun u => ?_, fun p => ?_, ?_⟩
  · rcases eq_or_ne u t with rfl | other
    · exact popped.2.symm
    · rw [ends.others u other, entered, Waits.wait_waitOn_of_ne other, calm.wait]
  · rw [ends.suspended, entered, Waits.suspended_waitOn, calm.running]
  · rw [ends.queue]
    have objects : (enteredWait server o).objects = [o] := rfl
    have queue : (entered server t o).queue p =
        if p ∈ [o] then server.queue p ++ [⟨t, server.nextWait⟩]
        else server.queue p := rfl
    rw [objects, queue, calm.queue]
    split_ifs
    · simp [enteredWait, newWait]
    · rfl
  · rw [ends.currentTime]
    exact calm.time

/-- A wait that gets the mutex. -/
theorem Calm.endWait_signaled (is : server.object o = .mutex m) :
    let result := Waits.endWait (entered server t o) t statusWait0
    result.2 = (if m.abandoned then statusAbandoned else statusWait0) ∧ result.1.object =
        Function.update server.object o ((server.object o).taken t) ∧
      ∀ u, (result.1.thread u).mutexList =
        if u = t ∧ m.count = 0 then o :: (server.thread u).mutexList
        else (server.thread u).mutexList := by
  have before : ((entered server t o).modifyThread t fun thread =>
      { thread with wait := [] }).object o = .mutex m := is
  rw [calm.endWait, if_pos (show statusWait0 = 0 from rfl)]
  refine ⟨?_, ?_, fun u => ?_⟩
  · simp only [satisfied, before]
    cases m.abandoned <;> rfl
  · simp only [removeQueues]
    rw [satisfied_object]
    rfl
  · simp only [removeQueues]
    rw [mutexList_satisfied before, mutexList_popped]

/-- A wait that times out. -/
theorem Calm.endWait_timeout :
    let result := Waits.endWait (entered server t o) t statusTimeout
    result.2 = statusTimeout ∧ result.1.object = server.object ∧
      ∀ u, (result.1.thread u).mutexList = (server.thread u).mutexList := by
  rw [calm.endWait, if_neg (by decide)]
  exact ⟨rfl, rfl, mutexList_popped⟩

/-- A mutex leaves the list of its owner. -/
def dropMutex (server : Server) (t : ThreadId) (o : ObjectId) (m : Waits.Mutex) : Server :=
  (server.modifyThread t fun thread =>
    { thread with mutexList := thread.mutexList.erase o }).setObject o (.mutex m)

omit calm in
theorem mutexList_dropMutex (m : Waits.Mutex) (u : ThreadId) :
    ((dropMutex server t o m).thread u).mutexList =
      if u = t then (server.thread u).mutexList.erase o
      else (server.thread u).mutexList := by
  simp only [dropMutex, Server.setObject]
  split_ifs with same
  · rw [same, Server.thread_modifyThread_self]
  · rw [Server.thread_modifyThread_of_ne _ same]

theorem Calm.dropMutex (m : Waits.Mutex) : Calm (dropMutex server t o m) :=
  calm.keeps ((keeps_mutexList server t (·.erase o)).trans (keeps_setObject _ o (.mutex m)))

/-- `do_release` of an owned mutex wakes nobody. -/
theorem Calm.doRelease {m : Waits.Mutex} (owner : m.owner = some t) :
    Waits.doRelease server o m = Fsync.dropMutex server t o { m with owner := none } := by
  simp only [Waits.doRelease, owner]
  apply wakeUp_of_queue_nil
  exact calm.queue o

/--
The loop of `abandon_mutexes`, by induction on the list of the mutexes that
the thread owns.
-/
theorem Calm.abandonLoop {owned : List ObjectId} (list : (server.thread t).mutexList = owned)
    (distinct : owned.Nodup)
    (mutex : ∀ o ∈ owned, ∃ m : Waits.Mutex, server.object o = .mutex m ∧ m.owner = some t) :
    let result := abandonLoop t owned.length server
    Calm result ∧ (∀ o, result.object o =
        if o ∈ owned then .mutex { count := 0, owner := none, abandoned := true }
        else server.object o) ∧
      ∀ u, (result.thread u).mutexList =
        if u = t then [] else (server.thread u).mutexList := by
  induction owned generalizing server with
  | nil =>
    refine ⟨calm, fun o => (if_neg not_mem_nil).symm, fun u => ?_⟩
    split_ifs with same
    · rw [same]
      exact list
    · rfl
  | cons o owned ih =>
    rcases nodup_cons.mp distinct with ⟨absent, rest⟩
    rcases mutex o mem_cons_self with ⟨m, is, owner⟩
    have first : abandonLoop t (o :: owned).length server =
        abandonLoop t owned.length (Fsync.dropMutex server t o
            { count := 0, owner := none, abandoned := true }) := by
      have release := @Calm.doRelease server t o calm
        { count := 0, owner := m.owner, abandoned := true } owner
      rw [length_cons, abandonLoop, list]
      simp only [is]
      rw [release]
    rw [first]
    have later := @ih (Fsync.dropMutex server t o
        { count := 0, owner := none, abandoned := true })
      (calm.dropMutex _)
      (by rw [mutexList_dropMutex, if_pos rfl, list, erase_cons_head])
      rest
      (fun p member => by
        have other : p ≠ o := fun same => absent (same ▸ member)
        rw [Fsync.dropMutex, Server.object_setObject_of_ne _ other]
        exact mutex p (mem_cons_of_mem _ member))
    refine ⟨later.1, fun p => ?_, fun u => ?_⟩
    · rw [later.2.1 p, Fsync.dropMutex]
      rcases eq_or_ne p o with rfl | other
      · rw [if_neg absent, if_pos mem_cons_self, Server.object_setObject_self]
      · rw [Server.object_setObject_of_ne _ other]
        simp only [mem_cons, other, false_or]
        rfl
    · rw [later.2.2 u, mutexList_dropMutex]
      split_ifs <;> rfl

end

end Calm

/-! ## The relation -/

/-- An owner has a recursion count, and nobody else has. -/
structure Mutex.Counted (m : Mutex) : Prop where
  free : m.tid = 0#32 → m.count = 0#32
  abandoned : m.tid = abandonedTid → m.count = 0#32
  owned : m.tid ≠ 0#32 → m.tid ≠ abandonedTid → m.count ≠ 0#32

/-- The shared memory stands for the mutexes of the server. -/
structure Matches (shared : Shared) (server : Server) : Prop where
  calm : Calm server
  distinct : shared.mutexList.Nodup
  mutex : ∀ o ∈ shared.mutexList, ∃ m : Mutex,
    shared.memory o = .mutex m ∧ server.object o = .mutex m.toServer ∧ m.Counted
  lists : ∀ t, (server.thread t).mutexList.Nodup
  owned : ∀ t o, o ∈ (server.thread t).mutexList ↔ o ∈ shared.mutexList ∧ ∃ m : Waits.Mutex,
      server.object o = .mutex m ∧ m.owner = some t

section Matches

variable {shared : Shared} {server server' : Server} {t : Tid} {o : ObjectId}
variable {m : Mutex}

/-- One mutex is changed or added on both sides, and the lists follow its owner. -/
theorem Matches.set {mutexes : List ObjectId} (matching : Matches shared server)
    (distinct : mutexes.Nodup) (listed : ∀ p, p ∈ mutexes ↔ p ∈ shared.mutexList ∨ p = o)
    (counted : m.Counted) (calm : Calm server')
    (object : server'.object = update server.object o (.mutex m.toServer))
    (lists : ∀ u, (server'.thread u).mutexList.Nodup)
    (others : ∀ u p, p ≠ o → (p ∈ (server'.thread u).mutexList ↔ p ∈ (server.thread u).mutexList))
    (owner : ∀ u, o ∈ (server'.thread u).mutexList ↔ m.toServer.owner = some u) :
    Matches ({ shared with mutexList := mutexes }.setMutex o m) server' := by
  refine ⟨calm, distinct, fun p member => ?_, lists, fun u p => ?_⟩
  · rcases eq_or_ne p o with rfl | other
    · refine ⟨m, update_self .., ?_, counted⟩
      rw [object, update_self]
    · rcases matching.mutex p (((listed p).mp member).resolve_right other) with
        ⟨old, word, stands, good⟩
      refine ⟨old, ?_, ?_, good⟩
      · exact (update_of_ne other ..).trans word
      · rw [object, update_of_ne other, stands]
  · rcases eq_or_ne p o with rfl | other
    · rw [owner u, object, update_self]
      constructor
      · exact fun holds => ⟨(listed p).mpr (.inr rfl), m.toServer, rfl, holds⟩
      · rintro ⟨_, found, ⟨⟩, holds⟩
        exact holds
    · rw [others u p other, matching.owned, object, update_of_ne other]
      exact and_congr_left fun _ => ((listed p).trans (or_iff_left other)).symm

theorem mem_iff_of_mem {mutexes : List ObjectId} (created : o ∈ mutexes) (p : ObjectId) :
    p ∈ mutexes ↔ p ∈ mutexes ∨ p = o :=
  ⟨.inl, fun either => either.elim id (· ▸ created)⟩

/-- The owner of a mutex has it in its list. -/
theorem Matches.mem_list (matching : Matches shared server) (created : o ∈ shared.mutexList)
    (stands : server.object o = .mutex m.toServer) (u : ThreadId) :
    o ∈ (server.thread u).mutexList ↔ m.toServer.owner = some u := by
  rw [matching.owned]
  constructor
  · rintro ⟨_, found, is, holds⟩
    cases stands.symm.trans is
    exact holds
  · exact fun holds => ⟨created, m.toServer, stands, holds⟩

/-- The server has changed nothing that matters. -/
theorem Matches.congr (matching : Matches shared server) (calm : Calm server')
    (object : server'.object = server.object)
    (lists : ∀ u, (server'.thread u).mutexList = (server.thread u).mutexList) :
    Matches shared server' := by
  refine ⟨calm, matching.distinct, fun o created => ?_, fun u => ?_, fun u o => ?_⟩
  · rw [object]
    exact matching.mutex o created
  · rw [lists]
    exact matching.lists u
  · rw [lists, object]
    exact matching.owned u o

theorem Mutex.Counted.of_owned (mine : m.tid = t.word) (nonzero : m.count ≠ 0#32) : m.Counted :=
  ⟨fun free => (t.notFree (mine ▸ free)).elim, fun dead => (t.notAbandoned (mine ▸ dead)).elim,
    fun _ _ => nonzero⟩

/-- The word of the owner in the terms of the server. -/
theorem Mutex.owner_iff : m.tid = t.word ↔ m.toServer.owner = some t.toServer := by
  constructor
  · intro mine
    rw [toServer_of_owned mine]
  · intro owner
    rw [toServer] at owner
    split_ifs at owner
    · exact BitVec.toNat_inj.mp (some.inj owner)

theorem Mutex.toServer_count (counted : m.Counted) : m.toServer.count = m.count := by
  rw [toServer]
  split_ifs with free dead
  · exact (counted.free free).symm
  · exact (counted.abandoned dead).symm
  · rfl

theorem Mutex.toServer_abandoned : m.toServer.abandoned = decide (m.tid = abandonedTid) := by
  rw [toServer]
  split_ifs with free dead
  · rw [free]
    rfl
  · exact (decide_eq_true dead).symm
  · exact (decide_eq_false dead).symm

/-- A mutex without recursion count has no owner. -/
theorem Mutex.Counted.owner_none (counted : m.Counted) (zero : m.toServer.count = 0) :
    m.toServer.owner = none := by
  rw [toServer_count counted] at zero
  rw [toServer]
  split_ifs with free dead
  · rfl
  · rfl
  · exact (counted.owned free dead zero).elim

/-- A thread grabs a mutex that is free or its own. -/
theorem Matches.grab (matching : Matches shared server) (created : o ∈ shared.mutexList)
    (stands : server.object o = .mutex m.toServer) (counted : m.Counted)
    (held : m.toServer.count ≠ 0 → m.toServer.owner = some t.toServer)
    {m' : Mutex} (mine : m'.tid = t.word) (good : m'.Counted) (calm : Calm server')
    (object : server'.object = update server.object o (.mutex m'.toServer))
    (lists : ∀ u, (server'.thread u).mutexList =
      if u = t.toServer ∧ m.toServer.count = 0 then o :: (server.thread u).mutexList
      else (server.thread u).mutexList) :
    Matches (shared.setMutex o m') server' := by
  have before := matching.mem_list created stands
  have owner : m'.toServer.owner = some t.toServer := by rw [toServer_of_owned mine]
  refine matching.set matching.distinct (mem_iff_of_mem created) good calm object (fun u => ?_)
    (fun u p other => ?_) fun u => ?_
  · rw [lists]
    split_ifs with first
    · refine nodup_cons.mpr ⟨?_, matching.lists u⟩
      rw [before, counted.owner_none first.2]
      exact (some_ne_none u).symm
    · exact matching.lists u
  · rw [lists]
    split_ifs with first
    · simp [other]
    · rfl
  · rw [lists, owner, some.injEq]
    split_ifs with first
    · exact iff_of_true mem_cons_self first.1.symm
    · rw [before]
      by_cases zero : m.toServer.count = 0
      · rw [counted.owner_none zero]
        exact iff_of_false (some_ne_none u).symm fun same => first ⟨same.symm, zero⟩
      · rw [held zero, some.injEq]

/-- The mutex that a successful wait leaves. -/
theorem tryGrab_mutex {left : Object} {abandoned : Bool}
    (room : m.tid = t.word → m.count ≠ 0xffffffff#32)
    (grabs : tryGrab t (.mutex m) = some (left, abandoned)) :
    ∃ m' : Mutex, left = .mutex m' ∧ m'.tid = t.word ∧ m'.Counted := by
  simp only [tryGrab] at grabs
  split_ifs at grabs with mine free dead
  · cases grabs
    have positive : m.count + 1#32 ≠ 0#32 := by bv_omega
    exact ⟨_, rfl, mine, .of_owned mine positive⟩
  all_goals
    cases grabs
    exact ⟨_, rfl, rfl, .of_owned rfl (show 1#32 ≠ 0#32 by decide)⟩

/-! ## Calls keep the relation -/

variable {handle : Handle}

section

variable (matching : Matches shared server)
include matching

section

variable (created : handle.object ∈ shared.mutexList)
include created

omit matching created in
theorem getObject_of_found (found : (handle.cached || handle.access.synchronize) = true) :
    getObject (some handle) = .ok handle :=
  if_pos found

theorem Matches.wait (access : handle.access.synchronize = true)
    (room : ∀ m, shared.memory handle.object = .mutex m → m.tid = t.word →
      m.count ≠ 0xffffffff#32) :
    (fsyncWait shared (some handle) t).2 = (serverWait server (some handle) t).2 ∧
      Matches (fsyncWait shared (some handle) t).1 (serverWait server (some handle) t).1 := by
  have found : getObject (some handle) = .ok handle :=
    getObject_of_found (by rw [access, Bool.or_true])
  rcases handle with ⟨o, rights, cached⟩
  rcases matching.mutex o created with ⟨m, word, stands, counted⟩
  have calm := matching.calm
  have signaled : (server.object o).signaled t.toServer = (Object.mutex m).available t := by
    rw [stands]
    refine @Object.signaled_toServer t (.mutex m) fun found is => ?_
    cases is
    exact counted.owned
  have asked : serverWait server (some ⟨o, rights, cached⟩) t =
      Waits.endWait (entered server t.toServer o) t.toServer
        (if (Object.mutex m).available t then statusWait0
          else statusTimeout) := by
    rw [← signaled, ← calm.selectOn 1, serverWait, if_neg (by simpa using access)]
  rw [asked, fsyncWait, found]
  dsimp only
  rw [waitAny_singleton, word]
  rcases grabs : tryGrab t (.mutex m) with _ | ⟨left, abandoned⟩
  · rw [tryGrab_eq_none_iff.mp grabs]
    rcases calm.endWait_timeout (t := t.toServer) (o := o) with ⟨status, object, lists⟩
    exact ⟨status.symm, matching.congr (calm.endWait_calm statusTimeout) object lists⟩
  · have available : (Object.mutex m).available t = true := by
      rw [← Bool.not_eq_false, ← tryGrab_eq_none_iff, grabs]
      exact some_ne_none _
    rcases tryGrab_spec grabs with ⟨rfl, taken⟩
    rcases tryGrab_mutex (room m word) grabs with ⟨m', rfl, mine, good⟩
    rcases calm.endWait_signaled (t := t.toServer) stands with ⟨status, object, lists⟩
    rw [available, if_pos rfl]
    refine ⟨?_, ?_⟩
    · rw [status, toServer_abandoned]
      rfl
    · have left : (server.object o).taken t.toServer = .mutex m'.toServer := by
        rw [stands]
        exact (taken.mpr trivial).symm
      rw [left] at object
      refine matching.grab created stands counted (fun nonzero => ?_) mine good
        (calm.endWait_calm statusWait0) object lists
      have free : m.tid ≠ 0#32 := fun free => nonzero (by rw [toServer_of_free free]; rfl)
      have alive : m.tid ≠ abandonedTid := fun dead =>
        nonzero (by rw [toServer_of_abandoned dead]; rfl)
      have mine : m.tid = t.word := by simpa [Object.available, free, alive] using available
      exact owner_iff.mp mine

omit matching created in
theorem mutexList_fsyncWait (handle : Option Handle) :
    (fsyncWait shared handle t).1.mutexList = shared.mutexList := by
  rw [fsyncWait]
  split <;> rfl

omit matching created in
theorem mutexList_fsyncReleaseMutex (handle : Option Handle) :
    (fsyncReleaseMutex shared handle t).1.mutexList = shared.mutexList := by
  rw [fsyncReleaseMutex]
  split
  · rfl
  · split
    · split_ifs <;> rfl
    · rfl

theorem Matches.release (found : (handle.cached || handle.access.synchronize) = true) :
    (fsyncReleaseMutex shared (some handle) t).2.1 = (ntReleaseMutant server (some handle) t).2.1 ∧
      Matches (fsyncReleaseMutex shared (some handle) t).1
        (ntReleaseMutant server (some handle) t).1 := by
  have got := getObject_of_found found
  rcases handle with ⟨o, rights, cached⟩
  rcases matching.mutex o created with ⟨m, word, stands, counted⟩
  have before := matching.mem_list created stands
  simp only [fsyncReleaseMutex, got, word, ntReleaseMutant, releaseMutex, stands]
  by_cases mine : m.tid = t.word
  swap
  · rw [if_pos mine, if_pos (.inr (mt owner_iff.mpr mine))]
    exact ⟨rfl, matching⟩
  have nonzero : m.count ≠ 0#32 := counted.owned (mine ▸ t.notFree) (mine ▸ t.notAbandoned)
  simp only [toServer_of_owned mine, some.injEq] at before
  simp only [toServer_of_owned mine]
  have accepted : ¬ (m.count = 0 ∨ some t.toServer ≠ some t.toServer) :=
    not_or.mpr ⟨nonzero, not_not.mpr rfl⟩
  rw [if_neg (not_not.mpr mine), if_neg accepted]
  by_cases last : m.count - 1#32 = 0#32
  · have zero : m.count - 1 = 0 := last
    simp only [if_pos last, if_pos zero, true_and]
    rw [matching.calm.doRelease rfl]
    refine matching.set matching.distinct (mem_iff_of_mem created) ?_
      (matching.calm.dropMutex _) ?_ (fun u => ?_) (fun u p other => ?_) fun u => ?_
    · rw [last]
      exact ⟨fun _ => rfl, fun _ => rfl, fun wrong => (wrong rfl).elim⟩
    · rw [toServer_of_free rfl, zero]
      rfl
    · rw [mutexList_dropMutex]
      split_ifs
      · exact (matching.lists u).erase o
      · exact matching.lists u
    · rw [mutexList_dropMutex]
      split_ifs
      · exact mem_erase_of_ne other
      · rfl
    · rw [mutexList_dropMutex, toServer_of_free rfl]
      refine iff_of_false ?_ (some_ne_none u).symm
      split_ifs with same
      · exact (matching.lists u).not_mem_erase
      · rw [before]
        exact Ne.symm same
  · have more : m.count - 1 ≠ 0 := last
    simp only [if_neg last, if_neg more, true_and]
    have owned : (⟨m.tid, m.count - 1#32⟩ : Mutex).toServer =
        { count := m.count - 1#32, owner := some t.toServer,
          abandoned := false } := toServer_of_owned mine
    refine matching.set matching.distinct (mem_iff_of_mem created) ?_
      (matching.calm.keeps (keeps_setObject ..)) ?_ (fun u => ?_) (fun u p other => ?_) fun u => ?_
    · exact .of_owned mine last
    · rw [owned]
      rfl
    · exact matching.lists u
    · exact Iff.rfl
    · rw [owned, some.injEq]
      exact before u

theorem Matches.query (found : (handle.cached || handle.access.synchronize) = true)
    (access : handle.access.queryState = true) :
    fsyncQueryMutex shared (some handle) t = ntQueryMutant server (some handle) t := by
  have got := getObject_of_found found
  rcases handle with ⟨o, rights, cached⟩
  rcases matching.mutex o created with ⟨m, word, stands, counted⟩
  have allowed : ¬ ¬ rights.queryState = true := not_not.mpr access
  simp only [fsyncQueryMutex, got, word, ntQueryMutant, if_neg allowed, stands,
    toServer_count counted, toServer_abandoned, owner_iff]

end

/-- A new mutex that nobody owns. -/
theorem Matches.createFree (fresh : o ∉ shared.mutexList) :
    Matches ({ shared with mutexList := shared.mutexList ++ [o] }.setMutex o ⟨0#32, 0#32⟩)
      (server.setObject o (.mutex { count := 0, owner := none, abandoned := false })) := by
  have distinct : (shared.mutexList ++ [o]).Nodup :=
    nodup_append_comm.mp (nodup_cons.mpr ⟨fresh, matching.distinct⟩)
  refine matching.set distinct (by simp) ⟨fun _ => rfl, fun _ => rfl, fun wrong => (wrong rfl).elim⟩
    (matching.calm.keeps (keeps_setObject ..)) rfl matching.lists (fun _ _ _ => Iff.rfl) fun u =>
      iff_of_false (fun member => fresh ((matching.owned u o).mp member).1) (some_ne_none u).symm

theorem Matches.create (fresh : o ∉ shared.mutexList) (initial : Bool) :
    Matches (fsyncCreateMutex shared o t initial) (serverCreateMutex server o t initial) := by
  have free := matching.createFree fresh
  cases initial with
  | false => exact free
  | true =>
    have created : o ∈ shared.mutexList ++ [o] := mem_append_right _ (mem_singleton_self o)
    have words : fsyncCreateMutex shared o t true =
        ({ shared with mutexList := shared.mutexList ++ [o] }.setMutex o
          ⟨0#32, 0#32⟩).setMutex o ⟨t.word, 1#32⟩ := by
      simp only [fsyncCreateMutex, Shared.setMutex, if_true, update_idem]
    have is : (server.setObject o (.mutex ⟨0, none, false⟩)).object o = .mutex ⟨0, none, false⟩ :=
      Server.object_setObject_self ..
    have grabbed : serverCreateMutex server o t true =
        (satisfied (server.setObject o (.mutex ⟨0, none, false⟩)) o t.toServer).1 := by
      rw [satisfied, is]
      rfl
    rw [words]
    refine free.grab (m := ⟨0#32, 0#32⟩) created is
      ⟨fun _ => rfl, fun _ => rfl, fun wrong => (wrong rfl).elim⟩
      (fun nonzero => (nonzero rfl).elim) rfl (.of_owned rfl (show 1#32 ≠ 0#32 by decide)) ?_ ?_
      fun u => ?_
    · exact free.calm.keeps ((keeps_setObject ..).trans (keeps_mutexList _ t.toServer (o :: ·)))
    · rw [toServer_of_owned rfl]
      rfl
    · rw [grabbed]
      exact mutexList_satisfied is u

/-- A thread ends. -/
theorem Matches.terminate (t : Tid) :
    Matches (fsyncAbandonMutexes shared t) (abandonMutexes server t.toServer) := by
  rcases matching.calm.abandonLoop (t := t.toServer) rfl (matching.lists t.toServer)
    (fun o member => ((matching.owned _ o).mp member).2)
    with ⟨calm, object, lists⟩
  have memory : (fsyncAbandonMutexes shared t).memory =
      mapObjects (abandonOne t) shared.mutexList shared.memory :=
    foldl_update_eq_mapObjects (abandonOne t) matching.distinct shared.memory
  refine ⟨calm, matching.distinct, fun o created => ?_, fun u => ?_, fun u o => ?_⟩
  · rcases matching.mutex o created with ⟨m, word, stands, counted⟩
    have mine := matching.mem_list created stands t.toServer
    have listed : o ∈ shared.mutexList := created
    rw [memory, mapObjects, if_pos listed, word, abandonOne, abandonMutexes, object o]
    by_cases owner : m.tid = t.word
    · rw [if_pos owner, if_pos (mine.mpr (owner_iff.mp owner))]
      refine ⟨⟨abandonedTid, 0#32⟩, rfl, ?_, ?_⟩
      · rw [toServer_of_abandoned rfl]
        rfl
      · exact ⟨fun _ => rfl, fun _ => rfl, fun _ wrong => (wrong rfl).elim⟩
    · rw [if_neg owner, if_neg fun member => owner (owner_iff.mpr (mine.mp member))]
      exact ⟨m, rfl, stands, counted⟩
  · rw [abandonMutexes, lists]
    split_ifs
    · exact nodup_nil
    · exact matching.lists u
  · rw [abandonMutexes, lists, object]
    by_cases mine : o ∈ (server.thread t.toServer).mutexList
    · -- a mutex of the thread is in no list any more
      rw [if_pos mine]
      refine iff_of_false ?_ ?_
      · split_ifs with same
        · exact not_mem_nil
        · intro also
          rcases (matching.owned _ o).mp mine with ⟨_, m, is, owner⟩
          rcases (matching.owned _ o).mp also with ⟨_, m', is', owner'⟩
          cases is.symm.trans is'
          exact same (some.inj (owner'.symm.trans owner))
      · rintro ⟨_, m, ⟨⟩, ⟨⟩⟩
    · rw [if_neg mine]
      refine Iff.trans ?_ (matching.owned u o)
      split_ifs with same
      · rw [same]
        exact iff_of_false not_mem_nil mine
      · rfl

end

end Matches

/-! ## Runs -/

/-- The next wait of the owner would wrap the recursion count. -/
def Object.full (t : Tid) : Object → Bool
  | .mutex m => m.tid = t.word && m.count = 0xffffffff#32
  | _ => false

/--
When a call tells its caller the same on both ways: it does not ask for the
previous count, its handle has the right that the server checks and, if fsync
has to ask the server for it, the right to wait, and the recursion count does
not wrap around.
-/
def MutantSafe (system : System Shared) : Call → Prop
  | .wait t handle =>
    ∀ found ∈ system.handles.handle handle, found.access.synchronize = true ∧
        (system.state.memory found.object).full t = false
  | .release _ handle prevCount => prevCount = false ∧
      ∀ found ∈ system.handles.handle handle, (found.cached || found.access.synchronize) = true
  | .query _ handle =>
    ∀ found ∈ system.handles.handle handle, found.access.queryState = true ∧
        (found.cached || found.access.synchronize) = true
  | _ => True

instance (system : System Shared) :
    ∀ call, Decidable (MutantSafe system call)
  | .create .. => isTrue trivial
  | .wait _ handle => inferInstanceAs (Decidable (∀ found ∈ system.handles.handle handle, _))
  | .release _ handle prevCount => inferInstanceAs (Decidable (prevCount = false ∧
      ∀ found ∈ system.handles.handle handle, _))
  | .query _ handle => inferInstanceAs (Decidable (∀ found ∈ system.handles.handle handle, _))
  | .terminate _ => isTrue trivial

/-- Both ways have given out the same names and handles. -/
structure Related (fsync : System Shared) (system : System Server) : Prop where
  matching : Matches fsync.state system.state
  handles : fsync.handles = system.handles
  handle : ∀ n found, fsync.handles.handle n = some found → found.object ∈ fsync.state.mutexList
  name : ∀ n o, fsync.handles.name n = some o → o ∈ fsync.state.mutexList
  fresh : ∀ o ∈ fsync.state.mutexList, o < fsync.handles.nextObject

section Related

variable {fsync : System Shared} {system : System Server}

section

variable (related : Related fsync system)
include related

/-- The states have changed, names and handles have not. -/
theorem Related.setState {shared : Shared} {server : Server} (matching : Matches shared server)
    (list : shared.mutexList = fsync.state.mutexList) :
    Related { fsync with state := shared } { system with state := server } where
  matching := matching
  handles := related.handles
  handle n found is := list ▸ related.handle n found is
  name n o is := list ▸ related.name n o is
  fresh o member := related.fresh o (list ▸ member)

omit related in
theorem mem_mutexList_of_allocHandle {handles : Handles} {mutexes : List ObjectId} {o : ObjectId}
    {access : Access} {mapped : Bool}
    (old : ∀ n found, handles.handle n = some found → found.object ∈ mutexes)
    (inside : o ∈ mutexes) (n : Nat) (found : Handle)
    (is : (handles.allocHandle o access mapped).handle n = some found) :
    found.object ∈ mutexes := by
  simp only [Handles.allocHandle] at is
  rcases eq_or_ne n handles.nextHandle with rfl | other
  · rw [update_self] at is
    cases is
    exact inside
  · rw [update_of_ne other] at is
    exact old n found is

/-- A second handle to a mutex. -/
theorem Related.allocHandle {o : ObjectId} (inside : o ∈ fsync.state.mutexList) (access : Access)
    (mapped : Bool) :
    Related { fsync with handles := fsync.handles.allocHandle o access mapped }
      { system with handles := system.handles.allocHandle o access mapped } where
  matching := related.matching
  handles := by rw [related.handles]
  handle := mem_mutexList_of_allocHandle related.handle inside
  name := related.name
  fresh := related.fresh

theorem Related.create (t : Tid) (name : Option Name) (owned : Bool) (access : Access)
    (mapped : Bool) : Related
      { state := fsyncCreateMutex fsync.state fsync.handles.nextObject t owned
        handles := fsync.handles.createObject name access mapped }
      { state := serverCreateMutex system.state system.handles.nextObject t owned
        handles := system.handles.createObject name access mapped } := by
  have created : fsync.handles.nextObject ∈
      (fsyncCreateMutex fsync.state fsync.handles.nextObject t owned).mutexList :=
    mem_append_right _ (mem_singleton_self _)
  have kept : ∀ o ∈ fsync.state.mutexList, o ∈
      (fsyncCreateMutex fsync.state fsync.handles.nextObject t owned).mutexList :=
    fun o member => mem_append_left _ member
  rw [← related.handles]
  refine ⟨related.matching.create (fun member =>
      (related.fresh _ member).false) owned, rfl, ?_, fun n o is => ?_,
    fun o member => ?_⟩
  · exact mem_mutexList_of_allocHandle
      (fun n found is => kept _ (related.handle n found is)) created
  · cases name with
    | none => exact kept o (related.name n o is)
    | some name =>
      simp only [Handles.createObject, Handles.allocHandle] at is
      rcases eq_or_ne n name with rfl | other
      · rw [update_self] at is
        cases is
        exact created
      · rw [update_of_ne other] at is
        exact kept o (related.name n o is)
  · rcases mem_append.mp member with old | new
    · exact (related.fresh o old).trans (Nat.lt_succ_self _)
    · rw [mem_singleton.mp new]
      exact Nat.lt_succ_self _

/-- A safe call tells its caller the same and keeps the relation. -/
theorem Related.call (call : Call) (safe : MutantSafe fsync call) :
    (fsync.call fsyncBackend call).2 = (system.call serverBackend call).2 ∧
      Related (fsync.call fsyncBackend call).1 (system.call serverBackend call).1 := by
  rcases fsync with ⟨shared, handles⟩
  rcases system with ⟨server, handles'⟩
  have same : handles = handles' := related.handles
  subst same
  cases call with
  | create t name openIf owned access mapped =>
    simp only [System.call]
    rcases found : name.bind handles.name with _ | o
    · exact ⟨rfl, related.create t name owned access mapped⟩
    · cases openIf with
      | false => exact ⟨rfl, related⟩
      | true =>
        have inside : o ∈ shared.mutexList := by
          rcases bind_eq_some_iff.mp found with ⟨n, _, is⟩
          exact related.name n o is
        exact ⟨rfl, related.allocHandle inside access mapped⟩
  | wait t handle =>
    simp only [System.call, fsyncBackend, serverBackend]
    rcases found : handles.handle handle with _ | handle
    · exact ⟨rfl, related⟩
    · rcases safe handle found with ⟨access, room⟩
      have inside := related.handle _ _ found
      have waited := related.matching.wait (t := t) inside access fun m word mine full => by
          have full' : (shared.memory handle.object).full t = true := by
            rw [word]
            exact Bool.and_eq_true_iff.mpr ⟨decide_eq_true mine, decide_eq_true full⟩
          exact Bool.false_ne_true (room.symm.trans full')
      exact ⟨congrArg Reply.waited waited.1, related.setState waited.2 (mutexList_fsyncWait _)⟩
  | release t handle prevCount =>
    obtain ⟨rfl, safe⟩ : prevCount = false ∧ _ := safe
    simp only [System.call, fsyncBackend, serverBackend, Bool.false_eq_true, if_false]
    rcases found : handles.handle handle with _ | handle
    · exact ⟨rfl, related⟩
    · have inside := related.handle _ _ found
      have released := related.matching.release (t := t) inside (safe handle found)
      exact ⟨by rw [released.1],
        related.setState released.2 (mutexList_fsyncReleaseMutex _)⟩
  | query t handle =>
    simp only [System.call, fsyncBackend, serverBackend]
    rcases found : handles.handle handle with _ | handle
    · exact ⟨rfl, related⟩
    · have inside := related.handle _ _ found
      rw [related.matching.query inside (safe handle found).2 (safe handle found).1]
      exact ⟨rfl, related⟩
  | terminate t => exact ⟨rfl, related.setState (related.matching.terminate t) rfl⟩

end

end Related

end WineRedRose.Fsync
