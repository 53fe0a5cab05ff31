import WineRedRose.Waits.Model

/-!
# Ending a wait

`end_wait` takes objects, which makes no object signaled for a thread that it
was not signaled for before, and takes the wait out of the queues.
-/

namespace WineRedRose.Waits

open Sync List Function Server Object

/-! ## The state -/

variable {obj o : ObjectId} {t u : ThreadId} {server' server'' : Server} {wait : ThreadWait}

section Updates

variable (server : Server)

@[simp]
theorem Server.object_setObject_self (object : Object) :
    (server.setObject obj object).object obj = object :=
  update_self ..

theorem Server.object_setObject_of_ne (other : o ≠ obj) (object : Object) :
    (server.setObject obj object).object o = server.object o :=
  update_of_ne other ..

@[simp]
theorem Server.thread_modifyThread_self (change : Thread → Thread) :
    (server.modifyThread t change).thread t = change (server.thread t) :=
  update_self ..

theorem Server.thread_modifyThread_of_ne (other : u ≠ t) (change : Thread → Thread) :
    (server.modifyThread t change).thread u = server.thread u :=
  update_of_ne other ..

end Updates

/-- Nothing but objects, lists of mutexes and messages has changed. -/
structure Keeps (server server' : Server) : Prop where
  wait : ∀ t, (server'.thread t).wait = (server.thread t).wait
  suspended : ∀ t, suspended server' t = suspended server t
  queue : server'.queue = server.queue
  currentTime : server'.currentTime = server.currentTime
  monotonicTime : server'.monotonicTime = server.monotonicTime
  nextWait : server'.nextWait = server.nextWait

section Keeps

variable {server : Server}

theorem Keeps.refl (server : Server) : Keeps server server :=
  ⟨fun _ => rfl, fun _ => rfl, rfl, rfl, rfl, rfl⟩

theorem Keeps.trans (first : Keeps server server') (second : Keeps server' server'') :
    Keeps server server'' where
  wait t := (second.wait t).trans (first.wait t)
  suspended t := (second.suspended t).trans (first.suspended t)
  queue := second.queue.trans first.queue
  currentTime := second.currentTime.trans first.currentTime
  monotonicTime := second.monotonicTime.trans first.monotonicTime
  nextWait := second.nextWait.trans first.nextWait

theorem keeps_setObject (server : Server) (obj : ObjectId) (object : Object) :
    Keeps server (server.setObject obj object) :=
  ⟨fun _ => rfl, fun _ => rfl, rfl, rfl, rfl, rfl⟩

theorem keeps_mutexList (server : Server) (t : ThreadId) (change : List ObjectId → List ObjectId) :
    Keeps server (server.modifyThread t fun thread =>
      { thread with mutexList := change thread.mutexList }) := by
  refine ⟨fun u => ?_, fun u => ?_, rfl, rfl, rfl, rfl⟩
  · rcases eq_or_ne u t with rfl | other
    · simp
    · rw [thread_modifyThread_of_ne _ other]
  · rcases eq_or_ne u t with rfl | other
    · simp [suspended, modifyThread]
    · simp [suspended, modifyThread, other]

theorem Keeps.expired (keeps : Keeps server server') (wait : ThreadWait) :
    expired server' wait = expired server wait := by
  simp only [Waits.expired, keeps.currentTime, keeps.monotonicTime]

end Keeps

/-! ## Taking objects -/

/-- The object after a wait of a thread has taken it. -/
def Object.taken (t : ThreadId) : Object → Object
  | .event e => .event (if e.manualReset then e else { e with signaled := false })
  | .semaphore sem => .semaphore (semaphoreSatisfied sem)
  | .mutex m =>
    .mutex
      { count := m.count + 1
        owner := if m.count = 0 then some t else m.owner
        abandoned := false }

/-- The count of a mutex does not wrap around within so many grabs. -/
def Object.Room (more : Nat) : Object → Prop
  | .mutex m => m.count.toNat + more < 2 ^ 32
  | _ => True

/-- Each wait takes a part of the signal. -/
def Object.Limited : Object → Prop
  | .event e => e.manualReset = false
  | .semaphore _ => True
  | .mutex _ => False

/-- How many waits a limited object can still satisfy. -/
def Object.supply : Object → Nat
  | .event e => if e.signaled then 1 else 0
  | .semaphore sem => sem.count.toNat
  | .mutex _ => 0

section Taking

variable {object : Object} {more : Nat}

theorem Object.Room.mono {less : Nat} (room : object.Room more) (fewer : less ≤ more) :
    object.Room less := by
  cases object with
  | event => trivial
  | semaphore => trivial
  | mutex mutex => exact (Nat.add_le_add_left fewer _).trans_lt room

theorem semaphoreSignaled_iff (sem : Semaphore) :
    semaphoreSignaled sem = true ↔ 0 < sem.count.toNat := by
  simp [semaphoreSignaled, BitVec.lt_def]

theorem semaphoreSatisfied_count {sem : Semaphore} (signaled : semaphoreSignaled sem = true) :
    (semaphoreSatisfied sem).count.toNat + 1 = sem.count.toNat := by
  rw [semaphoreSignaled_iff] at signaled
  simp only [semaphoreSatisfied]
  bv_omega

theorem toNat_count_add_one {count : BitVec 32} (room : count.toNat + 1 < 2 ^ 32) :
    (count + 1).toNat = count.toNat + 1 := by
  bv_omega

/-- An object that was taken is not signaled for more threads than before. -/
theorem Object.signaled_taken (room : object.Room 1) (available : object.signaled t = true)
    (still : (object.taken t).signaled u = true) :
    object.signaled u = true := by
  cases object with
  | event event => exact available
  | semaphore sem => exact available
  | mutex mutex =>
    have positive : mutex.count + 1 ≠ 0 := by
      intro wrapped
      have count := toNat_count_add_one room
      rw [wrapped] at count
      exact Nat.succ_ne_zero _ count.symm
    simp only [taken, signaled, Bool.or_eq_true, decide_eq_true_eq] at still ⊢
    by_cases free : mutex.count = 0
    · exact .inl free
    · rw [if_neg free] at still
      exact .inr (still.resolve_left positive)

theorem Object.limited_taken : (object.taken t).Limited ↔ object.Limited := by
  cases object with
  | event event =>
    simp only [taken, Limited]
    split_ifs <;> rfl
  | semaphore sem => rfl
  | mutex mutex => rfl

theorem Object.supply_taken_le (available : object.signaled t = true) :
    (object.taken t).supply ≤ object.supply := by
  cases object with
  | event event =>
    simp only [taken, supply]
    split_ifs <;> simp_all
  | semaphore sem =>
    have one := semaphoreSatisfied_count available
    simp only [taken, supply]
    omega
  | mutex mutex => exact le_rfl

/-- A wait that takes a limited object uses up a part of its signal. -/
theorem Object.supply_taken_lt (limited : object.Limited) (available : object.signaled t = true) :
    (object.taken t).supply < object.supply := by
  cases object with
  | event event =>
    simp only [Limited] at limited
    simp only [signaled] at available
    simp [taken, supply, limited, available]
  | semaphore sem =>
    have one := semaphoreSatisfied_count available
    simp only [taken, supply]
    omega
  | mutex mutex => exact limited.elim

theorem Object.signaled_iff_supply (limited : object.Limited) :
    object.signaled t = true ↔ 0 < object.supply := by
  cases object with
  | event event =>
    simp only [signaled, supply]
    split_ifs <;> simp_all
  | semaphore sem => exact semaphoreSignaled_iff sem
  | mutex mutex => exact limited.elim

theorem Object.room_taken (room : object.Room (more + 1)) : (object.taken t).Room more := by
  cases object with
  | event event => trivial
  | semaphore sem => trivial
  | mutex mutex =>
    have small : mutex.count.toNat + (more + 1) < 2 ^ 32 := room
    have count := toNat_count_add_one (show mutex.count.toNat + 1 < 2 ^ 32 by omega)
    simp only [taken, Room, count]
    omega

end Taking

section Satisfied

variable {server : Server}

theorem satisfied_keeps (server : Server) (obj : ObjectId) (t : ThreadId) :
    Keeps server (satisfied server obj t).1 := by
  rw [satisfied]
  split
  · split_ifs
    · exact .refl server
    · exact keeps_setObject ..
  · exact keeps_setObject ..
  · dsimp only [doGrab]
    split_ifs
    · exact (keeps_setObject ..).trans (keeps_mutexList _ t (obj :: ·))
    · exact keeps_setObject ..

theorem satisfied_object (server : Server) (obj : ObjectId) (t : ThreadId) :
    (satisfied server obj t).1.object = update server.object obj ((server.object obj).taken t) := by
  rw [satisfied]
  split
  · next event is =>
      rw [is, taken]
      split_ifs
      · rw [← is, update_eq_self]
      · rfl
  · next sem is =>
      rw [is]
      rfl
  · next mutex is =>
      rw [is, taken]
      dsimp only [doGrab]
      split_ifs <;> rfl

theorem satisfyAll_keeps (server : Server) (objects : List ObjectId) (t : ThreadId) :
    Keeps server (satisfyAll t objects server).1 := by
  induction objects generalizing server with
  | nil => exact .refl server
  | cons obj objects ih => exact (satisfied_keeps server obj t).trans (ih _)

/-- Each of the objects is taken once. -/
theorem satisfyAll_object (server : Server) {objects : List ObjectId} (distinct : objects.Nodup)
    (t : ThreadId) (o : ObjectId) :
    (satisfyAll t objects server).1.object o =
      if o ∈ objects then (server.object o).taken t
      else server.object o := by
  induction objects generalizing server with
  | nil => rfl
  | cons obj objects ih =>
    rcases nodup_cons.mp distinct with ⟨absent, rest⟩
    refine (ih (satisfied server obj t).1 rest).trans ?_
    rcases eq_or_ne o obj with rfl | other
    · rw [if_neg absent, if_pos mem_cons_self, satisfied_object, update_self]
    · rw [satisfied_object, update_of_ne other]
      simp [other]

end Satisfied

/-! ## `end_wait` -/

/--
The current wait of a thread has ended; some of its objects were taken.
-/
structure Ends (t : ThreadId) (wait : ThreadWait) (taken : List ObjectId)
    (server server' : Server) : Prop where
  popped : (server.thread t).wait = wait :: (server'.thread t).wait
  others : ∀ u, u ≠ t → (server'.thread u).wait = (server.thread u).wait
  suspended : ∀ u, suspended server' u = suspended server u
  object : ∀ o, server'.object o =
    if o ∈ taken then (server.object o).taken t else server.object o
  queue : ∀ o, server'.queue o =
    if o ∈ wait.objects then (server.queue o).filter (· ≠ ⟨t, wait.id⟩)
    else server.queue o
  currentTime : server'.currentTime = server.currentTime
  monotonicTime : server'.monotonicTime = server.monotonicTime
  nextWait : server'.nextWait = server.nextWait

section Ends

variable {server : Server}
variable {rest : List ThreadWait}

theorem takenObjects_sublist (wait : ThreadWait) (status : Nat) :
    (takenObjects wait status).Sublist wait.objects := by
  rw [takenObjects]
  split_ifs with inside
  · split
    · exact .refl _
    · rw [getElem?_eq_getElem inside]
      exact singleton_sublist.mpr (getElem_mem inside)
  · exact nil_sublist _

theorem endWait_ends (current : (server.thread t).wait = wait :: rest) (status : Nat) :
    Ends t wait (takenObjects wait status) server (endWait server t status).1 := by
  have distinct : (takenObjects wait status).Nodup :=
    wait.queues.distinct.sublist (takenObjects_sublist wait status)
  have ended : (endWait server t status).1 = removeQueues (satisfyAll t (takenObjects wait status)
        (server.modifyThread t fun thread =>
          { thread with wait := rest })).1 t wait := by
    rw [endWait, current]
  have keeps := satisfyAll_keeps (server.modifyThread t fun thread =>
    { thread with wait := rest }) (takenObjects wait status) t
  rw [ended]
  refine ⟨?_, fun u other => ?_, fun u => ?_, fun o => ?_, fun o => ?_,
    keeps.currentTime, keeps.monotonicTime, keeps.nextWait⟩
  · rw [current]
    refine congrArg (wait :: ·) (Eq.symm ((keeps.wait t).trans ?_))
    rw [thread_modifyThread_self]
  · refine (keeps.wait u).trans ?_
    rw [thread_modifyThread_of_ne _ other]
  · refine (keeps.suspended u).trans ?_
    rcases eq_or_ne u t with rfl | other
    · simp [suspended, modifyThread]
    · simp [suspended, modifyThread, other]
  · exact satisfyAll_object _ distinct t o
  · simp only [removeQueues, keeps.queue]
    rfl

theorem finishWait_ends (current : (server.thread t).wait = wait :: rest) (status : Nat) :
    Ends t wait (takenObjects wait status) server (finishWait server t status) := by
  have ends := endWait_ends current status
  rw [finishWait]
  split_ifs
  · exact { ends with }
  · exact ends

end Ends

/-! ## Invariants and progress -/

/--
The queues hold the waits of the threads, and no mutex can wrap around by the
waits that are queued on it.
-/
structure WellFormed (server : Server) : Prop where
  entered : ∀ t, ∀ wait ∈ (server.thread t).wait, ∀ o ∈ wait.objects,
    (⟨t, wait.id⟩ : QueueEntry) ∈ server.queue o
  ids : ∀ t, ((server.thread t).wait.map ThreadWait.id).Nodup
  fresh : ∀ t, ∀ wait ∈ (server.thread t).wait, wait.id < server.nextWait
  room : ∀ o, (server.object o).Room (server.queue o).length

/-- Waits have ended and objects were taken, and nothing else happened. -/
structure Drains (server server' : Server) : Prop where
  signals : ∀ o t, (server'.object o).signaled t = true → (server.object o).signaled t = true
  limited : ∀ o, (server'.object o).Limited ↔ (server.object o).Limited
  supply : ∀ o, (server'.object o).supply ≤ (server.object o).supply
  suspended : ∀ t, suspended server' t = suspended server t
  wait : ∀ t, (server'.thread t).wait <:+ (server.thread t).wait
  queue : ∀ o, (server'.queue o).Sublist (server.queue o)
  currentTime : server'.currentTime = server.currentTime
  monotonicTime : server'.monotonicTime = server.monotonicTime

section Progress

variable {server : Server}
variable {taken : List ObjectId}

theorem Drains.refl (server : Server) : Drains server server :=
  ⟨fun _ _ => id, fun _ => Iff.rfl, fun _ => le_rfl, fun _ => rfl,
    fun _ => suffix_rfl, fun _ => .refl _, rfl, rfl⟩

theorem Drains.trans (first : Drains server server') (second : Drains server' server'') :
    Drains server server'' where
  signals o t still := first.signals o t (second.signals o t still)
  limited o := (second.limited o).trans (first.limited o)
  supply o := (second.supply o).trans (first.supply o)
  suspended t := (second.suspended t).trans (first.suspended t)
  wait t := (second.wait t).trans (first.wait t)
  queue o := (second.queue o).trans (first.queue o)
  currentTime := second.currentTime.trans first.currentTime
  monotonicTime := second.monotonicTime.trans first.monotonicTime

theorem Drains.expired (drains : Drains server server') (wait : ThreadWait) :
    expired server' wait = expired server wait := by
  simp only [Waits.expired, drains.currentTime, drains.monotonicTime]

/-- A wait that ends takes objects that are there to be taken. -/
theorem Ends.drains (wellFormed : WellFormed server) (ends : Ends t wait taken server server')
    (within : taken ⊆ wait.objects) (available : ∀ o ∈ taken, (server.object o).signaled t = true) :
    Drains server server' := by
  have isWait : wait ∈ (server.thread t).wait := by
    rw [ends.popped]
    exact mem_cons_self
  have room : ∀ o ∈ taken, (server.object o).Room 1 := by
    intro o member
    have entry := wellFormed.entered t wait isWait o (within member)
    exact (wellFormed.room o).mono (length_pos_of_mem entry)
  refine ⟨fun o u => ?_, fun o => ?_, fun o => ?_, ends.suspended,
    fun u => ?_, fun o => ?_, ends.currentTime, ends.monotonicTime⟩
  · rw [ends.object o]
    split_ifs with member
    · exact signaled_taken (room o member) (available o member)
    · exact id
  · rw [ends.object o]
    split_ifs
    · exact limited_taken
    · exact Iff.rfl
  · rw [ends.object o]
    split_ifs with member
    · exact supply_taken_le (available o member)
    · exact le_rfl
  · rcases eq_or_ne u t with rfl | other
    · rw [ends.popped]
      exact suffix_cons _ _
    · rw [ends.others u other]
  · rw [ends.queue o]
    split_ifs
    · exact filter_sublist
    · exact .refl _

theorem Ends.wellFormed (wellFormed : WellFormed server) (ends : Ends t wait taken server server')
    (within : taken ⊆ wait.objects) : WellFormed server' := by
  have isWait : wait ∈ (server.thread t).wait := by
    rw [ends.popped]
    exact mem_cons_self
  have older : ∀ u, ∀ w ∈ (server'.thread u).wait, w ∈ (server.thread u).wait := by
    intro u w member
    rcases eq_or_ne u t with rfl | other
    · rw [ends.popped]
      exact mem_cons_of_mem _ member
    · rw [← ends.others u other]
      exact member
  have idsT : wait.id ∉ (server'.thread t).wait.map ThreadWait.id := by
    have ids := wellFormed.ids t
    rw [ends.popped] at ids
    exact (nodup_cons.mp ids).1
  refine ⟨fun u w member o inside => ?_, fun u => ?_, fun u w member => ?_, fun o => ?_⟩
  · have entry := wellFormed.entered u w (older u w member) o inside
    rw [ends.queue o]
    split_ifs
    · refine mem_filter.mpr ⟨entry, decide_eq_true fun same => idsT ?_⟩
      rcases QueueEntry.mk.inj same with ⟨rfl, sameId⟩
      rw [← sameId]
      exact mem_map_of_mem member
    · exact entry
  · rcases eq_or_ne u t with rfl | other
    · have ids := wellFormed.ids u
      rw [ends.popped] at ids
      exact (nodup_cons.mp ids).2
    · rw [ends.others u other]
      exact wellFormed.ids u
  · rw [ends.nextWait]
    exact wellFormed.fresh u w (older u w member)
  · -- a mutex that was taken has one entry less in its queue
    have room := wellFormed.room o
    rw [ends.object o, ends.queue o]
    split_ifs with inside isTaken isTaken
    · have entry := wellFormed.entered t wait isWait o inside
      have fewer : ((server.queue o).filter
          (· ≠ ⟨t, wait.id⟩)).length < (server.queue o).length := by
        apply length_filter_lt_length_iff_exists.mpr
        exact ⟨_, entry, by simp⟩
      exact room_taken (room.mono fewer)
    · exact room.mono (length_filter_le _ _)
    · exact (inside (within isTaken)).elim
    · exact room

end Progress

end WineRedRose.Waits
