import WineRedRose.Waits.Ending

/-!
# Waking threads

`wake_thread` ends waits of a thread until the current one has to go on.
`wake_up` does this for the threads in the queue of an object that became
signaled, up to a limit.  Before it runs, a wait can only be over because of
this object; after it, no wait is, if the scan came to the end of the queue or
the signal is used up.
-/

namespace WineRedRose.Waits

open List

/-! ## `check_wait` -/

/-- A wait is over, given the objects that are signaled. -/
def Ready (sig : ObjectId → Prop) (wait : ThreadWait) : Prop :=
  match wait.select with
  | .waitAll => ∀ o ∈ wait.objects, sig o
  | _ => ∃ o ∈ wait.objects, sig o

variable {server server' : Server} {t : ThreadId} {obj : ObjectId}

section Ready

variable {wait : ThreadWait} {status : Nat}

theorem Ready.mono {sig sig' : ObjectId → Prop} (imp : ∀ o ∈ wait.objects, sig o → sig' o)
    (ready : Ready sig wait) :
    Ready sig' wait := by
  have any : (∃ o ∈ wait.objects, sig o) → ∃ o ∈ wait.objects, sig' o := by
    rintro ⟨o, member, holds⟩
    exact ⟨o, member, imp o member holds⟩
  cases op : wait.select <;> simp only [Ready, op] at ready ⊢
  case waitAll => exact fun o member => imp o member (ready o member)
  all_goals exact any ready

theorem signaledStatus_eq_none_iff : signaledStatus server t wait = none ↔
      ¬ Ready (fun o => (server.object o).signaled t = true) wait := by
  rcases op : wait.select with _ | _ | _ <;>
    simp [signaledStatus, Ready, op, signaled]

/-- A wait for one of its objects takes one that is signaled. -/
theorem available_of_findIdx?
    (met : wait.objects.findIdx? (fun o => signaled server o t) = some status) :
    ∀ o ∈ wait.objects[status]?.toList, (server.object o).signaled t = true := by
  intro o member
  rw [findIdx?_eq_some_iff_getElem] at met
  rcases met with ⟨inside, holds, _⟩
  rw [getElem?_eq_getElem inside, Option.toList_some, mem_singleton] at member
  rw [member]
  exact holds

/-- The objects that a finished wait takes are signaled. -/
theorem available_of_signaledStatus (met : signaledStatus server t wait = some status) :
    ∀ o ∈ takenObjects wait status, (server.object o).signaled t = true := by
  rw [takenObjects]
  split_ifs
  swap
  · exact fun o member => (not_mem_nil member).elim
  cases op : wait.select with
  | waitAll =>
    simp only [signaledStatus, op, Option.ite_none_right_eq_some, all_eq_true] at met
    exact met.1
  | wait | signalAndWait =>
    simp only [signaledStatus, op] at met
    exact available_of_findIdx? met

/-- A status that is no index takes nothing. -/
theorem takenObjects_of_le (large : maximumWaitObjects ≤ status) :
    takenObjects wait status = [] := by
  rw [takenObjects, if_neg]
  exact Nat.not_lt.mpr (wait.queues.few.trans large)

/-- A wait that is over is over by its objects or by its deadline. -/
theorem checkWait_cases (checks : checkWait server t = some status) :
    ∃ wait rest, (server.thread t).wait = wait :: rest ∧ suspended server t = false ∧
      (signaledStatus server t wait = some status ∨
        expired server wait = true ∧ status = statusTimeout) := by
  rcases current : (server.thread t).wait with _ | ⟨wait, rest⟩
  · rw [checkWait, current] at checks
    cases checks
  rcases stopped : suspended server t with _ | _
  swap
  · simp [checkWait, current, stopped] at checks
  refine ⟨wait, rest, rfl, rfl, ?_⟩
  rcases met : signaledStatus server t wait with _ | first
  · simp [checkWait, current, stopped, met] at checks
    exact .inr ⟨checks.1, checks.2.symm⟩
  · simp [checkWait, current, stopped, met] at checks
    exact .inl (congrArg some checks)

theorem available_of_checkWait {rest : List ThreadWait}
    (current : (server.thread t).wait = wait :: rest) (checks : checkWait server t = some status) :
    ∀ o ∈ takenObjects wait status, (server.object o).signaled t = true := by
  rcases checkWait_cases checks with ⟨top, below, current', _, reason⟩
  rw [current] at current'
  rcases cons.inj current' with ⟨rfl, _⟩
  rcases reason with met | ⟨_, rfl⟩
  · exact available_of_signaledStatus met
  · rw [takenObjects_of_le (by decide)]
    exact fun o member => (not_mem_nil member).elim

/-- A current wait that goes on has not expired and is not ready. -/
theorem checkWait_eq_none_iff {rest : List ThreadWait}
    (current : (server.thread t).wait = wait :: rest) (running : suspended server t = false) :
    checkWait server t = none ↔ ¬ Ready (fun o => (server.object o).signaled t = true) wait ∧
      expired server wait = false := by
  rw [← signaledStatus_eq_none_iff, checkWait, current]
  simp only [running]
  rcases signaledStatus server t wait with _ | status
  · simp
  · simp

end Ready

/-! ## `wake_thread` -/

/-- A thread was woken as often as its waits allowed. -/
structure Woken (t : ThreadId) (server server' : Server) (count : Nat) :
    Prop where
  wellFormed : WellFormed server'
  drains : Drains server server'
  others : ∀ u, u ≠ t → (server'.thread u).wait = (server.thread u).wait
  settled : checkWait server' t = none
  ended : (server'.thread t).wait.length + count = (server.thread t).wait.length

variable {fuel : Nat} {entries : List QueueEntry} {entry : QueueEntry}

section WakeThread

theorem checkWait_of_empty (empty : (server.thread t).wait = []) : checkWait server t = none := by
  rw [checkWait, empty]

theorem wakeLoop_woken (wellFormed : WellFormed server)
    (enough : (server.thread t).wait.length ≤ fuel) :
    Woken t server (wakeLoop fuel server t).1 (wakeLoop fuel server t).2 := by
  induction fuel generalizing server with
  | zero =>
    have empty := eq_nil_of_length_eq_zero (Nat.le_zero.mp enough)
    exact ⟨wellFormed, .refl server, fun _ _ => rfl, checkWait_of_empty empty, rfl⟩
  | succ fuel ih =>
    rw [wakeLoop]
    split
    · next settled => exact ⟨wellFormed, .refl server, fun _ _ => rfl, settled, rfl⟩
    next status checks =>
    rcases checkWait_cases checks with ⟨wait, rest, current, _⟩
    have ends := finishWait_ends current status
    have within := (takenObjects_sublist wait status).subset
    have available := available_of_checkWait current checks
    have popped := ends.popped
    rw [popped, length_cons] at enough
    have rest := ih (ends.wellFormed wellFormed within) (Nat.le_of_succ_le_succ enough)
    refine ⟨rest.wellFormed, (ends.drains wellFormed within available).trans rest.drains,
      fun u other => (rest.others u other).trans (ends.others u other),
      rest.settled, ?_⟩
    have ended := rest.ended
    rw [popped, length_cons, ← ended]
    rfl

theorem wakeThread_woken (wellFormed : WellFormed server) (t : ThreadId) :
    Woken t server (wakeThread server t).1 (wakeThread server t).2 :=
  wakeLoop_woken wellFormed le_rfl

/-- A thread that does not wake up is left alone. -/
theorem wakeThread_of_settled (settled : checkWait server t = none) :
    wakeThread server t = (server, 0) := by
  rw [wakeThread]
  cases (server.thread t).wait.length with
  | zero => rfl
  | succ fuel => rw [wakeLoop, settled]

/-- A thread that wakes up ends its current wait first. -/
theorem wakeThread_of_checkWait {status : Nat} (wellFormed : WellFormed server)
    (checks : checkWait server t = some status) :
    (wakeThread server t).2 ≠ 0 ∧ Drains (finishWait server t status) (wakeThread server t).1 := by
  rcases checkWait_cases checks with ⟨wait, rest, current, _⟩
  have ends := finishWait_ends current status
  have within := (takenObjects_sublist wait status).subset
  have remaining : ((finishWait server t status).thread t).wait = rest := by
    have popped := ends.popped
    rw [current] at popped
    exact (cons.inj popped).2.symm
  have enough : ((finishWait server t status).thread t).wait.length ≤
      rest.length := by rw [remaining]
  have woken := wakeLoop_woken (ends.wellFormed wellFormed within) enough
  rw [wakeThread, current, length_cons, wakeLoop, checks]
  exact ⟨Nat.succ_ne_zero _, woken.drains⟩

end WakeThread

/-! ## Quiet threads -/

/--
The thread is not blocked in a wait that is over by the objects that are
allowed to count.
-/
def Quiet (allowed : ObjectId → Prop) (server : Server) (t : ThreadId) :
    Prop :=
  ∀ wait rest, (server.thread t).wait = wait :: rest → suspended server t = false →
    ¬ Ready (fun o => allowed o ∧ (server.object o).signaled t = true) wait

section Quiet

variable {allowed : ObjectId → Prop}

theorem quiet_of_settled (settled : checkWait server t = none) :
    Quiet allowed server t := by
  intro wait rest current running ready
  refine ((checkWait_eq_none_iff current running).mp settled).1 ?_
  exact ready.mono fun o _ holds => holds.2

theorem Quiet.drains (quiet : Quiet allowed server t) (drains : Drains server server')
    (same : (server'.thread t).wait = (server.thread t).wait) :
    Quiet allowed server' t := by
  intro wait rest current running ready
  rw [same] at current
  rw [drains.suspended t] at running
  refine quiet wait rest current running (ready.mono fun o _ holds => ?_)
  exact ⟨holds.1, drains.signals o t holds.2⟩

/-- A wait that goes on still does when objects are taken. -/
theorem settled_of_drains (settled : checkWait server t = none) (drains : Drains server server')
    (same : (server'.thread t).wait = (server.thread t).wait) :
    checkWait server' t = none := by
  rcases current : (server.thread t).wait with _ | ⟨wait, rest⟩
  · exact checkWait_of_empty (same.trans current)
  rcases stopped : suspended server t with _ | _
  · rw [checkWait_eq_none_iff current stopped] at settled
    rw [checkWait_eq_none_iff (same.trans current)
      ((drains.suspended t).trans stopped), drains.expired]
    exact ⟨fun ready => settled.1 (ready.mono fun o _ => drains.signals o t), settled.2⟩
  · have stopped' := (drains.suspended t).trans stopped
    rw [checkWait, same, current]
    simp [stopped']

/-- Waking a thread keeps all threads quiet. -/
theorem Woken.quiet {u : ThreadId} {count : Nat} (woken : Woken u server server' count)
    (quiet : Quiet allowed server t) :
    Quiet allowed server' t := by
  rcases eq_or_ne t u with rfl | other
  · exact quiet_of_settled woken.settled
  · exact quiet.drains woken.drains (woken.others t other)

/-- The only object that can end a wait is taken when it ends. -/
theorem mem_takenObjects {wait : ThreadWait} {status : Nat}
    (met : signaledStatus server t wait = some status)
    (only : ¬ Ready (fun o => o ≠ obj ∧ (server.object o).signaled t = true) wait) :
    obj ∈ takenObjects wait status := by
  have any : wait.objects.findIdx? (fun o => signaled server o t) = some status →
      (∀ o ∈ wait.objects, o ≠ obj → (server.object o).signaled t = true → False) →
      status < wait.objects.length ∧ obj ∈ wait.objects[status]?.toList := by
    intro found others
    rw [findIdx?_eq_some_iff_getElem] at found
    rcases found with ⟨inside, holds, _⟩
    refine ⟨inside, ?_⟩
    have same : wait.objects[status] = obj := by
      by_contra other
      exact others _ (getElem_mem inside) other holds
    rw [getElem?_eq_getElem inside, same]
    exact mem_singleton_self obj
  cases op : wait.select with
  | waitAll =>
    simp only [signaledStatus, Ready, op, Option.ite_none_right_eq_some,
      all_eq_true, Option.some.injEq] at met only
    have present : obj ∈ wait.objects := by
      by_contra absent
      apply only
      intro o member
      exact ⟨fun same => absent (same ▸ member), met.1 o member⟩
    rw [takenObjects, ← met.2, statusWait0, if_pos (length_pos_of_mem present), op]
    exact present
  | wait | signalAndWait =>
    simp only [signaledStatus, Ready, op] at met only
    rcases any met fun o member other holds => only ⟨o, member, other, holds⟩ with ⟨inside, found⟩
    rw [takenObjects, if_pos inside, op]
    exact found

/-- A wait for any of its objects, which takes the object if this is signaled. -/
def ThreadWait.Takes (wait : ThreadWait) (obj : ObjectId) : Prop :=
  wait.select ≠ .waitAll ∧ obj ∈ wait.objects

instance (wait : ThreadWait) (obj : ObjectId) : Decidable (wait.Takes obj) :=
  inferInstanceAs (Decidable (_ ∧ _))

theorem ThreadWait.Takes.ready {wait : ThreadWait} (takes : wait.Takes obj)
    (signaled : (server.object obj).signaled t = true) :
    Ready (fun o => (server.object o).signaled t = true) wait := by
  rcases takes with ⟨any, member⟩
  cases op : wait.select with
  | waitAll => exact absurd op any
  | wait | signalAndWait =>
    simp only [Ready, op]
    exact ⟨obj, member, signaled⟩

/--
A thread that wakes up in time or takes what is there, and could only be woken
by a limited object, has taken a part of its signal, if any was left.
-/
theorem wakeThread_uses {status : Nat} (wellFormed : WellFormed server)
    (limited : (server.object obj).Limited)
    (quiet : Quiet (· ≠ obj) server t)
    (punctual : ∀ wait rest, (server.thread t).wait = wait :: rest →
      suspended server t = false → expired server wait = false ∨ wait.Takes obj)
    (checks : checkWait server t = some status) :
    ((wakeThread server t).1.object obj).supply ≤ (server.object obj).supply - 1 := by
  rcases checkWait_cases checks with ⟨wait, rest, current, running, reason⟩
  have later := (wakeThread_woken wellFormed t).drains.supply obj
  by_cases dry : (server.object obj).supply = 0
  · rw [dry] at later ⊢
    exact later
  have met : signaledStatus server t wait = some status := by
    rcases reason with met | ⟨late, -⟩
    · exact met
    · rcases punctual wait rest current running with inTime | takes
      · rw [inTime] at late
        cases late
      · have ready : Ready (fun o => (server.object o).signaled t = true) wait :=
          takes.ready ((Object.signaled_iff_supply limited).mpr (Nat.pos_of_ne_zero dry))
        rcases found : signaledStatus server t wait with _ | first
        · exact absurd ready (signaledStatus_eq_none_iff.mp found)
        · simp only [checkWait, current, running, found] at checks
          exact checks
  have available := available_of_signaledStatus met
  have isTaken : obj ∈ takenObjects wait status :=
    mem_takenObjects met (quiet wait rest current running)
  have ends := finishWait_ends current status
  have first : ((finishWait server t status).object obj).supply < (server.object obj).supply := by
    rw [ends.object obj, if_pos isTaken]
    exact Object.supply_taken_lt limited (available obj isTaken)
  exact Nat.le_sub_one_of_lt
    (((wakeThread_of_checkWait wellFormed checks).2.supply obj).trans_lt first)

end Quiet

/-! ## `wake_up` -/

section WakeUp

variable {max : Int}

section

variable (wellFormed : WellFormed server)
include wellFormed

theorem wakeFirst_eq (entries : List QueueEntry) : wakeFirst server entries =
    (entries.find? fun entry => (checkWait server entry.thread).isSome).map
      fun entry => (wakeThread server entry.thread).1 := by
  induction entries with
  | nil => rfl
  | cons first entries ih =>
    rw [wakeFirst, find?_cons]
    rcases checks : checkWait server first.thread with _ | status
    · rw [wakeThread_of_settled checks]
      exact ih
    · have awake := (wakeThread_of_checkWait wellFormed checks).1
      split
      · next counted => exact (awake (congrArg Prod.snd counted)).elim
      · next counted => exact congrArg (fun result => some result.1) counted.symm

theorem wakeFirst_eq_none (asleep : wakeFirst server entries = none) :
    ∀ entry ∈ entries, checkWait server entry.thread = none := by
  simpa [wakeFirst_eq wellFormed] using asleep

theorem wakeFirst_eq_some (woken : wakeFirst server entries = some server') :
    ∃ entry ∈ entries, ∃ status, checkWait server entry.thread = some status ∧
      server' = (wakeThread server entry.thread).1 := by
  rw [wakeFirst_eq wellFormed, Option.map_eq_some_iff] at woken
  obtain ⟨entry, found, rfl⟩ := woken
  have checked := find?_some found
  obtain ⟨status, checks⟩ := Option.isSome_iff_exists.mp checked
  exact ⟨entry, mem_of_find?_eq_some found, status, checks, rfl⟩

/-- What waking a thread keeps, `wake_up` keeps. -/
theorem wakeUp_keeps {inv : Server → Prop} (start : inv server)
    (wakes : ∀ {server server' t count}, inv server → Woken t server server' count → inv server')
    (obj : ObjectId) (max : Int) :
    WellFormed (wakeUp server obj max) ∧ inv (wakeUp server obj max) := by
  rw [wakeUp]
  generalize queuedWaits server obj + 1 = fuel
  induction fuel generalizing server max with
  | zero => exact ⟨wellFormed, start⟩
  | succ fuel ih =>
    rw [wakeUpLoop]
    split
    · exact ⟨wellFormed, start⟩
    next later woken =>
    rcases wakeFirst_eq_some wellFormed woken with ⟨entry, _, _, _, rfl⟩
    have one := wakeThread_woken wellFormed entry.thread
    split
    · exact ⟨one.wellFormed, wakes start one⟩
    · exact ih one.wellFormed (wakes start one) _

theorem queuedWaits_lt (member : entry ∈ server.queue obj) {status : Nat}
    (checks : checkWait server entry.thread = some status) :
    queuedWaits (wakeThread server entry.thread).1 obj < queuedWaits server obj := by
  have woken := wakeThread_woken wellFormed entry.thread
  have awake := (wakeThread_of_checkWait wellFormed checks).1
  have ended := woken.ended
  have fewer : ∀ u, ((wakeThread server entry.thread).1.thread
      u).wait.length ≤ (server.thread u).wait.length :=
    fun u => (woken.drains.wait u).length_le
  calc queuedWaits (wakeThread server entry.thread).1 obj
      ≤ ((server.queue obj).map fun e =>
          ((wakeThread server entry.thread).1.thread e.thread).wait.length).sum :=
        ((woken.drains.queue obj).map _).sum_le_sum fun _ _ => Nat.zero_le _
    _ < queuedWaits server obj := by
        apply sum_lt_sum _ _ (fun e _ => fewer e.thread)
        exact ⟨entry, member, by omega⟩

/--
What is needed to wake a limited number of threads: the limit covers the
signal, and the queued threads can only be woken by this object.
-/
structure Rationed (obj : ObjectId) (server : Server) (max : Int) :
    Prop where
  wellFormed : WellFormed server
  limited : (server.object obj).Limited
  supply : ((server.object obj).supply : Int) ≤ max
  quiet : ∀ entry ∈ server.queue obj, Quiet (· ≠ obj) server entry.thread
  punctual : ∀ entry ∈ server.queue obj, ∀ wait rest,
    (server.thread entry.thread).wait = wait :: rest →
    suspended server entry.thread = false → expired server wait = false ∨ wait.Takes obj

omit wellFormed in
theorem Rationed.step (rationed : Rationed obj server max) (positive : 0 < max)
    (member : entry ∈ server.queue obj) {status : Nat}
    (checks : checkWait server entry.thread = some status) :
    Rationed obj (wakeThread server entry.thread).1 (max - 1) := by
  have woken := wakeThread_woken rationed.wellFormed entry.thread
  have used := wakeThread_uses rationed.wellFormed rationed.limited
    (rationed.quiet entry member) (rationed.punctual entry member) checks
  have supply := rationed.supply
  have older : ∀ e ∈ (wakeThread server entry.thread).1.queue obj,
      e ∈ server.queue obj := (woken.drains.queue obj).subset
  refine ⟨woken.wellFormed, (woken.drains.limited obj).mpr rationed.limited,
    by omega, fun e there => woken.quiet (rationed.quiet e (older e there)),
    fun e there wait rest current running => ?_⟩
  rcases eq_or_ne e.thread entry.thread with same | other
  · rw [same] at current running
    exact .inl ((checkWait_eq_none_iff current running).mp woken.settled).2
  · rw [woken.others _ other] at current
    rw [woken.drains.suspended] at running
    rw [woken.drains.expired]
    exact rationed.punctual e (older e there) wait rest current running

/-- Everyone in the queue has to go on waiting. -/
def Scanned (obj : ObjectId) (server : Server) : Prop :=
  ∀ entry ∈ server.queue obj, checkWait server entry.thread = none

/-- The signal of the object is used up. -/
def UsedUp (obj : ObjectId) (server : Server) : Prop := ∀ t, (server.object obj).signaled t = false

theorem wakeUpLoop_served (enough : queuedWaits server obj < fuel)
    (bounded : 0 < max → Rationed obj server max) : Scanned obj (wakeUpLoop obj fuel server max) ∨
      0 < max ∧ UsedUp obj (wakeUpLoop obj fuel server max) := by
  induction fuel generalizing server max with
  | zero => exact (Nat.not_lt_zero _ enough).elim
  | succ fuel ih =>
    rw [wakeUpLoop]
    split
    · next asleep => exact .inl (wakeFirst_eq_none wellFormed asleep)
    next later woken =>
    rcases wakeFirst_eq_some wellFormed woken with ⟨entry, member, status, checks, rfl⟩
    have wellFormed' := (wakeThread_woken wellFormed entry.thread).wellFormed
    have fewer := queuedWaits_lt wellFormed member checks
    have enough' := fewer.trans_le (Nat.le_of_lt_succ enough)
    split_ifs with last more
    · -- the last wakeup that the limit allows
      have positive : 0 < max := by omega
      have rationed := (bounded positive).step positive member checks
      refine .inr ⟨positive, fun t => ?_⟩
      have none := rationed.supply
      have dry := mt (Object.signaled_iff_supply (t := t) rationed.limited).mp (by omega)
      exact Bool.eq_false_of_not_eq_true dry
    · have bounded' : 0 < max - 1 → Rationed obj (wakeThread server entry.thread).1 (max - 1) :=
        fun positive => (bounded (by omega)).step (by omega) member checks
      rcases ih wellFormed' enough' bounded' with scanned | used
      · exact .inl scanned
      · exact .inr ⟨by omega, used.2⟩
    · exact ih wellFormed' enough' fun positive => (more positive.ne').elim

end

end WakeUp

end WineRedRose.Waits
