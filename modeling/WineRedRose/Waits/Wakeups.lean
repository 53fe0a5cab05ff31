import WineRedRose.Library.Runs
import WineRedRose.Waits.Signaling

/-!
# No missed wakeups

Between requests no thread that is not suspended is blocked in a wait that is
over.  Every request keeps this, apart from signals that wake a limited number
of threads: `wake_up` also counts threads that it wakes because their deadline
has passed.
-/

namespace WineRedRose.Waits

open Library.Runs List Server

/-- No thread misses a wakeup: see `check_wait`. -/
def NoMissedWakeup (server : Server) : Prop :=
  ∀ t wait rest, (server.thread t).wait = wait :: rest →
    suspended server t = false → expired server wait = false →
    signaledStatus server t wait = none

/-- The invariant does not depend on deadlines. -/
structure Inv (server : Server) : Prop where
  wellFormed : WellFormed server
  calm : ∀ t, Quiet (fun _ => True) server t

variable {op : SelectOp} {queues : WaitObjects} {when : Int}

section Steps

variable {server server' : Server} {t : ThreadId} {obj : ObjectId}

/-- The current wait of a thread that is not suspended is not over. -/
theorem Inv.not_ready (inv : Inv server) {wait : ThreadWait} {rest : List ThreadWait}
    (current : (server.thread t).wait = wait :: rest) (running : suspended server t = false) :
    ¬ Ready (fun o => (server.object o).signaled t = true) wait :=
  fun ready => inv.calm t wait rest current running (ready.mono fun _ _ holds => ⟨trivial, holds⟩)

theorem Inv.noMissedWakeup (inv : Inv server) : NoMissedWakeup server := by
  intro t wait rest current running _
  rw [signaledStatus_eq_none_iff]
  exact inv.not_ready current running

/-- One thread is looked at apart from the others. -/
theorem Inv.of_thread (wellFormed : WellFormed server)
    (calm : ∀ u, u ≠ t → Quiet (fun _ => True) server u) (own : Quiet (fun _ => True) server t) :
    Inv server := by
  refine ⟨wellFormed, fun u => ?_⟩
  rcases eq_or_ne u t with rfl | other
  · exact own
  · exact calm u other

variable {allowed : ObjectId → Prop} {u : ThreadId} {status : Nat}

theorem quiet_of_wait_nil (empty : (server.thread t).wait = []) :
    Quiet allowed server t := by
  intro wait rest current
  rw [empty] at current
  cases current

theorem Signals.inv (signals : Signals obj (fun _ => False) server server') : Inv server' :=
  ⟨signals.wellFormed, fun t => signals.quiet t id⟩

/-! ## Changes that wake nobody -/

/-- What the invariant depends on in a wait. -/
def ThreadWait.core (wait : ThreadWait) : Nat × SelectOp × WaitObjects :=
  (wait.id, wait.select, wait.queues)

/-- Waits have other cookies, timers or deadlines. -/
structure Relabels (server server' : Server) : Prop where
  cores : ∀ t, (server'.thread t).wait.map ThreadWait.core =
    (server.thread t).wait.map ThreadWait.core
  object : server'.object = server.object
  queue : server'.queue = server.queue
  nextWait : server'.nextWait = server.nextWait

theorem Relabels.wellFormed (relabels : Relabels server server') (wellFormed : WellFormed server) :
    WellFormed server' := by
  have old : ∀ t, ∀ wait ∈ (server'.thread t).wait,
      ∃ before ∈ (server.thread t).wait, before.core = wait.core := by
    intro t wait member
    have found := mem_map_of_mem (f := ThreadWait.core) member
    rw [relabels.cores t] at found
    exact mem_map.mp found
  refine ⟨fun t wait member o inside => ?_, fun t => ?_, fun t wait member => ?_, fun o => ?_⟩
  · rcases old t wait member with ⟨before, was, same⟩
    have sameId : before.id = wait.id := congrArg Prod.fst same
    have sameObjects : before.queues = wait.queues := congrArg (fun core => core.2.2) same
    rw [relabels.queue, ← sameId]
    apply wellFormed.entered t before was
    rw [ThreadWait.objects, sameObjects]
    exact inside
  · have ids := congrArg (map Prod.fst) (relabels.cores t)
    rw [map_map, map_map] at ids
    exact ids ▸ wellFormed.ids t
  · rcases old t wait member with ⟨before, was, same⟩
    have sameId : before.id = wait.id := congrArg Prod.fst same
    rw [relabels.nextWait, ← sameId]
    exact wellFormed.fresh t before was
  · rw [relabels.object, relabels.queue]
    exact wellFormed.room o

/-- A thread that is not resumed stays quiet. -/
theorem Relabels.quiet (relabels : Relabels server server')
    (running : suspended server' t = false → suspended server t = false)
    (quiet : Quiet allowed server t) : Quiet allowed server' t := by
  intro wait rest current notSuspended ready
  have cores := relabels.cores t
  rw [current] at cores
  rcases was : (server.thread t).wait with _ | ⟨before, older⟩
  · rw [was] at cores
    cases cores
  · rw [was, map_cons, map_cons, cons.injEq] at cores
    have op : wait.select = before.select := congrArg (fun core => core.2.1) cores.1
    have queues : wait.queues = before.queues := congrArg (fun core => core.2.2) cores.1
    refine quiet before older was (running notSuspended) ?_
    rw [relabels.object] at ready
    simpa only [Ready, op, ThreadWait.objects, queues] using ready

theorem Relabels.inv (relabels : Relabels server server')
    (running : ∀ t, suspended server' t = false → suspended server t = false) (inv : Inv server) :
    Inv server' :=
  ⟨relabels.wellFormed inv.wellFormed, fun t => relabels.quiet (running t) (inv.calm t)⟩

/-- A thread is changed, but not the objects that it waits for. -/
theorem relabels_modifyThread {change : Thread → Thread}
    (cores : (change (server.thread t)).wait.map ThreadWait.core =
      (server.thread t).wait.map ThreadWait.core) :
    Relabels server (server.modifyThread t change) := by
  refine ⟨fun u => ?_, rfl, rfl, rfl⟩
  rcases eq_or_ne u t with rfl | other
  · rw [thread_modifyThread_self]
    exact cores
  · rw [thread_modifyThread_of_ne _ other]

/-- The waits of a thread and the objects are as before. -/
theorem relabels_of_eq (wait : ∀ t, (server'.thread t).wait = (server.thread t).wait)
    (object : server'.object = server.object) (queue : server'.queue = server.queue)
    (nextWait : server'.nextWait = server.nextWait) :
    Relabels server server' :=
  ⟨fun t => by rw [wait t], object, queue, nextWait⟩

theorem suspended_modifyThread_of_ne (other : u ≠ t) (change : Thread → Thread) :
    suspended (server.modifyThread t change) u = suspended server u := by
  simp [suspended, modifyThread, other]

theorem Inv.modifyThread (inv : Inv server) {change : Thread → Thread}
    (cores : (change (server.thread t)).wait.map ThreadWait.core =
      (server.thread t).wait.map ThreadWait.core)
    (running : suspended (server.modifyThread t change) t = false → suspended server t = false) :
    Inv (server.modifyThread t change) := by
  refine (relabels_modifyThread cores).inv (fun u => ?_) inv
  rcases eq_or_ne u t with rfl | other
  · exact running
  · rw [suspended_modifyThread_of_ne other]
    exact id

/-! ## Waking one thread -/

theorem Inv.wakeThread (wellFormed : WellFormed server)
    (calm : ∀ u, u ≠ t → Quiet (fun _ => True) server u) :
    Inv (wakeThread server t).1 := by
  have woken := wakeThread_woken wellFormed t
  exact .of_thread woken.wellFormed (fun u other => woken.quiet (calm u other))
    (quiet_of_settled woken.settled)

theorem Inv.suspendThread (inv : Inv server) (t : ThreadId) : Inv (suspendThread server t) := by
  rw [Waits.suspendThread]
  split_ifs
  swap
  · exact inv
  exact inv.modifyThread rfl fun running => by simp [suspended] at running

theorem Inv.resumeThread (inv : Inv server) (t : ThreadId) : Inv (resumeThread server t) := by
  rw [Waits.resumeThread]
  by_cases held : 0 < (server.thread t).suspend
  swap
  · rw [if_neg held]
    exact inv
  rw [if_pos held]
  have relabels : Relabels server (server.modifyThread t fun thread =>
      { thread with suspend := thread.suspend - 1 }) :=
    relabels_modifyThread rfl
  have others : ∀ u, u ≠ t → Quiet (fun _ => True) (server.modifyThread t fun thread =>
        { thread with suspend := thread.suspend - 1 }) u := by
    intro u other
    apply relabels.quiet _ (inv.calm u)
    rw [suspended_modifyThread_of_ne other]
    exact id
  have wellFormed := relabels.wellFormed inv.wellFormed
  dsimp only
  split_ifs with still
  · refine .of_thread wellFormed others fun wait rest _ running => ?_
    rw [still] at running
    cases running
  · exact Inv.wakeThread wellFormed others

/-- A wait ends without taking anything. -/
theorem Ends.quits {wait : ThreadWait} (ends : Ends t wait [] server server')
    (wellFormed : WellFormed server) :
    WellFormed server' ∧ Drains server server' := by
  have within : ([] : List ObjectId) ⊆ wait.objects := nil_subset _
  exact ⟨ends.wellFormed wellFormed within, ends.drains wellFormed within
    fun _ member => (not_mem_nil member).elim⟩

section

variable (inv : Inv server)
include inv

theorem Inv.threadTimeout (t : ThreadId) (id : Nat) : Inv (threadTimeout server t id) := by
  have stopped : Inv (server.modifyThread t fun thread =>
      { thread with
        wait := thread.wait.map fun wait =>
          if wait.id = id then { wait with user := false } else wait }) := by
    refine inv.modifyThread ?_ fun running => ?_
    · rw [map_map]
      apply map_congr_left
      intro wait _
      simp only [Function.comp_apply]
      split_ifs <;> rfl
    · simpa [suspended, Server.modifyThread] using running
  rw [Waits.threadTimeout]
  split
  · exact stopped
  next wait rest current =>
  split_ifs
  · exact stopped
  · exact stopped
  · have ends := finishWait_ends current statusTimeout
    rw [takenObjects_of_le (by decide)] at ends
    rcases ends.quits stopped.wellFormed with ⟨wellFormed, drains⟩
    refine Inv.wakeThread wellFormed fun u other => ?_
    exact (stopped.calm u).drains drains (ends.others u other)

/-! ## Events and mutexes -/

theorem Inv.resetEvent (obj : ObjectId) : Inv (resetEvent server obj) := by
  rw [Waits.resetEvent]
  split
  swap
  · exact inv
  next event is =>
  have replaces := replaces_setEvent server obj
    { event with signaled := false }
  refine (replaces.signals_of_weaker_object inv.wellFormed
    (fun t _ => inv.calm t) fun t sig => ?_).inv
  rw [object_setObject_self] at sig
  cases sig

omit inv in
/-- Nobody is woken by an event that is not signaled. -/
theorem quiet_of_lowered {event : Event} (quiet : Quiet (· ≠ obj) server t) :
    Quiet (fun _ => True) (server.setObject obj (.event { event with signaled := false })) t := by
  intro wait rest current running ready
  refine quiet wait rest current running (ready.mono fun o _ holds => ?_)
  rcases eq_or_ne o obj with rfl | other
  · rw [object_setObject_self] at holds
    cases holds.2
  · rw [object_setObject_of_ne _ other] at holds
    exact ⟨other, holds.2⟩

/-- A pulse leaves the event unsignaled, so it is no matter who was woken. -/
theorem Inv.pulseEvent (obj : ObjectId) : Inv (pulseEvent server obj) := by
  rw [Waits.pulseEvent]
  split
  swap
  · exact inv
  next event is =>
  have raised := replaces_setEvent server obj { event with signaled := true }
  have wellFormed := raised.wellFormed inv.wellFormed
  have woken := (wakeUp_drains wellFormed obj (if event.manualReset then 0 else 1)).1
  refine ⟨(replaces_setEvent _ obj _).wellFormed woken, fun t => ?_⟩
  exact quiet_of_lowered (wakeUp_quiet wellFormed (raised.quiet (inv.calm t)) obj _)

theorem Inv.abandonMutexes (t : ThreadId) : Inv (abandonMutexes server t) := by
  rw [Waits.abandonMutexes]
  generalize (server.thread t).mutexList.length = fuel
  induction fuel generalizing server with
  | zero => exact inv
  | succ fuel ih =>
    rw [abandonLoop]
    split
    · exact inv
    next obj _ _ =>
    split
    · next mutex is =>
        have room := inv.wellFormed.room obj
        rw [is] at room
        apply ih
        refine (doRelease_signals inv.wellFormed (fun t _ => inv.calm t) ?_).inv
        simp only [Object.Room] at room ⊢
        bv_omega
    · exact inv

omit inv in
/-- A dying thread leaves its waits without taking anything. -/
theorem endWaits_spec (wellFormed : WellFormed server) {fuel : Nat}
    (enough : (server.thread t).wait.length ≤ fuel) :
    WellFormed (endWaits t fuel server) ∧ Drains server (endWaits t fuel server) ∧
      (∀ u, u ≠ t → ((endWaits t fuel server).thread u).wait = (server.thread u).wait) ∧
      ((endWaits t fuel server).thread t).wait = [] := by
  induction fuel generalizing server with
  | zero =>
    exact ⟨wellFormed, .refl server, fun _ _ => rfl,
      eq_nil_of_length_eq_zero (Nat.le_zero.mp enough)⟩
  | succ fuel ih =>
    rw [endWaits]
    rcases current : (server.thread t).wait with _ | ⟨wait, rest⟩
    · have still : (endWait server t statusThreadIsTerminating).1 =
          server := by rw [endWait, current]
      rw [still]
      exact ih wellFormed (by rw [current]; exact Nat.zero_le _)
    · have ends := endWait_ends current statusThreadIsTerminating
      rw [takenObjects_of_le (by decide)] at ends
      rcases ends.quits wellFormed with ⟨wellFormed', drains⟩
      have popped := ends.popped
      rw [popped, length_cons] at enough
      rcases ih wellFormed' (Nat.le_of_succ_le_succ enough) with ⟨after, later, others, empty⟩
      exact ⟨after, drains.trans later,
        fun u other => (others u other).trans (ends.others u other), empty⟩

theorem Inv.endWaits (t : ThreadId) : Inv (endWaits t (server.thread t).wait.length server) := by
  rcases endWaits_spec inv.wellFormed le_rfl with ⟨wellFormed, drains, others, empty⟩
  exact .of_thread wellFormed (fun u other => (inv.calm u).drains drains (others u other))
    (quiet_of_wait_nil empty)

theorem Inv.sendThreadWakeup (t : ThreadId) (cookie status : Nat) :
    Inv (sendThreadWakeup server t cookie status) := by
  have relabels : Relabels server (Waits.sendThreadWakeup server t cookie status) :=
    relabels_of_eq (fun _ => rfl) rfl rfl rfl
  exact relabels.inv (fun _ => id) inv

theorem Inv.killThread (t : ThreadId) (exitCode : Nat) : Inv (killThread server t exitCode) := by
  rw [Waits.killThread]
  split_ifs with dead
  · exact inv
  apply Inv.abandonMutexes
  have marked : Inv (server.modifyThread t fun thread =>
      { thread with terminated := true }) :=
    inv.modifyThread rfl fun running => by simpa [suspended, Server.modifyThread] using running
  split_ifs
  · exact (marked.endWaits t).sendThreadWakeup t 0 exitCode
  · exact marked

end

/-! ## Select -/

section WaitOn

/-- The wait that `wait_on` makes. -/
def newWait (server : Server) (op : SelectOp) (queues : WaitObjects) (when : Int) : ThreadWait :=
  { id := server.nextWait
    select := op
    queues := queues
    when := when
    cookie := 0
    user := false }

theorem wait_waitOn_self : ((waitOn server t op queues when).thread t).wait =
      newWait server op queues when :: (server.thread t).wait := by
  simp [waitOn, newWait, modifyThread]

theorem wait_waitOn_of_ne (other : u ≠ t) :
    ((waitOn server t op queues when).thread u).wait = (server.thread u).wait := by
  simp [waitOn, modifyThread, other]

theorem mem_wait_waitOn {wait : ThreadWait}
    (member : wait ∈ ((waitOn server t op queues when).thread u).wait) :
    wait ∈ (server.thread u).wait ∨ u = t ∧ wait = newWait server op queues when := by
  rcases eq_or_ne u t with rfl | other
  · rw [wait_waitOn_self, mem_cons] at member
    exact member.symm.imp_right fun new => ⟨rfl, new⟩
  · rw [wait_waitOn_of_ne other] at member
    exact .inl member

theorem suspended_waitOn (u : ThreadId) :
    suspended (waitOn server t op queues when) u = suspended server u := by
  rcases eq_or_ne u t with rfl | other
  · simp [suspended, waitOn, modifyThread]
  · simp [suspended, waitOn, modifyThread, other]

theorem mem_queue_waitOn {entry : QueueEntry} {o : ObjectId} (member : entry ∈ server.queue o) :
    entry ∈ (waitOn server t op queues when).queue o := by
  simp only [waitOn]
  split_ifs
  · exact mem_append_left _ member
  · exact member

theorem waitOn_wellFormed (wellFormed : WellFormed server)
    (room : ∀ o ∈ queues.objects, (server.object o).Room ((server.queue o).length + 1)) :
    WellFormed (waitOn server t op queues when) := by
  refine ⟨fun u wait member o inside => ?_, fun u => ?_, fun u wait member => ?_, fun o => ?_⟩
  · rcases mem_wait_waitOn member with old | ⟨rfl, rfl⟩
    · exact mem_queue_waitOn (wellFormed.entered u wait old o inside)
    · have listed : o ∈ queues.objects := inside
      simp only [waitOn, if_pos listed]
      exact mem_append_right _ (mem_singleton_self _)
  · rcases eq_or_ne u t with rfl | other
    · rw [wait_waitOn_self, map_cons, nodup_cons]
      refine ⟨fun repeated => ?_, wellFormed.ids u⟩
      rcases mem_map.mp repeated with ⟨old, member, same⟩
      exact (wellFormed.fresh u old member).ne same
    · rw [wait_waitOn_of_ne other]
      exact wellFormed.ids u
  · rcases mem_wait_waitOn member with old | ⟨_, rfl⟩
    · exact (wellFormed.fresh u wait old).trans (Nat.lt_succ_self _)
    · exact Nat.lt_succ_self _
  · simp only [waitOn]
    split_ifs with inside
    · rw [length_append]
      exact room o inside
    · exact wellFormed.room o

/-- The other threads do not notice the wait. -/
theorem waitOn_quiet (other : u ≠ t) (quiet : Quiet allowed server u) :
    Quiet allowed (waitOn server t op queues when) u := by
  intro wait rest current running
  rw [wait_waitOn_of_ne other] at current
  rw [suspended_waitOn u] at running
  exact quiet wait rest current running

end WaitOn

/-- The current wait ends; the one below it is not over. -/
theorem endWait_inv {wait : ThreadWait} {rest : List ThreadWait} (wellFormed : WellFormed server)
    (calm : ∀ u, u ≠ t → Quiet (fun _ => True) server u)
    (current : (server.thread t).wait = wait :: rest)
    (available : ∀ o ∈ takenObjects wait status, (server.object o).signaled t = true)
    (below : ∀ outer older, rest = outer :: older → suspended server t = false →
      ¬ Ready (fun o => (server.object o).signaled t = true) outer) :
    Inv (endWait server t status).1 := by
  have ends := endWait_ends current status
  have within := (takenObjects_sublist wait status).subset
  have drains := ends.drains wellFormed within available
  have popped := ends.popped
  rw [current, cons.injEq] at popped
  refine .of_thread (ends.wellFormed wellFormed within)
    (fun u other => (calm u other).drains drains (ends.others u other)) ?_
  intro outer older currentNow running ready
  rw [ends.suspended] at running
  exact below outer older (popped.2.trans currentNow) running
    (ready.mono fun o _ holds => drains.signals o t holds.2)

/--
The thread has entered a wait.  If this wait is over, the one below it, which
becomes the current wait, is not.
-/
def Nested (server : Server) (t : ThreadId) : Prop :=
  ∀ wait outer older, (server.thread t).wait = wait :: outer :: older →
    suspended server t = false → checkWait server t ≠ none →
    ¬ Ready (fun o => (server.object o).signaled t = true) outer

theorem blockOrFinish_inv (wellFormed : WellFormed server)
    (calm : ∀ u, u ≠ t → Quiet (fun _ => True) server u) (nested : Nested server t) (cookie : Nat) :
    Inv (blockOrFinish server t cookie).1 := by
  rw [blockOrFinish]
  split
  · next status checks =>
      rcases checkWait_cases checks with ⟨wait, rest, current, _⟩
      refine endWait_inv wellFormed calm current
        (available_of_checkWait current checks) fun outer older is running => ?_
      refine nested wait outer older (is ▸ current) running ?_
      rw [checks]
      exact Option.some_ne_none status
  · next settled =>
      have before : Inv server := .of_thread wellFormed calm (quiet_of_settled settled)
      dsimp only
      refine before.modifyThread ?_ fun running => ?_
      · cases (server.thread t).wait <;> rfl
      · simpa [suspended, modifyThread] using running

section Entering

/-- The wait below the new one is not over: it was not before. -/
theorem waitOn_nested (inv : Inv server) : Nested (waitOn server t op queues when) t := by
  intro wait outer older current running _
  rw [wait_waitOn_self, cons.injEq] at current
  rw [suspended_waitOn] at running
  exact inv.not_ready current.2 running

theorem Inv.waitOn_blockOrFinish (inv : Inv server)
    (room : ∀ o ∈ queues.objects, (server.object o).Room ((server.queue o).length + 1))
    (cookie : Nat) :
    Inv (blockOrFinish (waitOn server t op queues when) t cookie).1 :=
  blockOrFinish_inv (waitOn_wellFormed inv.wellFormed room)
    (fun u other => waitOn_quiet other (inv.calm u))
    (waitOn_nested inv) cookie

/-- A signal reaches the wait below the new one only through the queue. -/
theorem Signals.nested (inv : Inv server)
    (signals : Signals obj (fun u => u = t) (waitOn server t op queues when) server') :
    Nested server' t := by
  intro wait outer older current running met ready
  have same := (signals.touched t).resolve_right met
  have entered := current
  rw [same, wait_waitOn_self, cons.injEq] at entered
  rw [signals.suspended, suspended_waitOn] at running
  refine inv.not_ready entered.2 running (ready.mono fun o inside holds => ?_)
  rcases signals.dealt t rfl with weaker | scanned
  · exact weaker o holds
  · refine signals.signals o t (fun is => met (scanned ⟨outer, ?_, ?_⟩)) holds
    · rw [← same, current]
      exact mem_cons_of_mem _ mem_cons_self
    · exact is ▸ inside

/-- What is asked of the signaled object is asked before the wait begins. -/
theorem fair_waitOn
    (fair : Dormant server obj → Punctual server obj ∧ ∀ entry ∈ server.queue obj, entry.thread ≠ t)
    (apart : obj ∉ queues.objects) (dormant : Dormant (waitOn server t op queues when) obj) :
    Punctual (waitOn server t op queues when) obj ∧
      ∀ entry ∈ (waitOn server t op queues when).queue obj, entry.thread ≠ t := by
  rcases fair dormant with ⟨punctual, others⟩
  have queue : (waitOn server t op queues when).queue obj = server.queue obj := by
    simp only [waitOn, if_neg apart]
  rw [queue]
  refine ⟨fun entry member wait rest current running => ?_, others⟩
  rw [queue] at member
  rw [wait_waitOn_of_ne (others entry member)] at current
  rw [suspended_waitOn] at running
  exact punctual entry member wait rest current running

end Entering

variable {access : Bool}

/-- The errors of `signal_object` do not stand for objects of the wait. -/
theorem maximumWaitObjects_le_of_signalObject
    (fails : signalObject server t obj access = .error status) :
    maximumWaitObjects ≤ status := by
  simp only [signalObject, releaseSemaphoreObject, releaseMutex] at fails
  split at fails
  · cases fails
    decide
  · split at fails
    · cases fails
    · split at fails
      · split at fails <;> cases fails
        decide
      · cases fails
        decide
    · split at fails
      · split at fails
        · cases fails
          decide
        · split at fails <;> cases fails
      · cases fails
        decide

theorem signalObject_signals {exempt : ThreadId → Prop} (wellFormed : WellFormed server)
    (calm : ∀ u, ¬ exempt u → Quiet (fun _ => True) server u)
    (fair : Dormant server obj → Punctual server obj ∧
      ∀ entry ∈ server.queue obj, ¬ exempt entry.thread)
    (signaled : signalObject server t obj access = .ok server') :
    Signals obj exempt server server' := by
  rw [signalObject] at signaled
  split at signaled
  · cases signaled
  · split at signaled
    · cases signaled
      exact setEvent_signals wellFormed calm fair
    · exact releaseSemaphoreObject_signals wellFormed calm (fun dormant _ => fair dormant) signaled
    · exact releaseMutex_signals wellFormed calm signaled

theorem Inv.selectHandles {op : SelectOp} {objects : List ObjectId} {when : Int} (inv : Inv server)
    (distinct : objects.Nodup)
    (room : ∀ o ∈ objects, (server.object o).Room ((server.queue o).length + 1)) (cookie : Nat) :
    Inv (selectHandles server t op objects distinct cookie when).1 := by
  rw [Waits.selectHandles]
  split_ifs
  · exact inv.waitOn_blockOrFinish room cookie
  · exact inv

/-- Signaling one object and waiting for another. -/
theorem Inv.signalAndWait {wait : ObjectId} {when : Int} {cookie : Nat} (inv : Inv server)
    (distinct : some obj ≠ some wait)
    (room : (server.object wait).Room ((server.queue wait).length + 1))
    (fair : Dormant server obj → Punctual server obj ∧
      ∀ entry ∈ server.queue obj, entry.thread ≠ t) :
    Inv (selectOn server t (.signalAndWait wait (some obj) access distinct) cookie when).1 := by
  have apart : obj ∉ (oneObject wait).objects := fun member =>
    distinct (congrArg some (mem_singleton.mp member))
  have wellFormed : WellFormed (waitOn server t .signalAndWait (oneObject wait) when) := by
    refine waitOn_wellFormed inv.wellFormed fun o member => ?_
    rw [mem_singleton.mp member]
    exact room
  have calm : ∀ u, u ≠ t → Quiet (fun _ => True)
      (waitOn server t .signalAndWait (oneObject wait) when) u :=
    fun u other => waitOn_quiet other (inv.calm u)
  simp only [selectOn]
  split
  · next status fails =>
      refine endWait_inv wellFormed calm wait_waitOn_self ?_ fun outer older current running => ?_
      · rw [takenObjects_of_le (maximumWaitObjects_le_of_signalObject fails)]
        exact fun o member => (not_mem_nil member).elim
      · rw [suspended_waitOn] at running
        exact inv.not_ready current running
  · next later signaled =>
      have signals := signalObject_signals wellFormed calm (fair_waitOn fair apart) signaled
      split_ifs with finished
      · exact .of_thread signals.wellFormed signals.quiet (quiet_of_wait_nil finished)
      · exact blockOrFinish_inv signals.wellFormed signals.quiet (signals.nested inv) cookie

/-! ## Runs -/

/-- The objects that a select waits for. -/
def Select.waits : Select → List ObjectId
  | .wait objects _ => objects
  | .waitAll objects _ => objects
  | .signalAndWait obj _ _ _ => [obj]

/-- The object that a select signals. -/
def Select.signal : Select → Option ObjectId
  | .signalAndWait _ signal _ _ => signal
  | _ => none

/--
When the request cannot cause a missed wakeup.  A signal to an automatic event
or a semaphore that was not signaled finds no thread whose deadline has
passed in the queue, unless its wait takes the object, and, if it is a part of a
select, not the selecting thread itself.  The recursion count of a mutex that is waited for does not
wrap around.
-/
def WakeSafe (server : Server) : Request → Prop
  | .select t select _ _ =>
    (∀ o ∈ select.waits, (server.object o).Room ((server.queue o).length + 1)) ∧
    ∀ obj ∈ select.signal, Dormant server obj →
      Punctual server obj ∧ ∀ entry ∈ server.queue obj, entry.thread ≠ t
  | .setEvent obj => Dormant server obj → Punctual server obj
  | .releaseSemaphore obj count => Dormant server obj → count ≠ 0 → Punctual server obj
  | _ => True

theorem Inv.selectOn (inv : Inv server) {select : Select} (room : ∀ o ∈ select.waits,
      (server.object o).Room ((server.queue o).length + 1))
    (fair : ∀ obj ∈ select.signal, Dormant server obj →
      Punctual server obj ∧ ∀ entry ∈ server.queue obj, entry.thread ≠ t)
    (cookie : Nat) (when : Int) :
    Inv (selectOn server t select cookie when).1 := by
  cases select with
  | wait objects distinct => exact inv.selectHandles distinct room cookie
  | waitAll objects distinct => exact inv.selectHandles distinct room cookie
  | signalAndWait wait signal access distinct =>
    cases signal with
    | none => exact inv.waitOn_blockOrFinish room cookie
    | some obj => exact inv.signalAndWait distinct (room wait (mem_singleton_self _)) (fair obj rfl)

/-- One request keeps the invariant. -/
theorem Inv.step (inv : Inv server) (request : Request) (safe : WakeSafe server request) :
    Inv (step server request) := by
  have calm : ∀ t, ¬ False → Quiet (fun _ => True) server t := fun t _ => inv.calm t
  cases request with
  | select t select cookie when =>
    rw [Waits.step]
    split_ifs
    · exact inv
    · exact inv.selectOn safe.1 safe.2 cookie when
  | setEvent obj =>
    exact (setEvent_signals inv.wellFormed calm fun dormant => ⟨safe dormant, fun _ _ => id⟩).inv
  | resetEvent obj => exact inv.resetEvent obj
  | pulseEvent obj => exact inv.pulseEvent obj
  | releaseSemaphore obj count =>
    rw [Waits.step]
    split
    · next later released =>
        exact (releaseSemaphoreObject_signals inv.wellFormed calm
          (fun dormant some => ⟨safe dormant some, fun _ _ => id⟩)
          released).inv
    · exact inv
  | releaseMutex t obj =>
    rw [Waits.step]
    split_ifs
    · exact inv
    · split
      · next later released => exact (releaseMutex_signals inv.wellFormed calm released).inv
      · exact inv
  | killThread t exitCode => exact inv.killThread t exitCode
  | suspendThread t =>
    rw [Waits.step]
    split_ifs
    · exact inv
    · exact inv.suspendThread t
  | resumeThread t => exact inv.resumeThread t
  | timeout t id =>
    rw [Waits.step]
    split_ifs
    · exact inv.threadTimeout t id
    · exact inv
  | setTime currentTime monotonicTime =>
    have relabels : Relabels server (Waits.step server (.setTime currentTime monotonicTime)) :=
      relabels_of_eq (fun _ => rfl) rfl rfl rfl
    exact relabels.inv (fun _ => id) inv

/-- No thread waits yet. -/
structure Idle (server : Server) : Prop where
  wait : ∀ t, (server.thread t).wait = []
  queue : ∀ o, server.queue o = []

theorem Idle.inv (idle : Idle server) : Inv server := by
  refine ⟨⟨fun t wait member => ?_, fun t => ?_, fun t wait member => ?_,
    fun o => ?_⟩, fun t => quiet_of_wait_nil (idle.wait t)⟩
  · rw [idle.wait] at member
    exact (not_mem_nil member).elim
  · rw [idle.wait]
    exact nodup_nil
  · rw [idle.wait] at member
    exact (not_mem_nil member).elim
  · rw [idle.queue]
    cases server.object o with
    | mutex mutex => exact mutex.count.isLt
    | event event => trivial
    | semaphore sem => trivial

/--
In a run in which every request is safe, no thread ever misses a wakeup: after
each request, a thread that is blocked, not suspended and within its deadline
has a current wait that is not over.
-/
theorem noMissedWakeup_of_wakeSafe (server : Server) (idle : Idle server) (requests : List Request)
    (safe : Along step WakeSafe server requests) :
    Visits step NoMissedWakeup server requests :=
  (safe.visits (fun _ request inv here => inv.step request here)
    idle.inv).mono fun _ => Inv.noMissedWakeup

end Steps

/-- Threads that do nothing, and automatic events that are not signaled. -/
def automaticEvents : Server where
  thread _ :=
    { process := 0, wait := [], suspend := 0, mutexList := [],
      terminated := false }
  object _ := .event { manualReset := false, signaled := false }
  queue _ := []
  processSuspend _ := 0
  currentTime := 1
  monotonicTime := 1
  nextWait := 0
  wakeups := []

/--
The first thread waits for both events until time ten, the second one for the
first event without a deadline.
-/
def latecomers : List Request := [.select 1 (.waitAll [0, 1] (by decide)) 5 10,
    .select 2 (.wait [0] (by decide)) 6 timeoutInfinite]

theorem noMissedWakeup_of_wakeSafe_latecomers :
    Idle automaticEvents ∧ Along step WakeSafe automaticEvents (latecomers ++ [.setEvent 0]) ∧
      Visits step NoMissedWakeup automaticEvents (latecomers ++ [.setEvent 0]) := by
  have idle : Idle automaticEvents := ⟨fun _ => rfl, fun _ => rfl⟩
  have safe : Along step WakeSafe automaticEvents (latecomers ++ [.setEvent 0]) := by
    refine ⟨⟨fun _ _ => trivial, fun _ signal => ?_⟩,
      ⟨fun _ _ => trivial, fun _ signal => ?_⟩, ?_, trivial⟩
    · cases signal
    · cases signal
    · have punctual : Punctual (Library.Runs.run step automaticEvents latecomers) 0 := by decide
      exact fun _ => punctual
  exact ⟨idle, safe, noMissedWakeup_of_wakeSafe _ idle _ safe⟩

/--
When the deadline of the first thread has passed, the event wakes this thread
and nobody else: the event stays signaled while the second thread waits.
-/
theorem setEvent_misses_wakeup : Idle automaticEvents ∧ ¬ Visits step NoMissedWakeup automaticEvents
        (latecomers ++ [.setTime 10 10, .setEvent 0]) := by
  refine ⟨⟨fun _ => rfl, fun _ => rfl⟩, fun visits => ?_⟩
  have final := visits.2.2.2.2
  have missed := final 2 _ _ rfl (by decide) (by decide)
  revert missed
  decide

end WineRedRose.Waits
