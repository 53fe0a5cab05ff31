import WineRedRose.Sync.Semaphore

/-!
# Waits in the wineserver

Threads that wait, and the events, semaphores and mutexes that they wait for,
as `server/thread.c`, `server/event.c`, `server/semaphore.c` and
`server/mutex.c` handle them.  A thread has a stack of waits: a signal handler
can start another wait while the thread is blocked in one, and only the top of
the stack is the current wait.  Every object has a queue of the waits on it.

Objects are those of the server itself: with esync or fsync the waits do not
come here.  There are no asynchronous procedure calls, and every wakeup
message reaches its client.
-/

namespace WineRedRose.Waits

open Sync

abbrev ThreadId := Nat

abbrev ObjectId := Nat

abbrev ProcessId := Nat

/-! ## Status codes -/

def statusWait0 : Nat := 0x0

def statusAbandonedWait0 : Nat := 0x80

def statusTimeout : Nat := 0x102

def statusPending : Nat := 0x103

def statusInvalidParameter : Nat := 0xc000000d

def statusAccessDenied : Nat := 0xc0000022

def statusObjectTypeMismatch : Nat := 0xc0000024

def statusMutantNotOwned : Nat := 0xc0000046

def statusSemaphoreLimitExceeded : Nat := 0xc0000047

def statusThreadIsTerminating : Nat := 0xc000004b

def maximumWaitObjects : Nat := 64

def maximumSuspendCount : Nat := 127

def timeoutInfinite : Int := 0x7fffffffffffffff

/-! ## Objects and threads -/

structure Event where
  manualReset : Bool
  signaled : Bool
deriving DecidableEq, Repr

structure Mutex where
  count : BitVec 32
  owner : Option ThreadId
  abandoned : Bool
deriving DecidableEq, Repr

inductive Object where
  | event (event : Event)
  | semaphore (sem : Semaphore)
  | mutex (mutex : Mutex)
deriving DecidableEq, Repr

inductive SelectOp where
  | wait
  | waitAll
  | signalAndWait
deriving DecidableEq, Repr

/-- The objects of one wait. -/
structure WaitObjects where
  objects : List ObjectId
  distinct : objects.Nodup
  few : objects.length ≤ maximumWaitObjects
deriving DecidableEq, Repr

/-- The fields of `struct thread_wait`; the number stands for its address. -/
structure ThreadWait where
  id : Nat
  select : SelectOp
  queues : WaitObjects
  when : Int
  cookie : Nat
  /-- A timer is set for the wait. -/
  user : Bool
deriving DecidableEq, Repr

def ThreadWait.objects (wait : ThreadWait) : List ObjectId := wait.queues.objects

structure Thread where
  process : ProcessId
  /-- The current wait comes first. -/
  wait : List ThreadWait
  suspend : Nat
  /-- The mutexes that the thread owns, the latest one first. -/
  mutexList : List ObjectId
  terminated : Bool
deriving DecidableEq, Repr

/-- An entry of a wait queue belongs to one wait of one thread. -/
structure QueueEntry where
  thread : ThreadId
  wait : Nat
deriving DecidableEq, Repr

/-- A wakeup message to a client. -/
structure Wakeup where
  thread : ThreadId
  cookie : Nat
  signaled : Nat
deriving DecidableEq, Repr

structure Server where
  thread : ThreadId → Thread
  object : ObjectId → Object
  queue : ObjectId → List QueueEntry
  processSuspend : ProcessId → Nat
  currentTime : Int
  monotonicTime : Int
  nextWait : Nat
  /-- The messages sent, the latest one first. -/
  wakeups : List Wakeup

def Server.setObject (server : Server) (obj : ObjectId) (object : Object) :
    Server :=
  { server with object := Function.update server.object obj object }

def Server.modifyThread (server : Server) (t : ThreadId) (change : Thread → Thread) : Server :=
  { server with
    thread := Function.update server.thread t (change (server.thread t)) }

/-! ## Operations of the objects -/

/-- `event_signaled`, `semaphore_signaled` and `mutex_signaled`. -/
def Object.signaled (t : ThreadId) : Object → Bool
  | .event e => e.signaled
  | .semaphore sem => semaphoreSignaled sem
  | .mutex m => m.count = 0 || m.owner = some t

section

variable (server : Server) (obj : ObjectId) (mutex : Mutex)

def signaled (t : ThreadId) : Bool := (server.object obj).signaled t

/-- `do_grab`; the first grab makes the thread the owner. -/
def doGrab (t : ThreadId) : Server :=
  if mutex.count = 0 then
    (server.setObject obj (.mutex { mutex with count := mutex.count + 1, owner := some t }))
      |>.modifyThread t fun thread =>
        { thread with mutexList := obj :: thread.mutexList }
  else server.setObject obj (.mutex { mutex with count := mutex.count + 1 })

/--
`event_satisfied`, `semaphore_satisfied` and `mutex_satisfied`.  The result
says whether the wait gets a mutex that was abandoned.
-/
def satisfied (t : ThreadId) : Server × Bool :=
  match server.object obj with
  | .event event =>
    (if event.manualReset then server
      else server.setObject obj (.event { event with signaled := false }),
      false)
  | .semaphore sem => (server.setObject obj (.semaphore (semaphoreSatisfied sem)), false)
  | .mutex mutex => (doGrab server obj { mutex with abandoned := false } t, mutex.abandoned)

end

/-- The loop of `end_wait` that tells the objects. -/
def satisfyAll (t : ThreadId) : List ObjectId → Server → Server × Bool
  | [], server => (server, false)
  | obj :: objects, server =>
    let (server, abandoned) := satisfied server obj t
    let (server, others) := satisfyAll t objects server
    (server, abandoned || others)

/-! ## Waiting -/

section

variable (server : Server) (t : ThreadId) (wait : ThreadWait)

def suspended : Bool :=
  let thread := server.thread t
  0 < server.processSuspend thread.process + thread.suspend

/-- The deadline of a wait has passed. -/
def expired (server : Server) (wait : ThreadWait) : Bool :=
  0 ≤ wait.when ∧ wait.when ≤ server.currentTime ∨ wait.when < 0 ∧ -wait.when ≤ server.monotonicTime

/-- The part of `check_wait` that asks the objects. -/
def signaledStatus : Option Nat :=
  match wait.select with
  | .waitAll =>
    if wait.objects.all fun obj => signaled server obj t then some statusWait0
    else none
  | _ => wait.objects.findIdx? fun obj => signaled server obj t

/-- `check_wait`; `none` is the `-1` of the source. -/
def checkWait : Option Nat :=
  match (server.thread t).wait with
  | [] => none
  | wait :: _ =>
    if suspended server t then none
    else
      match signaledStatus server t wait with
      | some status => some status
      | none => if expired server wait then some statusTimeout else none

/-- Take the entries of a wait out of the queues of its objects. -/
def removeQueues : Server :=
  { server with
    queue := fun obj =>
      if obj ∈ wait.objects then (server.queue obj).filter (· ≠ ⟨t, wait.id⟩)
      else server.queue obj }

/-- The objects that a finished wait takes. -/
def takenObjects (wait : ThreadWait) (status : Nat) : List ObjectId :=
  if status < wait.objects.length then
    match wait.select with
    | .waitAll => wait.objects
    | _ => wait.objects[status]?.toList
  else []

/-- `end_wait` and the status for the client. -/
def endWait (status : Nat) : Server × Nat :=
  match (server.thread t).wait with
  | [] => (server, status)
  | wait :: rest =>
    let server := server.modifyThread t fun thread =>
      { thread with wait := rest }
    let (server, abandoned) := satisfyAll t (takenObjects wait status) server
    (removeQueues server t wait, if abandoned then status + statusAbandonedWait0 else status)

/-- `send_thread_wakeup`, to a client that is there. -/
def sendThreadWakeup (cookie status : Nat) : Server :=
  { server with wakeups := ⟨t, cookie, status⟩ :: server.wakeups }

/-- The cookie of the current wait. -/
def currentCookie : Nat := ((server.thread t).wait.head?.map ThreadWait.cookie).getD 0

/-- Finish the current wait and send the message. -/
def finishWait (status : Nat) : Server :=
  let cookie := currentCookie server t
  let (server, status) := endWait server t status
  if cookie ≠ 0 then sendThreadWakeup server t cookie status else server

/-- The loop of `wake_thread`; it ends a wait in every round. -/
def wakeLoop : Nat → Server → ThreadId → Server × Nat
  | 0, server, _ => (server, 0)
  | fuel + 1, server, t =>
    match checkWait server t with
    | none => (server, 0)
    | some status =>
      let (server, count) := wakeLoop fuel (finishWait server t status) t
      (server, count + 1)

def wakeThread : Server × Nat := wakeLoop (server.thread t).wait.length server t

/-- Go through a queue up to the first thread that wakes up. -/
def wakeFirst (server : Server) : List QueueEntry → Option Server
  | [] => none
  | entry :: entries =>
    match wakeThread server entry.thread with
    | (server, 0) => wakeFirst server entries
    | (server, _ + 1) => some server

/-- The loop of `wake_up`, which starts over after each thread it wakes. -/
def wakeUpLoop (obj : ObjectId) : Nat → Server → Int → Server
  | 0, server, _ => server
  | fuel + 1, server, max =>
    match wakeFirst server (server.queue obj) with
    | none => server
    | some server =>
      if max ≠ 0 ∧ max - 1 = 0 then server
      else wakeUpLoop obj fuel server (if max ≠ 0 then max - 1 else max)

/-- The waits of the threads in a queue; each wakeup ends one of them. -/
def queuedWaits (obj : ObjectId) : Nat := ((server.queue obj).map fun entry =>
    (server.thread entry.thread).wait.length).sum

/-- `wake_up`; the limit `0` stands for all threads. -/
def wakeUp (obj : ObjectId) (max : Int) : Server :=
  wakeUpLoop obj (queuedWaits server obj + 1) server max

/-- `thread_timeout`. -/
def threadTimeout (id : Nat) : Server :=
  let server := server.modifyThread t fun thread =>
    { thread with
      wait := thread.wait.map fun wait =>
        if wait.id = id then { wait with user := false } else wait }
  match (server.thread t).wait with
  | [] => server
  | wait :: _ =>
    if wait.id ≠ id then server
    else if suspended server t then server
    else (wakeThread (finishWait server t statusTimeout) t).1

end

/-! ## Signals -/

section

variable (server : Server) (obj : ObjectId) (count : BitVec 32)

def setEvent : Server :=
  match server.object obj with
  | .event event =>
    wakeUp (server.setObject obj (.event { event with signaled := true }))
      obj (if event.manualReset then 0 else 1)
  | _ => server

def pulseEvent : Server :=
  match server.object obj with
  | .event event =>
    (wakeUp (server.setObject obj (.event { event with signaled := true }))
      obj (if event.manualReset then 0 else 1)).setObject obj
        (.event { event with signaled := false })
  | _ => server

def resetEvent : Server :=
  match server.object obj with
  | .event event => server.setObject obj (.event { event with signaled := false })
  | _ => server

/-- `release_semaphore`. -/
def releaseSemaphoreObject : Except Nat Server :=
  match server.object obj with
  | .semaphore sem =>
    match releaseSemaphore sem count with
    | .error _ => .error statusSemaphoreLimitExceeded
    | .ok (sem, none) => .ok (server.setObject obj (.semaphore sem))
    | .ok (sem, some max) => .ok (wakeUp (server.setObject obj (.semaphore sem)) obj max.toInt)
  | _ => .error statusObjectTypeMismatch

/-- `do_release`, for a mutex whose count has become zero. -/
def doRelease (mutex : Mutex) : Server :=
  let server :=
    match mutex.owner with
    | some owner => server.modifyThread owner fun thread =>
      { thread with mutexList := thread.mutexList.erase obj }
    | none => server
  wakeUp (server.setObject obj (.mutex { mutex with owner := none })) obj 0

end

section

variable (server : Server) (t : ThreadId) (obj : ObjectId)

/-- `mutex_signal` and the request `release_mutex`. -/
def releaseMutex : Except Nat Server :=
  match server.object obj with
  | .mutex mutex =>
    if mutex.count = 0 ∨ mutex.owner ≠ some t then .error statusMutantNotOwned
    else
      let mutex := { mutex with count := mutex.count - 1 }
      if mutex.count = 0 then .ok (doRelease server obj mutex)
      else .ok (server.setObject obj (.mutex mutex))
  | _ => .error statusObjectTypeMismatch

/-- The loop of `abandon_mutexes`. -/
def abandonLoop (t : ThreadId) : Nat → Server → Server
  | 0, server => server
  | fuel + 1, server =>
    match (server.thread t).mutexList with
    | [] => server
    | obj :: _ =>
      match server.object obj with
      | .mutex mutex =>
        abandonLoop t fuel (doRelease server obj
            { mutex with count := 0, abandoned := true })
      | _ => server

def abandonMutexes : Server := abandonLoop t (server.thread t).mutexList.length server

/-- The loop of `kill_thread` over the waits. -/
def endWaits (t : ThreadId) : Nat → Server → Server
  | 0, server => server
  | fuel + 1, server => endWaits t fuel (endWait server t statusThreadIsTerminating).1

/-- `kill_thread`, as far as it concerns waits. -/
def killThread (exitCode : Nat) : Server :=
  if (server.thread t).terminated then server
  else
    let server := server.modifyThread t fun thread =>
      { thread with terminated := true }
    let waits := (server.thread t).wait.length
    let server :=
      if waits ≠ 0 then sendThreadWakeup (endWaits t waits server) t 0 exitCode
      else server
    abandonMutexes server t

def suspendThread : Server :=
  if (server.thread t).suspend < maximumSuspendCount then
    server.modifyThread t fun thread =>
      { thread with suspend := thread.suspend + 1 }
  else server

def resumeThread : Server :=
  if 0 < (server.thread t).suspend then
    let server := server.modifyThread t fun thread =>
      { thread with suspend := thread.suspend - 1 }
    if suspended server t then server else (wakeThread server t).1
  else server

end

/-! ## Select -/

/-- What a client selects on; the objects of a wait are distinct. -/
inductive Select where
  | wait (objects : List ObjectId) (distinct : objects.Nodup)
  | waitAll (objects : List ObjectId) (distinct : objects.Nodup)
  /-- The handle to signal may be missing; its access mask may forbid it. -/
  | signalAndWait (wait : ObjectId) (signal : Option ObjectId)
      (access : Bool) (distinct : signal ≠ some wait)
deriving DecidableEq, Repr

section

variable (server : Server) (t : ThreadId) (obj : ObjectId)

/-- `wait_on`. -/
def waitOn (select : SelectOp) (queues : WaitObjects) (when : Int) : Server :=
  let wait : ThreadWait :=
    { id := server.nextWait
      select := select
      queues := queues
      when := when
      cookie := 0
      user := false }
  { server.modifyThread t fun thread =>
      { thread with wait := wait :: thread.wait } with
    queue := fun obj =>
      if obj ∈ queues.objects then server.queue obj ++ [⟨t, wait.id⟩]
      else server.queue obj
    nextWait := server.nextWait + 1 }

/-- The end of `select_on`: the wait is over at once, or the thread blocks. -/
def blockOrFinish (cookie : Nat) : Server × Nat :=
  match checkWait server t with
  | some status => endWait server t status
  | none =>
    (server.modifyThread t fun thread =>
      { thread with
        wait := thread.wait.modifyHead fun wait =>
          { wait with
            user := wait.user || wait.when ≠ timeoutInfinite
            cookie := cookie } },
      statusPending)

/-- `signal_object`. -/
def signalObject (access : Bool) : Except Nat Server :=
  if ¬ access then .error statusAccessDenied
  else
    match server.object obj with
    | .event _ => .ok (setEvent server obj)
    | .semaphore _ => releaseSemaphoreObject server obj 1
    | .mutex _ => releaseMutex server t obj

/-- A wait for a list of handles, which may be too long. -/
def selectHandles (op : SelectOp)
    (objects : List ObjectId) (distinct : objects.Nodup) (cookie : Nat)
    (when : Int) : Server × Nat :=
  if few : objects.length ≤ maximumWaitObjects then
    blockOrFinish (waitOn server t op ⟨objects, distinct, few⟩ when) t cookie
  else (server, statusInvalidParameter)

/-- The wait of `SELECT_SIGNAL_AND_WAIT` is for one object. -/
def oneObject (obj : ObjectId) : WaitObjects :=
  ⟨[obj], List.nodup_singleton obj, by simp [maximumWaitObjects]⟩

def selectOn (select : Select) (cookie : Nat) (when : Int) : Server × Nat :=
  match select with
  | .wait objects distinct => selectHandles server t .wait objects distinct cookie when
  | .waitAll objects distinct => selectHandles server t .waitAll objects distinct cookie when
  | .signalAndWait wait signal access _ =>
    let server := waitOn server t .signalAndWait (oneObject wait) when
    match signal with
    | none => blockOrFinish server t cookie
    | some obj =>
      match signalObject server t obj access with
      | .error status => endWait server t status
      | .ok server =>
        if (server.thread t).wait = [] then (server, statusWait0)
        else blockOrFinish server t cookie

end

/-! ## Requests -/

/-- The requests, the timers and the time going on. -/
inductive Request where
  | select (thread : ThreadId) (select : Select) (cookie : Nat) (when : Int)
  | setEvent (object : ObjectId)
  | resetEvent (object : ObjectId)
  | pulseEvent (object : ObjectId)
  | releaseSemaphore (object : ObjectId) (count : BitVec 32)
  | releaseMutex (thread : ThreadId) (object : ObjectId)
  | killThread (thread : ThreadId) (exitCode : Nat)
  | suspendThread (thread : ThreadId)
  | resumeThread (thread : ThreadId)
  | timeout (thread : ThreadId) (wait : Nat)
  | setTime (currentTime monotonicTime : Int)
deriving DecidableEq, Repr

/-- A timer is set for the wait, and its time has come. -/
def timerDue (server : Server) (t : ThreadId) (id : Nat) : Bool :=
  (server.thread t).wait.any fun wait => wait.id = id && wait.user && expired server wait

def step (server : Server) : Request → Server
  | .select t select cookie when =>
    if (server.thread t).terminated ∨ cookie = 0 then server
    else (selectOn server t select cookie when).1
  | .setEvent obj => setEvent server obj
  | .resetEvent obj => resetEvent server obj
  | .pulseEvent obj => pulseEvent server obj
  | .releaseSemaphore obj count =>
    match releaseSemaphoreObject server obj count with
    | .ok server => server
    | .error _ => server
  | .releaseMutex t obj =>
    if (server.thread t).terminated then server
    else
      match releaseMutex server t obj with
      | .ok server => server
      | .error _ => server
  | .killThread t exitCode => killThread server t exitCode
  | .suspendThread t =>
    if (server.thread t).terminated then server
    else suspendThread server t
  | .resumeThread t => resumeThread server t
  | .timeout t id => if timerDue server t id then threadTimeout server t id else server
  | .setTime currentTime monotonicTime =>
    { server with
      currentTime := currentTime
      monotonicTime := monotonicTime }

end WineRedRose.Waits
