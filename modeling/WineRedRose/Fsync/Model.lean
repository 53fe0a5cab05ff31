import WineRedRose.Waits.Ending

/-!
# Objects in shared memory

With fsync an object is a pair of words in memory that all processes share.
A mutex holds the id of its owner, zero if it is free and `~0` if its owner
has died.  This is a model of the waits of `dlls/ntdll/unix/fsync.c` while no
other thread takes a step, so that a compare-and-swap finds what was loaded
before it.  What `futex_waitv` answers is a parameter.

`Object.toServer` says which object of the server stands for the two words.
-/

namespace WineRedRose.Fsync

open Waits (ObjectId statusTimeout statusAbandonedWait0
  statusWait0 statusPending maximumWaitObjects)

abbrev Word := BitVec 32

/-- The owner of a mutex whose owner has died: `~0`. -/
def abandonedTid : Word := 0xffffffff

/-- The id of a thread, which a mutex can tell from its two special words. -/
structure Tid where
  word : Word
  notFree : word ≠ 0#32
  notAbandoned : word ≠ abandonedTid
deriving DecidableEq, Repr

/-- The thread in the server. -/
def Tid.toServer (t : Tid) : Waits.ThreadId := t.word.toNat

/-- The members of `enum fsync_type` that are events for a wait. -/
inductive EventType where
  | autoEvent
  | manualEvent
  | autoServer
  | manualServer
  | queue
deriving DecidableEq, Repr

/-- A wait resets the event. -/
def EventType.auto : EventType → Bool
  | .autoEvent => true
  | .autoServer => true
  | _ => false

structure Mutex where
  tid : Word
  /-- The recursion count. -/
  count : Word
deriving DecidableEq, Repr

/-- The two words of an object, with its type. -/
inductive Object where
  | semaphore (sem : Sync.Semaphore)
  | mutex (mutex : Mutex)
  | event (type : EventType) (signaled : Word)
deriving DecidableEq, Repr

abbrev Memory := ObjectId → Object

def statusUserApc : Nat := 0xc0

/-- `STATUS_ABANDONED`. -/
def statusAbandoned : Nat := 0x80

/-! ## Waiting for any object -/

/--
The `switch` of the first loop of `__fsync_wait_objects`: the object after it
was grabbed, and whether it was an abandoned mutex.
-/
def tryGrab (t : Tid) : Object → Option (Object × Bool)
  | .semaphore sem =>
    if sem.count = 0#32 then none
    else some (.semaphore { sem with count := sem.count - 1#32 }, false)
  | .mutex m =>
    if m.tid = t.word then some (.mutex { m with count := m.count + 1#32 }, false)
    else if m.tid = 0#32 then some (.mutex ⟨t.word, 1#32⟩, false)
    else if m.tid = abandonedTid then some (.mutex ⟨t.word, 1#32⟩, true)
    else none
  | .event type signaled =>
    if signaled = 0#32 then none
    else if type.auto then
      -- the swap replaces a one; another word stays, and is not zero either
      some (.event type (if signaled = 1#32 then 0#32 else signaled), false)
    else some (.event type signaled, false)

/-- The loop over the objects, which starts at `index`. -/
def waitAny (t : Tid) (index : Nat) : List ObjectId → Memory → Memory × Nat
  | [], memory => (memory, statusTimeout)
  | o :: objects, memory =>
    match tryGrab t (memory o) with
    | some (object, abandoned) =>
      (Function.update memory o object, if abandoned then statusAbandonedWait0 + index else index)
    | none => waitAny t (index + 1) objects memory

/-! ## Waiting for all objects -/

/-- An entry for `futex_waitv`: the expected value, and the word at the address. -/
structure Waitv where
  val : BitVec 64
  word : Word
deriving DecidableEq, Repr

/-- What `futex_waitv` returns: the index of a woken entry, or an error. -/
inductive FutexResult where
  | woken (index : Nat)
  /-- `ETIMEDOUT` -/
  | timedOut
  /-- another error -/
  | failed
deriving DecidableEq, Repr

/-- `futex_vector_set` with the value of the word, an `int` that keeps its sign. -/
def futexVectorSet (word : Word) : Waitv := ⟨word.signExtend 64, word⟩

/-- The first step waits for the object: see the two inner loops. -/
def mustWait (t : Tid) : Object → Bool
  | .mutex m => m.tid ≠ t.word && m.tid ≠ 0#32
  | .semaphore sem => sem.count = 0#32
  | .event _ signaled => signaled = 0#32

/-- The word that the inner loops wait for: the owner, or a zero. -/
def waitWord : Object → Word
  | .mutex m => m.tid
  | .semaphore sem => sem.count
  | .event _ signaled => signaled

/--
The word that says that an asynchronous procedure call is pending.  Only a
wait that is alertable has one.
-/
abbrev ApcFutex := Option Word

def ApcFutex.pending : ApcFutex → Bool
  | some apc => apc ≠ 0#32
  | none => false

/-- The vector of `do_single_wait`. -/
def waitvEntries (apcFutex : ApcFutex) (word : Word) : List Waitv :=
  futexVectorSet word :: (apcFutex.map futexVectorSet).toList

section FirstStep

variable (futexWaitv : List Waitv → FutexResult) (t : Tid) (apcFutex : ApcFutex)

/-- `do_single_wait` on a word that stays as it is. -/
def doSingleWait (word : Word) : Nat :=
  if apcFutex.pending then statusUserApc
  else
    match futexWaitv (waitvEntries apcFutex word) with
    | .woken 0 => statusWait0
    | .timedOut => statusTimeout
    | _ => statusPending

/-- The two inner loops, which wait again after `STATUS_PENDING`. -/
def waitOne (object : Object) : Nat → Option Nat
  | 0 => none
  | fuel + 1 =>
    if mustWait t object then
      let status := doSingleWait futexWaitv apcFutex (waitWord object)
      if status = statusPending then waitOne object fuel else some status
    else some statusWait0

/-- The status ends the call: see the end of the first step. -/
def ends (status : Nat) : Bool := status = statusTimeout || status = statusUserApc

/-- The first step: wait for each object in turn. -/
def waitEach (memory : Memory) (fuel : Nat) : List ObjectId → Option Nat
  | [] => some statusWait0
  | o :: objects => do
    let status ← waitOne futexWaitv t apcFutex (memory o) fuel
    if ends status then some status else waitEach memory fuel objects

end FirstStep

/-- The second step: is the object still signaled? -/
def stillSignaled (t : Tid) : Object → Bool
  | .mutex m => !(m.tid ≠ 0#32 && m.tid ≠ abandonedTid && m.tid ≠ t.word)
  | .semaphore sem => sem.count ≠ 0#32
  | .event _ signaled => signaled ≠ 0#32

/-- Grab one object in the third step. -/
def grab (t : Tid) : Object → Option (Object × Bool)
  | .mutex m =>
    if m.tid = t.word then some (.mutex m, false)
    else if m.tid ≠ 0#32 ∧ m.tid ≠ abandonedTid then none
    else some (.mutex { m with tid := t.word }, m.tid = abandonedTid)
  | .semaphore sem =>
    if sem.count = 0#32 then none
    else some (.semaphore { sem with count := sem.count - 1#32 }, false)
  | .event type signaled =>
    if type.auto then
      if signaled = 0#32 then none
      else some (.event type (if signaled = 1#32 then 0#32 else signaled), false)
    else some (.event type signaled, false)

/-- Put one object back: the loop after `tooslow`. -/
def putBack : Object → Object
  | .mutex m => .mutex { m with tid := 0#32 }
  | .semaphore sem => .semaphore { sem with count := sem.count + 1#32 }
  | .event type signaled => .event type (if type.auto then 1#32 else signaled)

/--
The third step: grab all objects.  If one cannot be grabbed, the ones before
it are put back, the last one first.
-/
def grabAll (t : Tid) : List ObjectId → Memory → Memory × Option Bool
  | [], memory => (memory, some false)
  | o :: objects, memory =>
    match grab t (memory o) with
    | none => (memory, none)
    | some (object, abandoned) =>
      match grabAll t objects (Function.update memory o object) with
      | (memory, none) => (Function.update memory o (putBack (memory o)), none)
      | (memory, some others) => (memory, some (abandoned || others))

/-- The last loop raises the recursion counts. -/
def addCount : Object → Object
  | .mutex m => .mutex { m with count := m.count + 1#32 }
  | object => object

def addCounts (memory : Memory) (objects : List ObjectId) : Memory :=
  objects.foldl (fun memory o => Function.update memory o (addCount (memory o))) memory

section OuterLoop

variable (futexWaitv : List Waitv → FutexResult) (t : Tid)

/-- The outer loop, which starts over at `tryagain` and after `tooslow`. -/
def waitAll (apcFutex : ApcFutex) (objects : List ObjectId) :
    Nat → Memory → Option (Memory × Nat)
  | 0, _ => none
  | fuel + 1, memory => do
    let status ← waitEach futexWaitv t apcFutex memory (fuel + 1) objects
    if ends status then some (memory, status)
    else if objects.all fun o => stillSignaled t (memory o) then
      match grabAll t objects memory with
      | (memory, none) => waitAll apcFutex objects fuel memory
      | (memory, some abandoned) =>
        some (addCounts memory objects, if abandoned then statusAbandoned else statusWait0)
    else waitAll apcFutex objects fuel memory

/--
`__fsync_wait_objects` with a zero timeout; `none` if the fuel is not enough.
-/
def fsyncWaitObjects (any : Bool) (apcFutex : ApcFutex) (objects : List ObjectId)
    (fuel : Nat) (memory : Memory) : Option (Memory × Nat) :=
  if any ∨ objects.length ≤ 1 then
    if apcFutex.pending then some (memory, statusUserApc)
    else some (waitAny t 0 objects memory)
  else waitAll futexWaitv t apcFutex objects fuel memory

end OuterLoop

/-! ## The objects of the server -/

/-- The mutex of the server with this owner and recursion count. -/
def Mutex.toServer (mutex : Mutex) : Waits.Mutex :=
  if mutex.tid = 0#32 then
    { count := 0#32, owner := none, abandoned := false }
  else if mutex.tid = abandonedTid then
    { count := 0#32, owner := none, abandoned := true }
  else
    { count := mutex.count
      owner := some mutex.tid.toNat
      abandoned := false }

def Object.toServer : Object → Waits.Object
  | .semaphore sem => .semaphore sem
  | .mutex m => .mutex m.toServer
  | .event type signaled => .event { manualReset := !type.auto, signaled := signaled ≠ 0#32 }

/-- The object is a mutex whose owner has died. -/
def Object.abandoned : Object → Bool
  | .mutex m => m.tid = abandonedTid
  | _ => false

end WineRedRose.Fsync
