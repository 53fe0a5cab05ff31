import WineRedRose.Library.Runs

/-!
# Asynchronous I/O requests

The life of the server's asyncs: they are created for a file descriptor, put
into a queue, woken up, cancelled, completed by the client, and lose their
queue when the file descriptor goes.  Every function of the source that works
on one async is a function of that async here; what it sets off in others
(the reselect routine of the file descriptor, an APC that cannot be queued)
is left to an environment.
-/

namespace WineRedRose.Asyncs

/-! ## Statuses -/

/-- `NTSTATUS`. -/
abbrev Status := Nat

def statusAlerted : Status := 0x101

def statusPending : Status := 0x103

def statusHandlesClosed : Status := 0x8000000a

def statusCancelled : Status := 0xc0000120

/-- `NT_ERROR`. -/
def ntError (status : Status) : Bool := 0xc0000000 ≤ status

/-! ## Asyncs -/

/-- What asyncs use of a `struct fd`. -/
structure Fd where
  /-- `get_fd_user`. -/
  user : Nat
  overlapped : Bool
  completion : Bool

/-- What asyncs use of a `struct iosb`. -/
structure Iosb where
  status : Status
  outData : Bool

/--
`struct async`.  The last two fields are not in the source: whether the queue
of the async was freed, and whether the server followed a `NULL` pointer in
place of its file descriptor.
-/
structure Async where
  process : Nat
  thread : Nat
  queue : Option Nat
  fd : Option Fd
  /-- The status to report, while there is a timeout. -/
  timeout : Option Status
  event : Bool
  dataIosb : Nat
  apcContext : Bool
  iosb : Option Iosb
  initialStatus : Status
  signaled : Bool
  pending : Bool
  directResult : Bool
  alerted : Bool
  terminated : Bool
  canceled : Bool
  unknownStatus : Bool
  blocking : Bool
  isSystem : Bool
  completion : Bool
  queueFreed : Bool
  fault : Bool

section

variable (async : Async) (status : Status)

/-- `async_set_initial_status`, if the initial status was unknown. -/
def Async.learnStatus : Async :=
  if async.unknownStatus then
    { async with initialStatus := status, unknownStatus := false }
  else async

/-- The async waits again. -/
def Async.restart : Async :=
  { async with terminated := false, alerted := false }

/-- The async is done and leaves its queue, and with it the descriptor. -/
def Async.finish : Async :=
  { async with
    timeout := none
    terminated := true
    iosb := async.iosb.map fun iosb => { iosb with status := status }
    signaled := true
    fd := if async.queue.isSome then none else async.fd
    queue := none }

/--
`async_set_result`, for an async that was woken up.  Reselecting the queue is
left to the server.
-/
def Async.setResult : Async :=
  if !async.terminated then async
  else if async.alerted ∧ status = statusPending then (async.learnStatus status).restart
  else (async.learnStatus status).finish status

/-- The status that the APC of a terminated async carries. -/
def Async.callStatus : Status := if async.iosb.any Iosb.outData then statusAlerted else status

/-- `is_fd_overlapped` is asked about an async that has no descriptor. -/
def Async.asksNull : Bool := !async.directResult && ntError status && async.fd.isNone

/-- The flags that `async_terminate` sets. -/
def Async.markTerminated : Async :=
  { async with
    terminated := true
    iosb := async.iosb.map fun iosb =>
      if iosb.status = statusPending then { iosb with status := status }
      else iosb
    alerted := async.alerted || status == statusAlerted
    fault := async.fault || async.asksNull status }

end

section

variable (async : Async) (apcQueued : Bool) (status : Status)

/--
`async_terminate`.  An APC that cannot be queued is dropped, and that gives
the async its result.
-/
def Async.terminate : Async :=
  if async.terminated then async
  else
    let async' := async.markTerminated status
    if async.directResult || apcQueued then async'
    else async'.setResult (async'.callStatus status)

/-- `async_request_complete`. -/
def Async.requestComplete (outData : Bool) : Async :=
  match async.iosb with
  | none => async
  | some iosb =>
    if iosb.status ≠ statusPending then async
    else Async.terminate { async with iosb := some ⟨status, outData⟩ } apcQueued status

/-- Whether `async_handoff` terminates the async. -/
def Async.handoffTerminates (error : Status) : Bool :=
  !async.unknownStatus && (error == statusAlerted ||
    (error != statusPending && (async.pending || !ntError error)))

/-- The end of `async_handoff`: the status is known, or the async waits. -/
def Async.returnStatus : Async :=
  let status := (async.iosb.map Iosb.status).getD statusPending
  if status ≠ statusPending then
    { async with signaled := true, initialStatus := status }
  else
    { async with
      directResult := false
      pending := true
      initialStatus := status }

/-- `async_handoff`, when the request handler has set this error. -/
def Async.handoff (error : Status) (forceBlocking : Bool) : Async :=
  match async.iosb with
  | none => async
  | some iosb =>
    let async := { async with blocking := forceBlocking || async.blocking }
    if async.unknownStatus then async
    else if error = statusAlerted then
      Async.terminate { async with unknownStatus := true } apcQueued statusAlerted
    else if !async.pending && ntError error then
      { async with
        initialStatus := error
        iosb := some { iosb with status := error } }
    else
      let async := { async with initialStatus := error }
      if error ≠ statusPending then (async.terminate apcQueued error).returnStatus
      else async.returnStatus

/-- One round of `free_async_queue`. -/
def Async.free : Async :=
  let async :=
    { async with
      completion := async.completion || async.fd.any Fd.completion
      fd := none }
  { async.terminate apcQueued statusHandlesClosed with
    queue := none
    queueFreed := true }

/-- `queue_async`, for an async that is in no queue. -/
def Async.enqueue (queue : Nat) : Async :=
  if async.queue.isNone && async.fd.isSome then
    { async with queue := some queue }
  else async

/-- `set_async_direct_result`. -/
def Async.setDirectResult (async : Async) (status : Status) (markPending : Bool) : Async :=
  if !async.unknownStatus || !async.terminated || !async.alerted then async
  else
    let async :=
      if status = statusPending then
        { async with directResult := false, pending := true }
      else if markPending then { async with pending := true }
      else async
    async.setResult status

/-- `async_satisfied`, for an async that a wait handle can refer to. -/
def Async.satisfied : Async :=
  match async.iosb with
  | none => async
  | some iosb =>
    if async.signaled && async.directResult then
      { async.setResult iosb.status with directResult := false }
    else async

end

/-! ## The server -/

/-- A request that a reselect routine completes. -/
structure Completion where
  id : Nat
  status : Status
  outData : Bool

/--
What is outside of the asyncs during a step: for which of them an APC can be
queued, which other ones the reselect routine of a descriptor completes when
an async of it changes, and whether the cancel routine of the descriptor
terminates an async at once.
-/
structure Env where
  apcQueued : Nat → Bool
  reselected : Nat → List Completion
  cancels : Nat → Bool

/-- The asyncs of all processes by their address; `next` is a fresh one. -/
structure Server where
  asyncs : Nat → Option Async
  next : Nat

def Server.onAsync (server : Server) (id : Nat) (change : Async → Async) :
    Server :=
  { server with
    asyncs := Function.update server.asyncs id ((server.asyncs id).map change) }

section

variable (server : Server) (env : Env) (id : Nat)

/--
`async_reselect`: the routine of the descriptor may complete other requests,
and ignores that they reselect their queues in turn.
-/
def Server.reselect : Server := (env.reselected id).foldl (fun server completion =>
      server.onAsync completion.id fun async =>
        async.requestComplete (env.apcQueued completion.id) completion.status completion.outData)
    server

/-- A change of an async after which its queue is reselected, if it had one. -/
def Server.changeAsync (change : Async → Async) (reselects : Async → Bool) : Server :=
  if (server.asyncs id).any fun async =>
      reselects async && async.queue.isSome && async.fd.isSome then
    (server.onAsync id change).reselect env id
  else server.onAsync id change

def Server.asyncTerminate (status : Status) : Server :=
  server.changeAsync env id (fun async => async.terminate (env.apcQueued id) status)
    (fun async => !async.terminated)

/-- `async_wake_up`; for `STATUS_ALERTED` only the first async wakes up. -/
def Server.asyncWakeUp (queue : Nat) (status : Status) : Server :=
  let queued := (List.range server.next).filter fun id =>
    (server.asyncs id).any fun async => async.queue = some queue
  let woken := if status = statusAlerted then queued.take 1 else queued
  woken.foldl (fun server id => server.asyncTerminate env id status) server

end

/-! ## Cancelling -/

/--
The loops of the cancel functions, which start again from the newest async
after each one they cancel.  A check that follows the `NULL` pointer of an
async gives no answer; a cancelled async is not selected again.
-/
def Server.cancelWhere (env : Env) (check : Async → Option Bool) : Nat → Server → Server
  | 0, server => server
  | fuel + 1, server =>
    match (List.range server.next).reverse.find? fun id =>
        (server.asyncs id).any fun async => check async != some false with
    | none => server
    | some id =>
      if (server.asyncs id).any fun async =>
          check async == some true && async.fd.isSome then
        let marked := server.onAsync id fun async =>
          { async with canceled := true }
        cancelWhere env check fuel (if env.cancels id then
            marked.asyncTerminate env id statusCancelled
          else marked)
      else server.onAsync id fun async => { async with fault := true }

def Server.cancelAll (server : Server) (env : Env) (check : Async → Option Bool) : Server :=
  server.cancelWhere env check (server.next + 1)

/-- `get_fd_user( async->fd ) == obj`. -/
def Async.hasUser (async : Async) (obj : Nat) : Option Bool := async.fd.map fun fd => fd.user = obj

/-- The check of `cancel_async`. -/
def Async.checkCancel (process : Nat) (obj thread iosb : Option Nat) (async : Async) :
    Option Bool :=
  if async.process ≠ process || async.terminated || async.canceled || async.isSystem then some false
  else
    (obj.elim (some true) async.hasUser).map fun user =>
      user && thread.all (async.thread = ·) && iosb.all (async.dataIosb = ·)

/-- The check of `cancel_blocking`. -/
def Async.checkCancelBlocking (process thread : Nat) (iosb : Option Nat) (async : Async) :
    Option Bool :=
  if async.process ≠ process || async.terminated || async.canceled then some false
  else some (async.blocking && async.thread = thread && iosb.all (async.dataIosb = ·))

/-- The check of `cancel_process_asyncs`. -/
def Async.checkCancelProcess (process : Nat) (async : Async) : Option Bool :=
  some (async.process = process && !async.terminated && !async.canceled)

/-- The check of `async_close_obj_handle`. -/
def Async.checkCloseHandle (process obj : Nat) (async : Async) : Option Bool :=
  if async.process ≠ process || async.terminated || async.canceled then some false
  else
    (async.hasUser obj).map fun user => user && async.completion && async.apcContext && !async.event

/-- The check of `cancel_terminating_thread_asyncs`. -/
def Async.checkTerminatingThread (thread : Nat) (async : Async) :
    Option Bool :=
  some (async.thread = thread && !async.terminated && !async.canceled &&
    !(async.completion && async.apcContext && !async.event) &&
    !async.isSystem)

/-! ## Steps -/

/-- What an async is created from. -/
structure AsyncData where
  process : Nat
  thread : Nat
  fd : Fd
  event : Bool
  iosb : Nat
  apcContext : Bool

/--
`create_async`, and `create_request_async` for a request with an `iosb` of
its own.
-/
def createAsync (data : AsyncData) (request isSystem : Bool) : Async where
  process := data.process
  thread := data.thread
  queue := none
  fd := some data.fd
  timeout := none
  event := data.event
  dataIosb := data.iosb
  apcContext := data.apcContext
  iosb := if request then some ⟨statusPending, false⟩ else none
  initialStatus := statusPending
  signaled := false
  pending := !request
  directResult := request
  alerted := false
  terminated := false
  canceled := false
  unknownStatus := false
  blocking := !data.fd.overlapped
  isSystem := request && isSystem
  completion := data.fd.completion
  queueFreed := false
  fault := false

inductive Step
  | createAsync (data : AsyncData) (request isSystem : Bool)
  | queueAsync (id queue : Nat)
  | asyncHandoff (id : Nat) (error : Status) (forceBlocking : Bool)
  | asyncTerminate (id : Nat) (status : Status)
  | asyncRequestComplete (id : Nat) (status : Status) (outData : Bool)
  | asyncWakeUp (queue : Nat) (status : Status)
  | asyncSetUnknownStatus (id : Nat)
  | asyncSetTimeout (id : Nat) (timeout : Option Status)
  | asyncTimeout (id : Nat)
  /-- The APC of a terminated async comes back with a result. -/
  | apcResult (id : Nat) (status : Status)
  | setAsyncDirectResult (id : Nat) (status : Status) (markPending : Bool)
  | asyncSatisfied (id : Nat)
  | cancelAsync (process : Nat) (obj thread iosb : Option Nat)
  | cancelBlocking (process thread : Nat) (iosb : Option Nat)
  | cancelProcessAsyncs (process : Nat)
  | asyncCloseObjHandle (process obj : Nat)
  | cancelTerminatingThreadAsyncs (thread : Nat)
  | freeAsyncQueue (queue : Nat)
  | asyncDestroy (id : Nat)

/-- What one step does, in an environment. -/
def Server.step (server : Server) : Env × Step → Server
  | (_, .createAsync data request isSystem) =>
    { asyncs := Function.update server.asyncs server.next (some (createAsync data request isSystem))
      next := server.next + 1 }
  | (_, .queueAsync id queue) => server.onAsync id fun async => async.enqueue queue
  | (env, .asyncHandoff id error forceBlocking) =>
    server.changeAsync env id (fun async => async.handoff (env.apcQueued id) error forceBlocking)
      (fun async => !async.terminated && async.handoffTerminates error)
  | (env, .asyncTerminate id status) => server.asyncTerminate env id status
  | (env, .asyncRequestComplete id status outData) =>
    server.changeAsync env id (fun async =>
        async.requestComplete (env.apcQueued id) status outData)
      (fun async => !async.terminated && async.iosb.any fun iosb => iosb.status = statusPending)
  | (env, .asyncWakeUp queue status) => server.asyncWakeUp env queue status
  | (_, .asyncSetUnknownStatus id) =>
    server.onAsync id fun async =>
      { async with unknownStatus := true, directResult := false }
  | (_, .asyncSetTimeout id timeout) =>
    server.onAsync id fun async => { async with timeout := timeout }
  | (env, .asyncTimeout id) =>
    server.changeAsync env id (fun async =>
        match async.timeout with
        | none => async
        | some status => Async.terminate { async with timeout := none } (env.apcQueued id) status)
      (fun async => !async.terminated && async.timeout.isSome)
  | (env, .apcResult id status) =>
    server.changeAsync env id (fun async => async.setResult status) Async.terminated
  | (env, .setAsyncDirectResult id status markPending) =>
    server.changeAsync env id (fun async => async.setDirectResult status markPending)
      (fun async => async.unknownStatus && async.terminated && async.alerted)
  | (env, .asyncSatisfied id) =>
    server.changeAsync env id Async.satisfied (fun async =>
        async.terminated && async.signaled && async.directResult)
  | (env, .cancelAsync process obj thread iosb) =>
    server.cancelAll env (Async.checkCancel process obj thread iosb)
  | (env, .cancelBlocking process thread iosb) =>
    server.cancelAll env (Async.checkCancelBlocking process thread iosb)
  | (env, .cancelProcessAsyncs process) => server.cancelAll env (Async.checkCancelProcess process)
  | (env, .asyncCloseObjHandle process obj) =>
    server.cancelAll env (Async.checkCloseHandle process obj)
  | (env, .cancelTerminatingThreadAsyncs thread) =>
    server.cancelAll env (Async.checkTerminatingThread thread)
  | (env, .freeAsyncQueue queue) =>
    { server with
      asyncs := fun id => (server.asyncs id).map fun async =>
        if async.queue = some queue then async.free (env.apcQueued id)
        else async }
  | (env, .asyncDestroy id) =>
    let destroyed :=
      { server with asyncs := Function.update server.asyncs id none }
    if (server.asyncs id).any fun async =>
        async.queue.isSome && async.fd.isSome then
      destroyed.reselect env id
    else destroyed

/-- No async yet. -/
def Server.initial : Server where
  asyncs _ := none
  next := 0

end WineRedRose.Asyncs
