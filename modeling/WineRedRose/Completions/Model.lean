import WineRedRose.Library.Runs

/-!
# Completion ports

A completion port has a queue of packets and a list of waiters.  A thread
takes a packet directly, or gets a wait object of its own: when a wait on
that object is satisfied a packet is attached to it, and the thread fetches
the packet with a second request.  The wait object belongs to one port at a
time and follows the thread to the next one.
-/

namespace WineRedRose.Completions

/-! ## State -/

/-- `struct comp_msg`. -/
structure Packet where
  ckey : Nat
  cvalue : Nat
  information : Nat
  status : Nat

/--
`struct completion`.  The waiters are the threads whose wait object is in
`wait_queue`.  Handles are counted apart from the other references, those of
file descriptors.  The last two fields are not in the source: whether the
port was ever created, and all packets added to it.
-/
structure Port where
  queue : List Packet
  waitQueue : List Nat
  depth : BitVec 32
  closed : Bool
  handles : Nat
  refs : Nat
  created : Bool
  added : List Packet

/-- `struct completion_wait`; without `completion` its port was closed. -/
structure Wait where
  completion : Option Nat
  msg : Option Packet

/--
What is used of a `struct thread`: its wait object, whether it is blocked on
that object, and its user APCs.  The last field is not in the source: the
packets that its requests have returned.
-/
structure Thread where
  wait : Option Wait
  blocked : Bool
  alertable : Bool
  userApc : Nat
  ended : Bool
  returned : List Packet

/-- A packet that left the queue of a port for a thread. -/
structure Delivery where
  port : Nat
  thread : Nat
  packet : Packet

/--
The ports and threads.  The last two fields are not in the source: the
packets that left a queue, in order, and whether an assertion failed.
-/
structure Server where
  ports : Nat → Port
  threads : Nat → Thread
  handed : List Delivery
  fault : Bool

def Server.onPort (server : Server) (port : Nat) (change : Port → Port) :
    Server :=
  { server with
    ports := Function.update server.ports port (change (server.ports port)) }

def Server.onThread (server : Server) (thread : Nat) (change : Thread → Thread) : Server :=
  { server with
    threads := Function.update server.threads thread (change (server.threads thread)) }

/-! ## Wait objects -/

section

variable (server : Server)

/-- `completion_wait_signaled`. -/
def Server.completionWaitSignaled (wait : Wait) : Bool :=
  match wait.completion with
  | none => true
  | some port => (server.ports port).depth != 0

/-- The first packet of a port goes to a thread. -/
def Server.takePacket (port thread : Nat) (packet : Packet) (rest : List Packet) : Server :=
  { server.onPort port fun state =>
      { state with queue := rest, depth := state.depth - 1 } with
    handed := server.handed ++ [⟨port, thread, packet⟩] }

/-- `completion_wait_satisfied`, for the wait object of a thread. -/
def Server.completionWaitSatisfied (thread : Nat) (wait : Wait) : Server :=
  match wait.completion with
  | none => server
  | some port =>
    match (server.ports port).queue with
    | [] => { server with fault := true }
    | packet :: rest =>
      (server.takePacket port thread packet rest).onThread thread fun state =>
          { state with wait := some { wait with msg := some packet } }

/-- `wake_up` on the wait object of a thread. -/
def Server.wakeUp (thread : Nat) : Server :=
  match (server.threads thread).wait with
  | none => server
  | some wait =>
    if (server.threads thread).blocked && server.completionWaitSignaled wait then
      (server.completionWaitSatisfied thread wait).onThread thread
        fun state => { state with blocked := false }
    else server

/-- `cleanup_thread_completion`. -/
def Server.cleanupThreadCompletion (thread : Nat) : Server :=
  match (server.threads thread).wait with
  | none => server
  | some wait =>
    let server :=
      match wait.completion with
      | none => server
      | some port =>
        server.onPort port fun state =>
          { state with waitQueue := state.waitQueue.erase thread }
    server.onThread thread fun state => { state with wait := none }

/-- `create_completion_wait`. -/
def Server.createCompletionWait (port thread : Nat) : Server := (server.onThread thread fun state =>
    { state with wait := some ⟨some port, none⟩ }).onPort port fun state =>
      { state with waitQueue := thread :: state.waitQueue }

end

/-! ## Ports -/

/-- The loop of `add_completion` over the waiters. -/
def Server.wakeWaiters (port : Nat) : List Nat → Server → Server
  | [], server => server
  | thread :: threads, server =>
    let server := server.wakeUp thread
    if (server.ports port).queue.isEmpty then server
    else wakeWaiters port threads server

/-- `add_completion`. -/
def Server.addCompletion (server : Server) (port : Nat) (packet : Packet) :
    Server :=
  let server := server.onPort port fun state =>
    { state with
      queue := state.queue ++ [packet]
      depth := state.depth + 1
      added := state.added ++ [packet] }
  server.wakeWaiters port (server.ports port).waitQueue

/-- The loop of `completion_close_handle` over the waiters. -/
def Server.abandonWaiters (port : Nat) : List Nat → Server → Server
  | [], server => server
  | thread :: threads, server =>
    let held := ((server.threads thread).wait.bind Wait.msg).isSome
    let server := server.onThread thread fun state =>
      { state with
        wait := state.wait.map fun wait => { wait with completion := none } }
    let server := server.onPort port fun state =>
      { state with waitQueue := state.waitQueue.erase thread }
    let server :=
      if held then server
      else (server.wakeUp thread).cleanupThreadCompletion thread
    abandonWaiters port threads server

/-- `completion_close_handle`. -/
def Server.completionCloseHandle (server : Server) (port : Nat) : Server :=
  if (server.ports port).handles ≠ 1 then server
  else
    (server.abandonWaiters port (server.ports port).waitQueue).onPort port
      fun state => { state with closed := true }

/-- `completion_destroy`, when the last reference is gone. -/
def Port.release (port : Port) : Port :=
  if port.handles = 0 ∧ port.refs = 0 then
    { port with queue := [], depth := 0 }
  else port

/-! ## Requests -/

/--
`remove_completion`.  The thread keeps its wait object for the port, or gets
a new one; it takes the first packet, unless there is none or it has to run a
user APC first.
-/
def Server.removeCompletion (server : Server) (thread port : Nat) (alertable : Bool) : Server :=
  let entry := (server.ports port).queue.head?
  let server :=
    match (server.threads thread).wait with
    | none => server
    | some wait =>
      if wait.completion ≠ some port then server.cleanupThreadCompletion thread
      else server
  let alerted := alertable && (server.threads thread).userApc != 0 &&
    !(entry.isSome && (server.threads thread).wait.isSome)
  let server :=
    if (server.threads thread).wait.isNone then server.createCompletionWait port thread
    else server
  let moved := server.onPort port fun state =>
    { state with waitQueue := thread :: state.waitQueue.erase thread }
  match (server.ports port).queue with
  | [] => moved
  | packet :: rest =>
    if alerted then moved
    else
      (server.takePacket port thread packet rest).onThread thread
        fun state => { state with returned := state.returned ++ [packet] }

section

variable (server : Server) (thread : Nat)

/-- `get_thread_completion`. -/
def Server.getThreadCompletion : Server :=
  match (server.threads thread).wait with
  | none => server
  | some wait =>
    match wait.msg with
    | none => server
    | some packet =>
      let server := server.onThread thread fun state =>
        { state with
          wait := some { wait with msg := none }
          returned := state.returned ++ [packet] }
      if wait.completion.isNone then server.cleanupThreadCompletion thread
      else server

/-- A thread waits on its wait object. -/
def Server.select (alertable : Bool) : Server :=
  match (server.threads thread).wait with
  | none => server
  | some wait =>
    if server.completionWaitSignaled wait then server.completionWaitSatisfied thread wait
    else if alertable && (server.threads thread).userApc != 0 then server
    else
      server.onThread thread fun state =>
        { state with blocked := true, alertable := alertable }

inductive Request
  | createCompletion (port : Nat)
  | duplicateHandle (port : Nat)
  | closeHandle (port : Nat)
  /-- A file descriptor takes or gives back a reference to the port. -/
  | grabObject (port : Nat)
  | releaseObject (port : Nat)
  | addCompletion (port : Nat) (packet : Packet)
  | removeCompletion (thread port : Nat) (alertable : Bool)
  | select (thread : Nat) (alertable : Bool)
  /-- The wait of a blocked thread times out. -/
  | waitTimeout (thread : Nat)
  | getThreadCompletion (thread : Nat)
  | queueApc (thread : Nat)
  | dequeueApc (thread : Nat)
  /-- The thread ends: `cleanup_thread`. -/
  | endThread (thread : Nat)

/-- Threads that run can make requests. -/
def Server.runs : Bool := !(server.threads thread).blocked && !(server.threads thread).ended

/-- The port exists. -/
def Port.lives (port : Port) : Bool := port.handles != 0 || port.refs != 0

/-- What a request does; one that cannot be made changes nothing. -/
def Server.step : Request → Server
  | .createCompletion port =>
    if (server.ports port).created then server
    else
      server.onPort port fun state =>
        { state with created := true, handles := 1 }
  | .duplicateHandle port =>
    if (server.ports port).handles = 0 then server
    else
      server.onPort port fun state =>
        { state with handles := state.handles + 1 }
  | .closeHandle port =>
    if (server.ports port).handles = 0 then server
    else
      (server.completionCloseHandle port).onPort port fun state =>
        Port.release { state with handles := state.handles - 1 }
  | .grabObject port =>
    if (server.ports port).lives then
      server.onPort port fun state => { state with refs := state.refs + 1 }
    else server
  | .releaseObject port =>
    if (server.ports port).refs = 0 then server
    else server.onPort port fun state => Port.release { state with refs := state.refs - 1 }
  | .addCompletion port packet =>
    if (server.ports port).lives then server.addCompletion port packet
    else server
  | .removeCompletion thread port alertable =>
    if server.runs thread && (server.ports port).handles != 0 then
      server.removeCompletion thread port alertable
    else server
  | .select thread alertable =>
    if server.runs thread then server.select thread alertable else server
  | .waitTimeout thread => server.onThread thread fun state => { state with blocked := false }
  | .getThreadCompletion thread =>
    if server.runs thread then server.getThreadCompletion thread
    else server
  | .queueApc thread =>
    server.onThread thread fun state =>
      { state with
        userApc := state.userApc + 1
        blocked := state.blocked && !state.alertable }
  | .dequeueApc thread =>
    server.onThread thread fun state =>
      { state with userApc := state.userApc - 1 }
  | .endThread thread =>
    (server.cleanupThreadCompletion thread).onThread thread fun state =>
      { state with blocked := false, ended := true }

end

/-- No port, and threads without wait objects. -/
def Server.initial : Server where
  ports _ := ⟨[], [], 0, false, 0, 0, false, []⟩
  threads _ := ⟨none, false, false, 0, false, []⟩
  handed := []
  fault := false

end WineRedRose.Completions
