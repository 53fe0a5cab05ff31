import WineRedRose.Library.Runs
import WineRedRose.Fsync.WaitAll

/-!
# Mutants through fsync and through the server

A process uses mutexes either through shared memory or through requests to
the server.  Both ways share the object manager: names, handles and the
rights that a handle carries.  The shared words of a mutex stand for a mutex
of the server, and every call keeps it so.

The calls differ in what they tell their caller.  `NtReleaseMutant` computes
the previous count from the recursion count only on the server's way, and it
stores a number there also when it fails.  The rights of a handle are checked
by the server alone, which fsync asks for a handle that is not in its cache.
-/

namespace WineRedRose.Fsync

open Library.Runs
open Waits (ObjectId Server statusTimeout statusWait0
  statusAbandonedWait0 statusAccessDenied statusMutantNotOwned
  statusObjectTypeMismatch statusPending)

def statusSuccess : Nat := 0x0

def statusObjectNameExists : Nat := 0x40000000

def statusInvalidHandle : Nat := 0xc0000008

def statusObjectNameCollision : Nat := 0xc0000035

/-! ## The object manager -/

abbrev Name := List (BitVec 16)

/-- The rights of a handle that some request asks for. -/
structure Access where
  queryState : Bool
  synchronize : Bool
deriving DecidableEq, Repr

structure Handle where
  object : ObjectId
  access : Access
  /-- The handle is in the cache of fsync. -/
  cached : Bool
deriving DecidableEq, Repr

/-- `FSYNC_LIST_BLOCK_SIZE` with pointers of eight bytes. -/
def fsyncListBlockSize : Nat := 4096

def fsyncListEntries : Nat := 256

/--
Names and handles, which the server keeps on both ways.  A handle is given by
its index, `handle_to_index`.
-/
structure Handles where
  name : Name → Option ObjectId
  handle : Nat → Option Handle
  nextHandle : Nat
  nextObject : ObjectId
  /-- The blocks of `fsync_list`, the cache of fsync. -/
  block : Nat → Bool

/--
`add_to_list` finds a place for the next handle; `mapped` says that there is
memory for another block.
-/
def Handles.addToList (handles : Handles) (mapped : Bool) : Bool :=
  let entry := handles.nextHandle / fsyncListBlockSize
  entry < fsyncListEntries && (handles.block entry || entry = 0 || mapped)

def Handles.allocHandle (handles : Handles) (o : ObjectId) (access : Access) (mapped : Bool) :
    Handles :=
  let cached := handles.addToList mapped
  let entry := handles.nextHandle / fsyncListBlockSize
  { handles with
    handle := Function.update handles.handle handles.nextHandle (some ⟨o, access, cached⟩)
    nextHandle := handles.nextHandle + 1
    block := Function.update handles.block entry (handles.block entry || cached) }

/-- A new object, with its name and its first handle. -/
def Handles.createObject (handles : Handles) (name : Option Name) (access : Access)
    (mapped : Bool) : Handles :=
  let o := handles.nextObject
  { handles with
    name :=
      match name with
      | some name => Function.update handles.name name (some o)
      | none => handles.name
    nextObject := o + 1 }.allocHandle o access mapped

structure MutantInfo where
  currentCount : Word
  ownedByCaller : Bool
  abandonedState : Bool
deriving DecidableEq, Repr

/-! ## Calls -/

inductive Call where
  | create (t : Tid) (name : Option Name) (openIf owned : Bool) (access : Access) (mapped : Bool)
  /-- A wait for one handle with a zero timeout. -/
  | wait (t : Tid) (handle : Nat)
  /-- `NtReleaseMutant`, with or without a pointer to the previous count. -/
  | release (t : Tid) (handle : Nat) (prevCount : Bool)
  | query (t : Tid) (handle : Nat)
  | terminate (t : Tid)
deriving DecidableEq, Repr

/-- What the caller gets; a number that is not stored is `none`. -/
inductive Reply where
  | created (status : Nat) (handle : Option Nat)
  | waited (status : Nat)
  | released (status : Nat) (prevCount : Option Word)
  | queried (status : Nat) (info : Option MutantInfo)
  | terminated
deriving DecidableEq, Repr

/-- The operations of one of the two ways; a missing handle is invalid. -/
structure Backend (State : Type) where
  create : State → ObjectId → Tid → Bool → State
  wait : State → Option Handle → Tid → State × Nat
  release : State → Option Handle → Tid → State × Nat × Option Word
  query : State → Option Handle → Tid → Nat × Option MutantInfo
  terminate : State → Tid → State

structure System (State : Type) where
  state : State
  handles : Handles

/-- One call; names and handles are the same on both ways. -/
def System.call {State : Type} (backend : Backend State)
    (system : System State) : Call → System State × Reply
  | .create t name openIf owned access mapped =>
    match name.bind system.handles.name with
    | some o =>
      if openIf then
        ({ system with handles := system.handles.allocHandle o access mapped },
          .created statusObjectNameExists system.handles.nextHandle)
      else (system, .created statusObjectNameCollision none)
    | none =>
      ({ state := backend.create system.state system.handles.nextObject t owned
         handles := system.handles.createObject name access mapped },
        .created statusSuccess system.handles.nextHandle)
  | .wait t handle =>
    let (state, status) := backend.wait system.state (system.handles.handle handle) t
    ({ system with state := state }, .waited status)
  | .release t handle prevCount =>
    let (state, status, previous) := backend.release system.state (system.handles.handle handle) t
    ({ system with state := state }, .released status (if prevCount then previous else none))
  | .query t handle =>
    let (status, info) := backend.query system.state (system.handles.handle handle) t
    (system, .queried status info)
  | .terminate t => ({ system with state := backend.terminate system.state t }, .terminated)

/-! ## Fsync -/

/-- The shared memory, and `mutex_list` of `server/fsync.c`. -/
structure Shared where
  memory : Memory
  mutexList : List ObjectId

section

variable (shared : Shared) (handle : Option Handle)

def Shared.setMutex (o : ObjectId) (mutex : Mutex) : Shared :=
  { shared with memory := Function.update shared.memory o (.mutex mutex) }

def fsyncCreateMutex (o : ObjectId) (t : Tid) (initial : Bool) : Shared :=
  { shared with mutexList := shared.mutexList ++ [o] }.setMutex o
    ⟨if initial then t.word else 0#32, if initial then 1#32 else 0#32⟩

/--
`get_object`: a handle that is not in the cache is asked for with the request
`get_fsync_idx`, which wants the right to wait.
-/
def getObject : Except Nat Handle :=
  match handle with
  | none => .error statusInvalidHandle
  | some handle =>
    if handle.cached || handle.access.synchronize then .ok handle
    else .error statusAccessDenied

/-- A wait for one object takes the first loop of `__fsync_wait_objects`. -/
def fsyncWait (t : Tid) : Shared × Nat :=
  match getObject handle with
  | .error status => (shared, status)
  | .ok handle =>
    let (memory, status) := waitAny t 0 [handle.object] shared.memory
    ({ shared with memory := memory }, status)

def fsyncReleaseMutex (t : Tid) : Shared × Nat × Option Word :=
  match getObject handle with
  | .error status => (shared, status, none)
  | .ok handle =>
    match shared.memory handle.object with
    | .mutex m =>
      if m.tid ≠ t.word then (shared, statusMutantNotOwned, none)
      else
        let count := m.count - 1#32
        (shared.setMutex handle.object ⟨if count = 0#32 then 0#32 else m.tid, count⟩,
          statusSuccess, some m.count)
    -- the source does not look at the type; here all handles are of mutexes
    | _ => (shared, statusObjectTypeMismatch, none)

def fsyncQueryMutex (t : Tid) : Nat × Option MutantInfo :=
  match getObject handle with
  | .error status => (status, none)
  | .ok handle =>
    match shared.memory handle.object with
    | .mutex m =>
      (statusSuccess, some
          { currentCount := 1#32 - m.count
            ownedByCaller := m.tid = t.word
            abandonedState := m.tid = abandonedTid })
    | _ => (statusObjectTypeMismatch, none)

/-- One round of the loop of `fsync_abandon_mutexes`. -/
def abandonOne (t : Tid) : Object → Object
  | .mutex m => if m.tid = t.word then .mutex ⟨abandonedTid, 0#32⟩ else .mutex m
  | object => object

def fsyncAbandonMutexes (t : Tid) : Shared :=
  { shared with
    memory := shared.mutexList.foldl
      (fun memory o => Function.update memory o (abandonOne t (memory o)))
      shared.memory }

end

def fsyncBackend : Backend Shared where
  create := fsyncCreateMutex
  wait := fsyncWait
  release := fsyncReleaseMutex
  query := fsyncQueryMutex
  terminate := fsyncAbandonMutexes

/-! ## The server -/

/-- `create_mutex`. -/
def serverCreateMutex (server : Server) (o : ObjectId) (t : Tid) (owned : Bool) : Server :=
  let mutex : Waits.Mutex := { count := 0, owner := none, abandoned := false }
  let server := server.setObject o (.mutex mutex)
  if owned then Waits.doGrab server o mutex t.toServer else server

section

variable (server : Server) (handle : Option Handle) (t : Tid)

/-- A wait through the request `select`. -/
def serverWait : Server × Nat :=
  match handle with
  | none => (server, statusInvalidHandle)
  | some handle =>
    if ¬ handle.access.synchronize then (server, statusAccessDenied)
    else Waits.selectOn server t.toServer (.wait [handle.object] (List.nodup_singleton _)) 1 0

/--
`NtReleaseMutant` through the request `release_mutex`.  The reply of a failed
request has a previous count of zero.
-/
def ntReleaseMutant : Server × Nat × Option Word :=
  match handle with
  | none => (server, statusInvalidHandle, some (1#32 - 0#32))
  | some handle =>
    match Waits.releaseMutex server t.toServer handle.object with
    | .error status => (server, status, some (1#32 - 0#32))
    | .ok released =>
      match server.object handle.object with
      | .mutex m => (released, statusSuccess, some (1#32 - m.count))
      | _ => (released, statusSuccess, none)

/-- `NtQueryMutant` through the request `query_mutex`. -/
def ntQueryMutant : Nat × Option MutantInfo :=
  match handle with
  | none => (statusInvalidHandle, none)
  | some handle =>
    if ¬ handle.access.queryState then (statusAccessDenied, none)
    else
      match server.object handle.object with
      | .mutex m =>
        (statusSuccess, some
            { currentCount := 1#32 - m.count
              ownedByCaller := m.owner = some t.toServer
              abandonedState := m.abandoned })
      | _ => (statusObjectTypeMismatch, none)

end

def serverBackend : Backend Server where
  create := serverCreateMutex
  wait := serverWait
  release := ntReleaseMutant
  query := ntQueryMutant
  terminate server t := Waits.abandonMutexes server t.toServer

end WineRedRose.Fsync
