import WineRedRose.Library.Slots

/-!
# Handle tables

A model of `server/handle.c`: the handle tables of the processes and the global
table, and the count of handles that each object has.  An entry of a table is
known by the owner of the table and its index.

The memory of a table is a function of the index.  What malloc and realloc give
has any contents, and so has the memory behind the allocated entries; a write
there is recorded in `fault`, as are failed assertions and null pointers.  The
objects themselves, their access rights and what happens when a handle of them is
closed belong to the environment of a step.
-/

namespace WineRedRose.Handles

open Library.Slots

/-! ## Tables -/

abbrev ObjId := Nat

abbrev ProcessId := Nat

/-- `obj_handle_t` -/
abbrev Handle := BitVec 32

abbrev Access := BitVec 32

/-- `struct handle_entry` with an object; the others have a null pointer. -/
structure HandleEntry where
  object : ObjId
  access : Access
deriving DecidableEq, Repr

/-- `struct handle_table` -/
structure HandleTable where
  /-- The number of allocated entries. -/
  count : Nat
  /-- The last used entry. -/
  last : Int
  /-- The first entry that may be free. -/
  free : Nat
  entries : Nat → Option HandleEntry

/-- The number of entries up to the last used one. -/
def HandleTable.size (table : HandleTable) : Nat := (table.last + 1).toNat

/-- A table belongs to a process, or it is the global one. -/
inductive Owner where
  | process (p : ProcessId)
  | global
deriving DecidableEq, Repr

structure State where
  table : Owner → Option HandleTable
  handleCount : ObjId → Nat
  fault : Bool

/-- No process has a table yet. -/
def State.initial : State where
  table _ := none
  handleCount _ := 0
  fault := false

/-- What a step meets outside of the handle tables. -/
structure Environment where
  /-- `map_access` of an object. -/
  mapAccess : ObjId → Access → Access := fun _ access => access
  /-- `check_object_access` with the token of the current thread, if it has one:
  nothing if access is denied, or the rights granted. -/
  checkThread : Option (ObjId → Access → Option Access) := none
  /-- `check_object_access` with the token of a process. -/
  checkProcess : ProcessId → ObjId → Access → Option Access := fun _ _ access => some access
  /-- `check_object_access` without a token. -/
  checkCurrent : ObjId → Access → Option Access := fun _ access => some access
  /-- The object of a pseudo-handle. -/
  magicHandle : Handle → Option ObjId := fun _ => none
  /-- Whether `close_handle` of an object allows it; what else it does is left out. -/
  closeHandle : ObjId → Bool := fun _ => true
  /-- Memory is left for a table, to grow one and to shrink one. -/
  allocates : Bool := true
  grows : Bool := true
  shrinks : Bool := true
  /-- What new memory has in it. -/
  garbage : Nat → Option HandleEntry := fun _ => none

/-- `RESERVED_INHERIT` -/
def reservedInherit : Access := 1 <<< 26

/-- `RESERVED_CLOSE_PROTECT` -/
def reservedCloseProtect : Access := 2 <<< 26

/-- `RESERVED_ALL` -/
def reservedAll : Access := reservedInherit ||| reservedCloseProtect

def maximumAllowed : Access := 0x02000000

def genericAll : Access := 0x10000000

def minHandleEntries : Nat := 32

def maxHandleEntries : Nat := 0x00ffffff

/-! ## Handles -/

def indexToHandle (index : Nat) : Handle := BitVec.ofNat 32 (index + 1) <<< 2

def handleToIndex (handle : Handle) : Int := (handle >>> 2).toNat - 1

def handleObfuscator : Handle := 0x544a4def

def handleIsGlobal (handle : Handle) : Bool :=
  (handle ^^^ handleObfuscator).toNat ≤ maxHandleEntries * 4

def handleLocalToGlobal (handle : Handle) : Handle :=
  if handle = 0 then 0 else handle ^^^ handleObfuscator

def handleGlobalToLocal (handle : Handle) : Handle := handle ^^^ handleObfuscator

/-- An entry: the owner of its table and its index. -/
abbrev Slot := Owner × Nat

/-- The table of a handle and its value there. -/
def ownerOf (p : ProcessId) (handle : Handle) : Owner × Handle :=
  if handleIsGlobal handle then (.global, handleGlobalToLocal handle)
  else (.process p, handle)

/-- `get_handle` -/
def getHandle (st : State) (p : ProcessId) (handle : Handle) : Option (Slot × HandleEntry) :=
  let (owner, handle) := ownerOf p handle
  match st.table owner with
  | none => none
  | some table =>
    let index := handleToIndex handle
    if index < 0 then none
    else if index > table.last then none
    else (table.entries index.toNat).map fun entry => ((owner, index.toNat), entry)

/-! ## Changes of a table -/

def State.setTable (st : State) (owner : Owner) (table : Option HandleTable) : State :=
  { st with table := Function.update st.table owner table }

/-- `grab_object_for_handle` -/
def State.grab (st : State) (obj : ObjId) : State :=
  { st with handleCount := Function.update st.handleCount obj (st.handleCount obj + 1) }

/-- `release_object_from_handle` -/
def State.release (st : State) (obj : ObjId) : State :=
  if st.handleCount obj = 0 then { st with fault := true }
  else
    { st with handleCount := Function.update st.handleCount obj (st.handleCount obj - 1) }

/-- Something outside of the allocated memory is accessed. -/
def State.outside (st : State) (out : Prop) [Decidable out] : State :=
  { st with fault := st.fault || decide out }

def HandleTable.setEntry (table : HandleTable) (i : Nat) (entry : Option HandleEntry) :
    HandleTable :=
  { table with entries := Function.update table.entries i entry }

section

variable (env : Environment) (table : HandleTable) (i : Nat)

/-- `alloc_handle_table` -/
def allocHandleTable (count : Nat) : Option HandleTable :=
  if env.allocates then some ⟨max count minHandleEntries, -1, 0, env.garbage⟩
  else none

/-- `grow_handle_table` -/
def growHandleTable : Option HandleTable :=
  let count := min (table.count * 2) maxHandleEntries
  if count = table.count ∨ env.grows = false then none
  else
    some { table with
      count := count
      entries := fun i => if i < table.count then table.entries i else env.garbage i }

/-- The table and the index that `alloc_entry` uses. -/
def findEntry : Option (HandleTable × Nat) :=
  match firstFree table.entries (table.size - table.free) table.free with
  | (i, true) => some (table, i)
  | (i, false) =>
    if i ≥ table.count then
      (growHandleTable env table).map fun table => ({ table with last := i }, i)
    else some ({ table with last := i }, i)

/-- `alloc_entry` in the table of an owner; the handle is 0 if it fails. -/
def allocEntry (env : Environment) (st : State) (owner : Owner) (table : HandleTable)
    (obj : ObjId) (access : Access) : State × Handle :=
  match findEntry env table with
  | none => (st, 0)
  | some (table, i) =>
    let filled := { table.setEntry i (some ⟨obj, access⟩) with free := i + 1 }
    (((st.grab obj).setTable owner (some filled)).outside (i ≥ table.count), indexToHandle i)

/-- `shrink_handle_table` -/
def shrinkHandleTable : HandleTable :=
  let table := { table with last := lastUsed table.entries table.size }
  if table.last ≥ ((table.count / 4 : Nat) : Int) then table
  else if table.count < minHandleEntries * 2 then table
  else if env.shrinks then { table with count := table.count / 2 }
  else table

/-- The table after an entry is closed. -/
def HandleTable.closeEntry : HandleTable :=
  let table := table.setEntry i none
  let table := if i < table.free then { table with free := i } else table
  if (i : Int) = table.last then shrinkHandleTable env table else table

end

/-! ## Operations -/

section

variable (env : Environment) (st : State) (p : ProcessId)

/-- `alloc_handle_entry` -/
def allocHandleEntry (obj : ObjId) (access : Access) (inherit : Bool) : State × Handle :=
  if access &&& reservedAll ≠ 0 then ({ st with fault := true }, 0)
  else
    match st.table (.process p) with
    | none => (st, 0)
    | some table =>
      allocEntry env st (.process p) table obj
        (if inherit then access ||| reservedInherit else access)

/-- `alloc_handle_no_access_check` -/
def allocHandleNoAccessCheck (obj : ObjId) (access : Access) (inherit : Bool) : State × Handle :=
  let access := if access &&& maximumAllowed ≠ 0 then genericAll else access
  allocHandleEntry env st p obj (env.mapAccess obj access &&& ~~~ reservedAll) inherit

/-- `alloc_global_handle_no_access_check` -/
def allocGlobalHandleNoAccessCheck (obj : ObjId) (access : Access) : State × Handle :=
  match st.table .global with
  | some table =>
    let (st, handle) := allocEntry env st .global table obj access
    (st, handleLocalToGlobal handle)
  | none =>
    match allocHandleTable env 0 with
    | none => (st, 0)
    | some table =>
      let st := st.setTable .global (some table)
      let (st, handle) := allocEntry env st .global table obj access
      (st, handleLocalToGlobal handle)

/-- `alloc_global_handle` -/
def allocGlobalHandle (obj : ObjId) (access : Access) : State × Handle :=
  if access ≠ 0 then
    match env.checkCurrent obj access with
    | none => (st, 0)
    | some access => allocGlobalHandleNoAccessCheck env st obj access
  else allocGlobalHandleNoAccessCheck env st obj access

inductive Status where
  | success
  | invalidHandle
  | handleNotClosable
deriving DecidableEq, Repr

/-- `close_handle` -/
def closeHandle (handle : Handle) : State × Status :=
  match getHandle st p handle with
  | none => (st, .invalidHandle)
  | some ((owner, i), entry) =>
    if entry.access &&& reservedCloseProtect ≠ 0 then (st, .handleNotClosable)
    else if env.closeHandle entry.object = false then (st, .handleNotClosable)
    else
      let table := (st.table owner).map fun table => table.closeEntry env i
      ((st.setTable owner table).release entry.object, .success)

/-- Change the access rights of an entry in place. -/
def State.setAccess (st : State) (slot : Slot) (entry : HandleEntry) (access : Access) :
    State :=
  st.setTable slot.1 ((st.table slot.1).map fun table =>
    table.setEntry slot.2 (some { entry with access := access }))

/-- `set_handle_flags` -/
def setHandleFlags (handle : Handle) (mask flags : Access) : State :=
  if (env.magicHandle handle).isSome then st
  else
    match getHandle st p handle with
    | none => st
    | some (slot, entry) =>
      let mask := (mask <<< 26) &&& reservedAll
      let flags := (flags <<< 26) &&& mask
      st.setAccess slot entry ((entry.access &&& ~~~ mask) ||| flags)

/-- `DUPLICATE_CLOSE_SOURCE`, `DUPLICATE_SAME_ACCESS`, `DUPLICATE_MAKE_GLOBAL` -/
structure DuplicateOptions where
  closeSource : Bool := false
  sameAccess : Bool := false
  makeGlobal : Bool := false
deriving DecidableEq, Repr

/-- `duplicate_handle` where more access is asked for than the source has.  The
process to get the handle is given by a pointer. -/
def duplicateMore (obj : ObjId) (dst : Option ProcessId) (access : Access) (inherit : Bool)
    (options : DuplicateOptions) : State × Handle :=
  let granted :=
    match env.checkThread with
    | none => some access
    | some check => check obj access
  match granted, dst with
  | none, _ => (st, 0)
  | some _, none => ({ st with fault := true }, 0)
  | some access, some p =>
    match env.checkProcess p obj access with
    | none => (st, 0)
    | some access =>
      if options.makeGlobal then allocGlobalHandle env st obj access
      else allocHandleNoAccessCheck env st p obj access inherit

/-- `duplicate_handle` where no more access is asked for. -/
def duplicateSame (src : ProcessId)
    (srcHandle : Handle) (entry : Option (Slot × HandleEntry)) (obj : ObjId)
    (dst : Option ProcessId) (access : Access) (inherit : Bool)
    (options : DuplicateOptions) : State × Handle :=
  if options.makeGlobal then allocGlobalHandleNoAccessCheck env st obj access
  else
    match entry, dst with
    | _, none => ({ st with fault := true }, 0)
    | none, some p => allocHandleEntry env st p obj access inherit
    | some (slot, entry), some p =>
      if options.closeSource ∧ src = p ∧ entry.access &&& reservedCloseProtect = 0 then
        (st.setAccess slot entry
          (if inherit then access ||| reservedInherit else access), srcHandle)
      else allocHandleEntry env st p obj access inherit

/-- The access rights of the source; a pseudo-handle has all. -/
def sourceAccess (entry : Option (Slot × HandleEntry)) (obj : ObjId) : Access :=
  match entry with
  | some (_, entry) => entry.access &&& ~~~ reservedAll
  | none => env.mapAccess obj genericAll &&& ~~~ reservedAll

/-- The access rights that are asked for. -/
def wantedAccess (srcAccess : Access) (obj : ObjId)
    (access : Access) (options : DuplicateOptions) : Access :=
  if options.sameAccess then srcAccess
  else env.mapAccess obj access &&& ~~~ reservedAll

/-- `duplicate_handle` -/
def duplicateHandle (src : ProcessId)
    (srcHandle : Handle) (dst : Option ProcessId) (access : Access) (inherit : Bool)
    (options : DuplicateOptions) : State × Handle :=
  let entry := getHandle st src srcHandle
  match env.magicHandle srcHandle <|> entry.map (·.2.object) with
  | none => (st, 0)
  | some obj =>
    let srcAccess := sourceAccess env entry obj
    let access := wantedAccess env srcAccess obj access options
    if access &&& ~~~ srcAccess ≠ 0 then duplicateMore env st obj dst access inherit options
    else duplicateSame env st src srcHandle entry obj dst access inherit options

/-- The handler of `dup_handle`, with the processes of its handles. -/
def dupHandle (src dst : Option ProcessId) (srcHandle : Handle) (access : Access) (inherit : Bool)
    (options : DuplicateOptions) : State × Handle :=
  match src with
  | none => (st, 0)
  | some src =>
    let dst := if options.makeGlobal then none else dst
    let (st, handle) :=
      if options.makeGlobal ∨ dst.isSome then
        duplicateHandle env st src srcHandle dst access inherit options
      else (st, 0)
    if options.closeSource ∧ (some src ≠ dst ∨ srcHandle ≠ handle) ∧ st.fault = false then
      ((closeHandle env st src srcHandle).1, handle)
    else (st, handle)

end

/-! ## Tables of new processes -/

/-- `inherit_handle`: a handle of the parent is copied into the table. -/
def inheritHandle (before : State) (parent : ProcessId) (table : HandleTable)
    (st : State) (handle : Handle) : HandleTable × State :=
  match getHandle before parent handle with
  | none => (table, st)
  | some (_, src) =>
    if src.access &&& reservedInherit = 0 then (table, st)
    else
      let index := (handleToIndex handle).toNat
      if (table.entries index).isSome then (table, st.outside (index ≥ table.count))
      else
        ({ table.setEntry index (some src) with last := max table.last index },
          (st.grab src.object).outside (index ≥ table.count))

/-- The loop over the listed handles. -/
def inheritHandles (before : State) (parent : ProcessId) :
    List Handle → HandleTable → State → HandleTable × State
  | [], table, st => (table, st)
  | handle :: handles, table, st =>
    let (table, st) := inheritHandle before parent table st handle
    inheritHandles before parent handles table st

/-- The loop over the copied entries: those that are not inherited are removed. -/
def inheritEntries : (size : Nat) → HandleTable → State → HandleTable × State
  | 0, table, st => (table, st)
  | size + 1, table, st =>
    let (table, st) := inheritEntries size table st
    match table.entries size with
    | none => (table, st)
    | some entry =>
      if entry.access &&& reservedInherit ≠ 0 then (table, st.grab entry.object)
      else (table.setEntry size none, st)

/-- `copy_handle_table`: the table of a new process. -/
def copyHandleTable (env : Environment) (st : State) (process parent : ProcessId)
    (handles : Option (List Handle)) (stdHandles : List Handle) : State :=
  match st.table (.process parent) with
  | none => { st with fault := true }
  | some parentTable =>
    match allocHandleTable env parentTable.count with
    | none => st
    | some table =>
      let (table, st) :=
        match handles with
        | some handles =>
          let cleared := { table with
            entries := fun i => if i < parentTable.count then none else table.entries i }
          inheritHandles st parent (handles ++ stdHandles) cleared st
        | none =>
          let copied := { table with
            last := parentTable.last
            entries := fun i =>
              if i < parentTable.size then parentTable.entries i
              else table.entries i }
          inheritEntries copied.size copied st
      st.setTable (.process process) (some (shrinkHandleTable env table))

/-- The loop of `handle_table_destroy`. -/
def releaseEntries (table : HandleTable) : (size : Nat) → State → State
  | 0, st => st
  | size + 1, st =>
    let st := releaseEntries table size st
    match table.entries size with
    | none => st
    | some entry => st.release entry.object

/-- `close_process_handles` with `handle_table_destroy`. -/
def closeProcessHandles (st : State) (p : ProcessId) : State :=
  match st.table (.process p) with
  | none => st
  | some table => releaseEntries table table.size (st.setTable (.process p) none)

/-! ## Steps -/

/-- The operations; `dst` of `duplicateHandle` is a pointer. -/
inductive Operation where
  | allocHandleTable (p : ProcessId) (count : Nat)
  | allocEntry (owner : Owner) (obj : ObjId) (access : Access)
  | allocHandleEntry (p : ProcessId) (obj : ObjId) (access : Access) (inherit : Bool)
  | closeHandle (p : ProcessId) (handle : Handle)
  | setHandleFlags (p : ProcessId) (handle : Handle) (mask flags : Access)
  | duplicateHandle (src : ProcessId) (srcHandle : Handle) (dst : Option ProcessId)
      (access : Access) (inherit : Bool) (options : DuplicateOptions)
  | dupHandle (src dst : Option ProcessId) (srcHandle : Handle) (access : Access)
      (inherit : Bool) (options : DuplicateOptions)
  | copyHandleTable (process parent : ProcessId) (handles : Option (List Handle))
      (stdHandles : List Handle)
  | closeProcessHandles (p : ProcessId)
deriving DecidableEq, Repr

/-- An operation and what it meets. -/
structure Action where
  operation : Operation
  env : Environment := {}

/-- One step; a process gets a table only if it has none, and nothing happens
after a fault. -/
def step (st : State) (action : Action) : State :=
  let env := action.env
  if st.fault then st
  else
    match action.operation with
    | .allocHandleTable p count =>
      if (st.table (.process p)).isSome then st
      else st.setTable (.process p) (allocHandleTable env count)
    | .allocEntry owner obj access =>
      match st.table owner with
      | none => st
      | some table => (allocEntry env st owner table obj access).1
    | .allocHandleEntry p obj access inherit => (allocHandleEntry env st p obj access inherit).1
    | .closeHandle p handle => (closeHandle env st p handle).1
    | .setHandleFlags p handle mask flags => setHandleFlags env st p handle mask flags
    | .duplicateHandle src srcHandle dst access inherit options =>
      (duplicateHandle env st src srcHandle dst access inherit options).1
    | .dupHandle src dst srcHandle access inherit options =>
      (dupHandle env st src dst srcHandle access inherit options).1
    | .copyHandleTable process parent handles stdHandles =>
      if (st.table (.process process)).isSome then st
      else copyHandleTable env st process parent handles stdHandles
    | .closeProcessHandles p => closeProcessHandles st p

end WineRedRose.Handles
