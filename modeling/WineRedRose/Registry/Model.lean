import WineRedRose.Registry.Names

/-!
# The registry of the server

A model of `server/registry.c`: the tree of keys with its sorted arrays, the
values of a key, and the flags and counters that decide what a flush writes.
A key is known by its number.  Numbers are given out in order and never
reused, so that a key's number is greater than its parent's.

An array is the list of its slots in use (`0 .. last_subkey`) and the number
of slots allocated.  Allocation does not fail.  A write outside an array or
a failed assertion ends the server and is recorded in `fault`.  The requests
take the key at which the lookup of a path has ended; notifications are left
out.
-/

namespace WineRedRose.Registry

open Library.SortedArray

/-- The number of a key. -/
abbrev KeyId := Nat

/-- What a request reports. -/
inductive Status where
  | success
  | accessDenied
  | cannotDelete
  | childMustBeVolatile
  | invalidHandle
  | invalidParameter
  | keyDeleted
  | nameTooLong
  | noMoreEntries
  | objectNameCollision
  | objectNameExists
  | objectNameNotFound
deriving DecidableEq, Repr

/-- `struct key_value`; the data pointer is null if there are no bytes. -/
structure KeyValue where
  name : Name
  type : BitVec 32
  data : List (BitVec 8)
  order : Nat
deriving DecidableEq, Repr

/--
`struct key`.  The class is `none` if the pointer is null.  The flags are one
field each.
-/
structure Key where
  name : Name := []
  parent : Option KeyId := none
  keyClass : Option Name := none
  subkeys : List KeyId := []
  nbSubkeys : Nat := 0
  wow6432node : Option KeyId := none
  values : List KeyValue := []
  nbValues : Nat := 0
  volatile : Bool := false
  deleted : Bool := false
  dirty : Bool := false
  symlink : Bool := false
  predef : Bool := false
  wowShare : Bool := false
  modif : Int := 0
  timestampCounter : Nat := 0
deriving DecidableEq, Repr, Inhabited

/-- The keys and the global variables of the registry. -/
structure State where
  key : KeyId → Key
  /-- The number of the next key object. -/
  nextKey : KeyId
  changeTimestampCounter : Nat
  currentTime : Int
  /-- The keys of `save_branch_info`. -/
  saveBranches : List KeyId
  fault : Bool

def State.setKey (reg : State) (k : KeyId) (key : Key) : State :=
  { reg with key := Function.update reg.key k key }

/-- Change one key in place. -/
def State.modifyKey (reg : State) (k : KeyId) (change : Key → Key) : State :=
  reg.setKey k (change (reg.key k))

/-- Allocate a key object. -/
def State.addKey (reg : State) (key : Key) : State :=
  { reg with nextKey := reg.nextKey + 1 }.setKey reg.nextKey key

def minSubkeys : Nat := 8

def minValues : Nat := 8

def maxNameLen : Nat := 256

def maxValueLen : Nat := 16383

def regLink : BitVec 32 := 6

def symlinkValue : Name := wstr ['S', 'y', 'm', 'b', 'o', 'l', 'i', 'c', 'L', 'i', 'n', 'k',
    'V', 'a', 'l', 'u', 'e']

/-- The size that `grow_subkeys` and `grow_values` allocate. -/
def growArray (least nb : Nat) : Nat := if nb ≠ 0 then nb + nb / 2 else least

/-- The size after an entry was removed and `used` entries are left. -/
def shrinkArray (least nb used : Nat) : Nat :=
  if least < nb ∧ (used : Int) - 1 < ((nb / 2 : Nat) : Int) then max least (nb - nb / 3)
  else nb

/-! ## Dirty keys -/

/-- Set the dirty flag and the time of the change. -/
def State.markDirty (reg : State) (k : KeyId) : State := reg.modifyKey k fun key =>
    { key with
      dirty := true
      timestampCounter := reg.changeTimestampCounter }

/--
The loop of `make_dirty`.  A parent has a smaller number than its child, so
the number of the first key is enough fuel.
-/
def makeDirtyLoop : Nat → Option KeyId → State → State
  | fuel + 1, some k, reg =>
    if (reg.key k).dirty ∨ (reg.key k).volatile then reg
    else makeDirtyLoop fuel (reg.key k).parent (reg.markDirty k)
  | _, _, reg => reg

def makeDirty (reg : State) (k : KeyId) : State := makeDirtyLoop (k + 1) (some k)
    { reg with changeTimestampCounter := reg.changeTimestampCounter + 1 }

/-- `make_clean`; the depth of the tree is enough fuel. -/
def makeClean (timestampCounter : Nat) : Nat → State → KeyId → State
  | 0, reg, _ => reg
  | fuel + 1, reg, k =>
    let key := reg.key k
    if key.volatile then reg
    else if ¬ key.dirty then reg
    else
      let reg :=
        if key.timestampCounter ≤ timestampCounter then reg.setKey k { key with dirty := false }
        else reg
      key.subkeys.foldl (makeClean timestampCounter fuel) reg

def touchKey (reg : State) (k : KeyId) : State := makeDirty
    (reg.modifyKey k fun key => { key with modif := reg.currentTime }) k

/-! ## Subkeys -/

variable (lower : WChar → WChar)

section

variable (reg : State) (p : KeyId) (name : Name)

/-- The subkey with a name and its index, or the index to insert it at. -/
def findSubkey : Option KeyId × Nat :=
  let subkeys := (reg.key p).subkeys
  match search (fun k => compareName lower (reg.key k).name name) subkeys with
  | (true, index) => (subkeys[index]?, index)
  | (false, index) => (none, index)

/-- Enter a key, which has its name already, among the subkeys of `p`. -/
def keyLinkName (reg : State) (k p : KeyId) : State :=
  let name := (reg.key k).name
  let parent := reg.key p
  let index := (findSubkey lower reg p name).2
  let nbSubkeys :=
    if parent.subkeys.length = parent.nbSubkeys then growArray minSubkeys parent.nbSubkeys
    else parent.nbSubkeys
  let wow :=
    if !parent.wowShare && isWow6432node lower name && !isWow6432node lower parent.name then some k
    else parent.wow6432node
  (reg.setKey p
    { parent with
      subkeys := insertSlot parent.subkeys index k
      nbSubkeys := nbSubkeys
      wow6432node := wow }).modifyKey k fun key => { key with parent := some p }

/-- Take a key out of the subkeys of its parent. -/
def keyUnlinkName (k : KeyId) : State :=
  match (reg.key k).parent with
  | none => reg
  | some p =>
    let parent := reg.key p
    let index := parent.subkeys.idxOf k
    if index < parent.subkeys.length then
      let subkeys := removeSlot parent.subkeys index
      (reg.setKey p
        { parent with
          subkeys := subkeys
          wow6432node :=
            if parent.wow6432node = some k then none
            else parent.wow6432node
          nbSubkeys := shrinkArray minSubkeys parent.nbSubkeys subkeys.length
          }).modifyKey k fun key => { key with parent := none }
    else { reg with fault := true }

/-- The options and attributes of a creation. -/
structure CreateOptions where
  volatile : Bool
  createLink : Bool
  /-- `OBJ_OPENIF`: an existing key is opened. -/
  openIf : Bool
  /-- The path was given without a root directory handle. -/
  absolute : Bool
deriving DecidableEq, Repr

/-- The fields of a new key object. -/
def newKey (reg : State) (name : Name) (options : CreateOptions) : Key :=
  { name := name, modif := reg.currentTime, symlink := options.createLink }

/-- The part of `create_named_object` that makes the key and links it. -/
def linkNewKey (options : CreateOptions) : State :=
  keyLinkName lower (reg.addKey (newKey reg name options)) reg.nextKey p

/-- The flag of a new key: volatile keys are not saved, others must be. -/
def creationFlag (options : CreateOptions) (key : Key) : Key :=
  if options.volatile then { key with volatile := true }
  else { key with dirty := true }

/--
`create_key_object` for a name that is not there yet.  The flags come after
the key is linked; a refused key is unlinked again.
-/
def createKeyObject (options : CreateOptions) : State × Option KeyId × Status :=
  let k := reg.nextKey
  let reg := linkNewKey lower reg p name options
  if !options.volatile && !options.absolute && (reg.key p).volatile then
    (keyUnlinkName reg k, none, .childMustBeVolatile)
  else (reg.modifyKey k (creationFlag options), some k, .success)

/--
The class that a creation gives to a key that was there already.  Without one
in the request the length becomes zero and the pointer stays.
-/
def openClass (keyClass : Option Name) (key : Key) : Key :=
  match keyClass with
  | some text => { key with keyClass := some text }
  | none => { key with keyClass := key.keyClass.map fun _ => [] }

/--
`create_key` where the lookup of the path has come to its last element, one
name below `p`, and the class that the request sets.
-/
def createKey (options : CreateOptions) (keyClass : Option Name) : State × Status :=
  let parent := reg.key p
  if parent.deleted then (reg, .keyDeleted)
  -- a link is resolved to its target, it is never the parent of a new key
  else if parent.symlink then (reg, .objectNameNotFound)
  else if name = [] ∨ maxNameLen < name.length ∨ backslash ∈ name then (reg, .invalidParameter)
  else
    match findSubkey lower reg p name with
    | (some k, _) =>
      if options.openIf && !options.createLink then
        (reg.modifyKey k (openClass keyClass), .objectNameExists)
      else (reg, .objectNameCollision)
    | (none, _) =>
      match createKeyObject lower reg p name options with
      | (reg, none, status) => (reg, status)
      | (reg, some k, status) =>
        let reg := if options.absolute then reg else touchKey reg p
        (reg.modifyKey k fun key => { key with keyClass := keyClass }, status)

/-- The array of the parent after a key was moved to its new place. -/
def moveSubkey (subkeys : List KeyId) (k : KeyId) (index : Nat) : List KeyId × Nat :=
  let curIndex := subkeys.idxOf k
  if curIndex < index ∧ index - curIndex > 1 then
    ((shiftLeft subkeys curIndex (index - 1 - curIndex)).set (index - 1) k, index - 1)
  else if index < curIndex then
    ((shiftRight subkeys curIndex (curIndex - index)).set index k, index)
  else (subkeys.set index k, index)

/--
The array and the name that `rename_key` leaves.  The last assignment to the
array may be behind the allocated slots.
-/
def movedKey (reg : State) (k p : KeyId) (newName : Name) (index : Nat) :
    State :=
  let parent := reg.key p
  let (subkeys, written) := moveSubkey parent.subkeys k index
  { (reg.setKey p { parent with subkeys := subkeys }).modifyKey k
      fun key => { key with name := newName } with
    fault := reg.fault || decide (parent.nbSubkeys ≤ written) }

/-- The names that `rename_key` takes: one path element. -/
def IsElement (name : Name) : Prop :=
  getPathElement name ≠ 0 ∧ getPathElement name = name.length ∧ getPathElement name ≤ maxNameLen

instance (name : Name) : Decidable (IsElement name) :=
  inferInstanceAs (Decidable (_ ∧ _))

def renameKey (k : KeyId) (newName : Name) : State × Status :=
  if ¬ IsElement newName then (reg, .invalidParameter)
  else
    match (reg.key k).parent with
    | none => (reg, .cannotDelete)
    | some p =>
      match findSubkey lower reg p newName with
      | (some _, _) => (reg, .cannotDelete)
      | (none, index) =>
        if (reg.key p).wow6432node = some k ∨ isWow6432node lower newName then
          (reg, .invalidParameter)
        else (touchKey (movedKey reg k p newName index) k, .success)

end

mutual

/--
`delete_key`; `none` if the fuel is not enough.  The result says whether the
key is deleted.
-/
def deleteKey (recurse : Bool) : Nat → State → KeyId → Option (State × Status × Bool)
  | 0, _, _ => none
  | fuel + 1, reg, k =>
    let key := reg.key k
    if key.deleted then some (reg, .success, true)
    else
      match key.parent with
      | none => some (reg, .accessDenied, false)
      | some p =>
        if key.predef then some (reg, .invalidHandle, false)
        else if recurse then
          match deleteSubkeys fuel reg k with
          | none => none
          | some (reg, status, false) => some (reg, status, false)
          | some (reg, _, true) => some (removeKey reg k p)
        else if key.subkeys ≠ [] then some (reg, .accessDenied, false)
        else some (removeKey reg k p)
where
  /-- The end of `delete_key`. -/
  removeKey (reg : State) (k p : KeyId) : State × Status × Bool :=
    let reg := reg.modifyKey k fun key => { key with deleted := true }
    (touchKey (keyUnlinkName reg k) p, .success, true)

/-- The loop of `delete_key` over the last subkey. -/
def deleteSubkeys : Nat → State → KeyId → Option (State × Status × Bool)
  | 0, _, _ => none
  | fuel + 1, reg, k =>
    match (reg.key k).subkeys.getLast? with
    | none => some (reg, .success, true)
    | some child =>
      match deleteKey true fuel reg child with
      | none => none
      | some (reg, status, false) => some (reg, status, false)
      | some (reg, _, true) => deleteSubkeys fuel reg k

end

/-! ## Values -/

section

variable (key : Key) (name : Name)

/-- The value with a name, or none, and its index or the one to insert at. -/
def findValue : Option KeyValue × Nat :=
  match search (fun value => compareName lower value.name name) key.values with
  | (true, index) => (key.values[index]?, index)
  | (false, index) => (none, index)

/-- `insert_value`; the order `none` is the `-1` of the source. -/
def insertValue (index : Nat) (order : Option Nat)
    (type : BitVec 32) (data : List (BitVec 8)) : Except Status Key :=
  if maxValueLen < name.length then .error .nameTooLong
  else
    .ok
      { key with
        nbValues :=
          if key.values.length = key.nbValues then growArray minValues key.nbValues
          else key.nbValues
        values := insertSlot key.values index
            { name := name
              type := type
              data := data
              order := order.getD key.values.length } }

/-- `set_value` finds a value that is the same already. -/
def sameValue (type : BitVec 32) (data : List (BitVec 8)) (value : KeyValue) :
    Bool :=
  value.type = type ∧ value.data = data ∧ value.data ≠ []

/-- The only value of a link is its target. -/
def linkRefuses (type : BitVec 32) : Bool := key.symlink ∧
    (type ≠ regLink ∨ name.length ≠ symlinkValue.length ∨ memicmpStrW lower name symlinkValue ≠ 0)

def setValue (reg : State) (k : KeyId) (name : Name) (type : BitVec 32)
    (data : List (BitVec 8)) : State × Status :=
  let key := reg.key k
  if key.predef then (reg, .invalidHandle)
  else
    match findValue lower key name with
    | (some value, index) =>
      if sameValue type data value then (reg, .success)
      else if linkRefuses lower key name type then (reg, .accessDenied)
      else
        let values := key.values.set index { value with type := type, data := data }
        (touchKey (reg.setKey k { key with values := values }) k, .success)
    | (none, index) =>
      if linkRefuses lower key name type then (reg, .accessDenied)
      else
        match insertValue key name index none type data with
        | .error status => (reg, status)
        | .ok key => (touchKey (reg.setKey k key) k, .success)

/-- `if (values[i].order > order) values[i].order--`. -/
def renumber (order : Nat) (value : KeyValue) : KeyValue :=
  if order < value.order then { value with order := value.order - 1 }
  else value

/-- The loop of `delete_value` that closes the gap. -/
def deleteShift (order : Nat) (values : List KeyValue) (i : Nat) : Nat → List KeyValue
  | 0 => values
  | count + 1 =>
    deleteShift order (copySlot (values.modify i (renumber order)) i (i + 1)) (i + 1) count

/-- The loop of `delete_value` over the slots `0 .. index`. -/
def renumberLoop (order : Nat) (values : List KeyValue) (j : Nat) : Nat → List KeyValue
  | 0 => values
  | count + 1 => renumberLoop order (values.modify j (renumber order)) (j + 1) count

/-- The values that `delete_value` leaves. -/
def removeValue (values : List KeyValue) (index order : Nat) :
    List KeyValue :=
  let shifted := deleteShift order values index (values.length - 1 - index)
  (renumberLoop order shifted 0 (index + 1)).dropLast

def deleteValue (reg : State) (k : KeyId) (name : Name) : State × Status :=
  let key := reg.key k
  if key.predef then (reg, .invalidHandle)
  else
    match findValue lower key name with
    | (none, _) => (reg, .objectNameNotFound)
    | (some value, index) =>
      let values := removeValue key.values index value.order
      let reg := touchKey (reg.setKey k { key with values := values }) k
      (reg.modifyKey k fun key =>
        { key with
          nbValues := shrinkArray minValues key.nbValues values.length },
        .success)

/-- The value that `enum_value` finds for a position. -/
def enumValue (i : Nat) : Except Status KeyValue :=
  if key.predef then .error .invalidHandle
  else if key.values.length ≤ i then .error .noMoreEntries
  else
    match key.values.find? fun value => value.order = i with
    | some value => .ok value
    | none => .error .objectNameNotFound

end

/-! ## Flushing -/

/-- A key and its ancestors, through `get_parent`. -/
def pathFrom (reg : State) : Nat → Option KeyId → List KeyId
  | fuel + 1, some k => k :: pathFrom reg fuel (reg.key k).parent
  | _, _ => []

section

variable (reg : State) (k : KeyId) (written : Bool)

def path : List KeyId := pathFrom reg (k + 1) (some k)

/-- The positions in `save_branch_info` of the branches inside a key, or of
the branch that contains it. -/
def findBranchesForKey : List Nat :=
  let inside := (List.range reg.saveBranches.length).filter fun i =>
      (reg.saveBranches[i]?).any fun branch => k ∈ (path reg branch).tail
  if inside ≠ [] then inside
  else
    match (path reg k).find? fun ancestor => ancestor ∈ reg.saveBranches with
    | some ancestor => [reg.saveBranches.idxOf ancestor]
    | none => []

/-- The branches in the reply of a flush, and its timestamp counter. -/
def flushKey : List Nat × Nat :=
  let key := reg.key k
  let branches := if key.dirty ∧ ¬ key.volatile then findBranchesForKey reg k else []
  (branches.filter fun i =>
    (reg.saveBranches[i]?).any fun branch => (reg.key branch).dirty,
    reg.changeTimestampCounter)

def flushKeyDone (branch timestampCounter : Nat) : State × Status :=
  match reg.saveBranches[branch]? with
  | some k => (makeClean timestampCounter reg.nextKey reg k, .success)
  | none => (reg, .invalidParameter)

/-- `save_branch`, given whether writing the file succeeds. -/
def saveBranch : State × Bool :=
  if ¬ (reg.key k).dirty then (reg, true)
  else if written then (makeClean (reg.key k).timestampCounter reg.nextKey reg k, true)
  else (reg, false)

end

/-! ## Requests -/

/-- The registry when only the root key exists. -/
def rootRegistry : State where
  key k :=
    if k = 0 then
      { name := wstr ['R', 'E', 'G', 'I', 'S', 'T', 'R', 'Y'], dirty := true }
    else {}
  nextKey := 1
  changeTimestampCounter := 0
  currentTime := 0
  saveBranches := []
  fault := false

/-- The requests, and the time going on. -/
inductive Request where
  | createKey (parent : KeyId) (name : Name) (options : CreateOptions) (keyClass : Option Name)
  | deleteKey (key : KeyId) (recurse : Bool)
  | renameKey (key : KeyId) (newName : Name)
  | setValue (key : KeyId) (name : Name) (type : BitVec 32) (data : List (BitVec 8))
  | deleteValue (key : KeyId) (name : Name)
  | flushKeyDone (branch timestampCounter : Nat)
  | saveBranch (branch : Nat) (written : Bool)
  | setTime (time : Int)
deriving DecidableEq, Repr

/-- A handle refers to an existing key object. -/
def State.HasKey (reg : State) (k : KeyId) : Prop := k < reg.nextKey

instance (reg : State) (k : KeyId) : Decidable (reg.HasKey k) :=
  inferInstanceAs (Decidable (k < reg.nextKey))

/-- `get_hkey_obj` gives a key. -/
def State.Usable (reg : State) (k : KeyId) : Prop := reg.HasKey k ∧ (reg.key k).deleted = false

instance (reg : State) (k : KeyId) : Decidable (reg.Usable k) :=
  inferInstanceAs (Decidable (_ ∧ _))

/-- Fuel for deleting a key: two calls for every key below it. -/
def deleteFuel (reg : State) : Nat := 2 * reg.nextKey + 2

/-- One request; a server that has stopped handles none. -/
def step (reg : State) (request : Request) : State :=
  if reg.fault then reg
  else
    match request with
    | .createKey p name options keyClass =>
      if reg.Usable p then (createKey lower reg p name options keyClass).1
      else reg
    | .deleteKey k recurse =>
      if reg.HasKey k then
        match deleteKey recurse (deleteFuel reg) reg k with
        | some (reg, _, _) => reg
        | none => reg
      else reg
    | .renameKey k newName => if reg.Usable k then (renameKey lower reg k newName).1 else reg
    | .setValue k name type data =>
      if reg.Usable k then (setValue lower reg k name type data).1
      else reg
    | .deleteValue k name => if reg.Usable k then (deleteValue lower reg k name).1 else reg
    | .flushKeyDone branch timestampCounter => (flushKeyDone reg branch timestampCounter).1
    | .saveBranch branch written =>
      match reg.saveBranches[branch]? with
      | some k => (saveBranch reg k written).1
      | none => reg
    | .setTime time => { reg with currentTime := time }

end WineRedRose.Registry
