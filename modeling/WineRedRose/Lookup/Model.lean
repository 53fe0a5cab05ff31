import WineRedRose.Library.Loops
import WineRedRose.RegText.Model

/-!
# Looking up keys by their paths

A model of `lookup_named_object` of `server/object.c` over the directories, the
symbolic link objects and the keys of the server.  Objects of other kinds, such
as devices, end a lookup by themselves.  A name is given by a pointer and a
length: `none` is the null pointer, which is left when the last element of a
path was found.

`lookup_named_object` calls itself for the targets of links, with a count of the
calls that are running.  Neither its loop nor these calls need to end, so the
loop takes the number of turns it may still make.
-/

namespace WineRedRose.Lookup

open Registry

/-- What a lookup or the creation of a key reports. -/
inductive Status where
  | childMustBeVolatile
  | invalidParameter
  | keyDeleted
  | objectNameCollision
  | objectNameExists
  | objectNameInvalid
  | objectNameNotFound
  | objectPathNotFound
  | objectPathSyntaxBad
  | objectTypeMismatch
  | predefinedHandle
  /-- A null pointer is followed. -/
  | fault
deriving DecidableEq, Repr

abbrev DirectoryId := Nat

abbrev SymlinkId := Nat

abbrev OtherId := Nat

/-- The objects that a lookup can come to. -/
inductive Obj where
  | directory (d : DirectoryId)
  | symlink (s : SymlinkId)
  | key (k : KeyId)
  | other (o : OtherId)
deriving DecidableEq, Repr

/-- What stands in a directory; of the keys only the root key does. -/
inductive Entry where
  | directory (d : DirectoryId)
  | symlink (s : SymlinkId)
  | registry
  | other (o : OtherId)
deriving DecidableEq, Repr

/-- `OBJ_CASE_INSENSITIVE`, `OBJ_OPENLINK` and `OBJ_KEY_WOW64`. -/
structure Attributes where
  caseInsensitive : Bool := false
  openLink : Bool := false
  wow64 : Bool := false
deriving DecidableEq, Repr

/--
The registry with its root key and the flag `KEY_WOWREFLECT` of each key, and the
objects around it.
-/
structure Namespace where
  reg : State
  rootKey : KeyId
  reflected : KeyId → Bool
  rootDirectory : DirectoryId
  /-- The names of a directory, in the order in which they are found. -/
  entries : DirectoryId → List (Name × Entry)
  /-- The targets of the symbolic links; those of `create_root_symlink` are empty. -/
  targets : List Name
  /-- How a lookup ends that has come to an object of another kind. -/
  otherLookup : OtherId → Option Name → Attributes → Except Status (OtherId × Option Name)
  /-- The bit `KEY_WOWREFLECT` at the place of the flags of a key, in an object that
  is none. -/
  strayFlag : Obj → Bool

def Namespace.target (ns : Namespace) (s : SymlinkId) : Name := ns.targets.getD s []

/-- The object that an entry stands for. -/
def Namespace.obj (ns : Namespace) : Entry → Obj
  | .directory d => .directory d
  | .symlink s => .symlink s
  | .registry => .key ns.rootKey
  | .other o => .other o

/-- The registry alone, in the root directory. -/
def registryOnly (reg : State) (rootKey : KeyId) (reflected : KeyId → Bool) : Namespace where
  reg := reg
  rootKey := rootKey
  reflected := reflected
  rootDirectory := 0
  entries d := if d = 0 then [((reg.key rootKey).name, .registry)] else []
  targets := []
  otherLookup o name _ := .ok (o, name)
  strayFlag _ := false

/-- The object where a lookup ended, and the name that was left. -/
abbrev Found := Obj × Option Name

/-- What a lookup returns, and `recursion_count` afterwards. -/
abbrev Result := Except Status Found × Nat

/-- The length of a name. -/
def nameLen : Option Name → Nat
  | none => 0
  | some name => name.length

/-- What `lookup_name` of an object has done: the lookup ends, it fails or it
goes on at another object. -/
inductive Turn where
  | stop (name : Option Name)
  | failed (status : Status)
  | next (obj : Obj) (name : Option Name)
deriving DecidableEq, Repr

/-- What `lookup_name` of an object does: a turn, or it looks up the target of a
link first, or the lookup ends at an object of another kind. -/
inductive Step where
  | turn (turn : Turn)
  | follow (attr : Attributes) (target : Name) (next : Found → Turn)
  | ended (result : Except Status Found)

/-- The first path element. -/
def element (name : Name) : Name := name.take (getPathElement name)

/-- The path behind the first element and the backslashes after it. -/
def behindElement (name : Name) : Name :=
  (name.drop (getPathElement name)).dropWhile (· = backslash)

variable (lower : WChar → WChar)

/-- `find_object` compares names by the attributes. -/
def sameName (attr : Attributes) (a b : Name) : Bool := a.length = b.length &&
    if attr.caseInsensitive then memicmpStrW lower a b = 0 else a = b

section

variable (ns : Namespace)

/-- `find_object` in a directory. -/
def findObject (attr : Attributes) (d : DirectoryId) (name : Name) : Option Entry :=
  if name = [] then none
  else ((ns.entries d).find? fun entry => sameName lower attr entry.1 name).map Prod.snd

/-- `directory_lookup_name`. -/
def directoryLookupName (d : DirectoryId) (name : Option Name) (attr : Attributes) : Turn :=
  match name with
  | none => .stop none
  | some name =>
    let tmp := element name
    match findObject lower ns attr d tmp with
    | some entry =>
      .next (ns.obj entry)
        (if tmp.length < name.length then some (name.drop (tmp.length + 1)) else none)
    | none =>
      if tmp = [] then .failed .objectNameInvalid
      else if tmp.length < name.length then .failed .objectPathNotFound
      else .stop (some name)

/-- `symlink_lookup_name`, where the lookup did not start at the link. -/
def symlinkLookupName (s : SymlinkId) (name : Option Name) (attr : Attributes) : Step :=
  if nameLen name = 0 ∧ attr.openLink then .turn (.stop name)
  else if ns.target s = [] then .turn (.next (.directory ns.rootDirectory) name)
  else
    .follow attr (ns.target s) fun found =>
      if nameLen found.2 ≠ 0 then .failed .objectPathNotFound else .next found.1 name

/-- The subkey of a key with a name. -/
def child (k : KeyId) (name : Name) : Option KeyId := (findSubkey lower ns.reg k name).1

/-- The key found for an element, and the rest of the path. -/
def moveOn (attr : Attributes) (found : KeyId) (rest : Name) : Turn :=
  if rest ≠ [] then
    match (ns.reg.key found).wow6432node with
    | some w =>
      if attr.wow64 ∧ isWow6432node lower rest = false then .next (.key w) (some rest)
      else .next (.key found) (some rest)
    | none => .next (.key found) (some rest)
  else .next (.key found) none

/-- `key_lookup_name` at a key that is no link. -/
def elementLookup (k : KeyId) (name : Option Name) (attr : Attributes) : Turn :=
  match name with
  | none => .stop none
  | some name =>
    let tmp := element name
    let rest := behindElement name
    if tmp.length > maxNameLen then .failed .invalidParameter
    else
      match child lower ns k tmp with
      | some found => moveOn lower ns attr found rest
      | none =>
        if ns.reflected k ∧ attr.wow64 then
          -- try in the 64-bit parent
          match (ns.reg.key k).parent with
          | none => .failed .fault
          | some p =>
            match child lower ns p tmp with
            | some found => moveOn lower ns attr found rest
            | none => .next (.key p) (some name)
        else if rest ≠ [] then .failed .objectNameNotFound
        else .stop (some tmp)

/-- The target of a link, which starts with a backslash. -/
def linkTarget (key : Key) : Option Name :=
  match (findValue lower key symlinkValue).1 with
  | none => none
  | some value =>
    let units := RegText.unitsOf value.data
    if units.head? = some backslash then some units else none

/-- Where the lookup goes on when the target of a link was found. -/
def followLink (attr : Attributes) (name : Option Name) (found : Found) : Turn :=
  let (obj, nameLeft) := found
  if nameLen name = 0 then
    match obj, nameLeft with
    | .key k, none =>
      if ns.reflected k ∧ attr.wow64 then
        match (ns.reg.key k).parent with
        | none => .failed .fault
        | some p => .next (.key p) none
      else .next (.key k) none
    -- the flags are read without a look at the type, and the parent is no key
    | obj, none =>
      if ns.strayFlag obj ∧ attr.wow64 then .failed .fault else .next obj none
    | obj, nameLeft => .next obj nameLeft
  else if nameLen nameLeft ≠ 0 then .failed .objectNameNotFound
  else .next obj name

/-- The attributes for the target of a key that is a link. -/
def linkAttributes : Attributes where
  caseInsensitive := true

/-- `key_lookup_name`. -/
def keyLookupName (k : KeyId) (name : Option Name) (attr : Attributes) : Step :=
  let key := ns.reg.key k
  if key.deleted then .turn (.failed .keyDeleted)
  else if key.symlink then
    if nameLen name = 0 ∧ attr.openLink then .turn (.stop name)
    else
      match linkTarget lower key with
      | none => .turn (.failed .objectNameNotFound)
      | some target => .follow linkAttributes target (followLink ns attr name)
  else .turn (elementLookup lower ns k name attr)

/-- What `lookup_name` of an object does. -/
def lookupName (attr : Attributes) (obj : Obj) (name : Option Name) : Step :=
  match obj with
  | .directory d => .turn (directoryLookupName lower ns d name attr)
  | .symlink s => symlinkLookupName ns s name attr
  | .key k => keyLookupName lower ns k name attr
  | .other o => .ended ((ns.otherLookup o name attr).map fun found => (.other found.1, found.2))

/-- The object where a lookup starts, and the path from there. -/
def startAt (ns : Namespace) (root : Option KeyId) (name : Name) : Except Status (Obj × Name) :=
  match root with
  | some k =>
    if name.head? = some backslash then .error .objectPathSyntaxBad
    else .ok (.key k, name)
  | none =>
    if name.head? = some backslash then .ok (.directory ns.rootDirectory, name.tail)
    else .error .objectPathSyntaxBad

/-- The limit of `recursion_count`. -/
def maxRecursion : Nat := 32

/-- `lookup_named_object` around its loop.  An empty path is the object where
the lookup starts. -/
def lookupNamedObject (ns : Namespace) (loop : Nat → Obj → Option Name → Option Result)
    (count : Nat) (root : Option KeyId) (name : Name) : Option Result :=
  match startAt ns root name with
  | .error status => some (.error status, count)
  | .ok (parent, path) =>
    if count > maxRecursion then some (.error .invalidParameter, count)
    else if path = [] then some (.ok (parent, some []), count)
    else
      match loop (count + 1) parent (some path) with
      | none => none
      | some (result, count) => some (result, count - 1)

/-- The loop after one turn. -/
def afterTurn (loop : Nat → Obj → Option Name → Option Result) (obj : Obj)
    (turn : Turn) (count : Nat) : Option Result :=
  match turn with
  | .stop name => some (.ok (obj, name), count)
  | .failed status => some (.error status, count)
  | .next obj name => loop count obj name

/-- The loop after the target of a link was looked up. -/
def afterTarget (loop : Nat → Obj → Option Name → Option Result) (obj : Obj)
    (next : Found → Turn) : Result → Option Result
  | (.error status, count) => some (.error status, count)
  | (.ok found, count) => afterTurn loop obj (next found) count

/-- The loop of `lookup_named_object`; nothing if it takes more turns. -/
def lookupLoop (ns : Namespace) : (turns : Nat) → Attributes → (count : Nat) →
    Obj → Option Name → Option Result
  | 0, _, _, _, _ => none
  | turns + 1, attr, count, obj, name =>
    match lookupName lower ns attr obj name with
    | .turn turn => afterTurn (lookupLoop ns turns attr) obj turn count
    | .ended result => some (result, count)
    | .follow linkAttr target next =>
      (lookupNamedObject ns (lookupLoop ns turns linkAttr) count none target).bind
        (afterTarget (lookupLoop ns turns attr) obj next)

end

end WineRedRose.Lookup
