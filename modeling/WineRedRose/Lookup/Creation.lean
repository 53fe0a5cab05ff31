import WineRedRose.Lookup.Termination
import WineRedRose.Registry.Dirty

/-!
# Creating keys by their paths

A model of the request `create_key` of `server/registry.c` over the lookup of its
path.  A request for a key that is there already opens it.  It is shown when this
leaves the key as it was: the handler takes the length of the class in the
request as the new length of the class, also if there is no class in the request.
-/

namespace WineRedRose.Lookup

open Registry Namespace

/-! ## The request -/

/-- A request `create_key`, with the flags of its options, access and attributes;
`rootdir` is the key of the handle. -/
structure CreateRequest where
  rootdir : Option KeyId := none
  name : Name := []
  volatile : Bool := false
  createLink : Bool := false
  /-- `KEY_WOW64_64KEY` -/
  wow64Key64 : Bool := false
  /-- `KEY_WOW64_32KEY` -/
  wow64Key32 : Bool := false
  /-- `OBJ_OPENIF` -/
  openIf : Bool := false
  attributes : Attributes := {}
  /-- The data behind the object attributes. -/
  keyClass : Option Name := none
  /-- The thread runs a 32-bit program in a 64-bit prefix. -/
  wow64Thread : Bool := false
deriving DecidableEq, Repr

/-- The key of a request, or the error.  A key that was there already is opened,
with `STATUS_OBJECT_NAME_EXISTS` or `STATUS_PREDEFINED_HANDLE` if it had to be
looked up. -/
inductive Created where
  | failed (status : Status)
  | opened (k : KeyId) (status : Option Status)
  | created (k : KeyId)
deriving DecidableEq, Repr

variable (lower : WChar → WChar)

section

variable (ns : Namespace) (turns : Nat) (parent : Option KeyId)

/-- `open_named_object`. -/
def openNamedObject (name : Name) (attr : Attributes) : Option Created :=
  match lookupNamedObject ns (lookupLoop lower ns turns attr) 0 parent name with
  | none => none
  | some (.error status, _) => some (.failed status)
  | some (.ok (obj, nameLeft), _) =>
    if nameLen nameLeft ≠ 0 then some (.failed .objectNameNotFound)
    else
      match obj with
      | .key k => some (.opened k none)
      | .directory _ | .symlink _ | .other _ => some (.failed .objectTypeMismatch)

/-- `create_named_object` and `create_key_object` for a name. -/
def createNamedObject (name : Name) (attr : Attributes) (options : CreateOptions) :
    Option (Namespace × Created) :=
  match lookupNamedObject ns (lookupLoop lower ns turns attr) 0 parent name with
  | none => none
  | some (.error status, _) => some (ns, .failed status)
  | some (.ok (obj, nameLeft), _) =>
    if nameLen nameLeft = 0 then
      match obj with
      | .key k =>
        if options.openIf then some (ns, .opened k (some .objectNameExists))
        else some (ns, .failed .objectNameCollision)
      | .directory _ | .symlink _ | .other _ =>
        if options.openIf then some (ns, .failed .objectTypeMismatch)
        else some (ns, .failed .objectNameCollision)
    else
      match obj with
      | .key p =>
        match createKeyObject lower ns.reg p (nameLeft.getD []) options with
        | (reg, none, _) => some ({ ns with reg := reg }, .failed .childMustBeVolatile)
        | (reg, some k, _) =>
          some ({ ns with reg := reg, reflected := Function.update ns.reflected k false },
            .created k)
      -- only the root key is created in a directory
      | .directory _ | .symlink _ | .other _ => some (ns, .failed .objectNameNotFound)

/-- `create_key_object`. -/
def createKeyObject (name : Name) (attr : Attributes) (options : CreateOptions) :
    Option (Namespace × Created) :=
  if name = [] then (openNamedObject lower ns turns parent name attr).map (ns, ·)
  else createNamedObject lower ns turns parent name attr options

/-- `grab_wow6432node`. -/
def grabWow6432node (k : KeyId) : KeyId :=
  match (ns.reg.key k).wow6432node with
  | none => k
  | some w => if ns.reflected w then k else w

/-- `get_wow6432node`; a parent has a smaller number than its subkeys, so the
number of the key is enough fuel. -/
def getWow6432node (ns : Namespace) : Nat → KeyId → Option KeyId
  | 0, _ => none
  | fuel + 1, k =>
    let key := ns.reg.key k
    match key.wow6432node with
    | some w => some w
    | none =>
      match key.parent with
      | none => some k
      | some p =>
        if (ns.reg.key p).wow6432node = some k then some k
        else
          match getWow6432node ns fuel p with
          | none => some k
          | some w => (findSubkey lower ns.reg w key.name).1

/-- The key where the path of a request starts. -/
def startKey (ns : Namespace) (parent : Option KeyId) (name : Name)
    (key64 key32 : Bool) : Option KeyId :=
  match parent with
  | none => none
  | some p =>
    if key64 = false ∧ isWow6432node lower name = false then
      match getWow6432node lower ns (p + 1) p with
      | none => some p
      | some k => if key32 ∨ ns.reflected k then some k else some p
    else some p

/-- `touch_key` of the parent of a key; a null pointer ends the server. -/
def Namespace.touch (k : KeyId) : Namespace :=
  match (ns.reg.key k).parent with
  | none => { ns with reg := { ns.reg with fault := true } }
  | some p => { ns with reg := touchKey ns.reg p }

/-- `create_key`. -/
def createKey (request : CreateRequest) (key64 key32 : Bool) : Option (Namespace × Created) :=
  let openIf := request.openIf && !request.createLink
  let openLink := request.attributes.openLink || request.createLink
  let parent := startKey lower ns request.rootdir request.name key64 key32
  let attr : Attributes :=
    ⟨request.attributes.caseInsensitive, openLink, request.attributes.wow64 || !key64⟩
  let options : CreateOptions := ⟨request.volatile, request.createLink, openIf, parent.isNone⟩
  match createKeyObject lower ns turns parent request.name attr options with
  | none => none
  | some (ns, .failed status) => some (ns, .failed status)
  | some (ns, .opened k none) =>
    if parent.isSome then some (ns.touch k, .opened k none)
    else some (ns, .opened k none)
  | some (ns, .opened k (some status)) =>
    let status := if (ns.reg.key k).predef then .predefinedHandle else status
    some (ns, .opened (if key64 then k else grabWow6432node ns k) (some status))
  | some (ns, .created k) =>
    if parent.isSome then some (ns.touch k, .created k)
    else some (ns, .created k)

/-- The class after a request: its length is set to the length of the class in
the request. -/
def Namespace.setClass (k : KeyId) (keyClass : Option Name) : Namespace :=
  if ns.reg.fault then ns
  else { ns with reg := ns.reg.modifyKey k (openClass keyClass) }

/-- The handler of `create_key`; nothing if the lookup takes more turns. -/
def createKeyRequest (request : CreateRequest) : Option (Namespace × Created) :=
  let key64 := request.wow64Key64 || !request.wow64Thread
  let key32 := request.wow64Key32 && request.wow64Thread
  if 2 * request.name.length ≥ 65534 then some (ns, .failed .objectNameInvalid)
  else if request.rootdir.any fun p => (ns.reg.key p).deleted then some (ns, .failed .keyDeleted)
  else
    match createKey lower ns turns request key64 key32 with
    | none => none
    | some (ns, .failed status) => some (ns, .failed status)
    | some (ns, .opened k status) => some (ns.setClass k request.keyClass, .opened k status)
    | some (ns, .created k) => some (ns.setClass k request.keyClass, .created k)

end

/-! ## Keys that are there already -/

variable {lower} {ns ns' : Namespace} {turns : Nat} {request : CreateRequest}
  {k : KeyId} {status : Option Status}

variable {parent : Option KeyId} {name : Name} {attr : Attributes}

theorem openNamedObject_opened
    (opened : openNamedObject lower ns turns parent name attr = some (.opened k status)) :
    status = none := by
  unfold openNamedObject at opened
  split at opened
  · cases opened
  · cases opened
  · split at opened
    · cases opened
    · split at opened
      · cases opened
        rfl
      all_goals cases opened

theorem createNamedObject_opened {options : CreateOptions}
    (opened : createNamedObject lower ns turns parent name attr options =
      some (ns', .opened k status)) :
    ns' = ns ∧ status = some .objectNameExists := by
  unfold createNamedObject at opened
  split at opened
  · cases opened
  · cases opened
  · split at opened
    · split at opened
      · split at opened
        · cases opened
          exact ⟨rfl, rfl⟩
        · cases opened
      all_goals split at opened <;> cases opened
    · split at opened
      · split at opened <;> cases opened
      all_goals cases opened

theorem createKeyObject_opened {options : CreateOptions}
    (opened : createKeyObject lower ns turns parent name attr options =
      some (ns', .opened k status)) :
    ns' = ns ∧ (name = [] ∧ status = none ∧ parent.isSome = true ∨
      name ≠ [] ∧ status = some .objectNameExists) := by
  unfold createKeyObject at opened
  split at opened
  · next empty =>
      subst empty
      rcases Option.map_eq_some_iff.mp opened with ⟨outcome, made, eq⟩
      cases eq
      refine ⟨rfl, .inl ⟨rfl, openNamedObject_opened made, ?_⟩⟩
      cases parent with
      | none => cases made
      | some p => rfl
  · next more =>
      rcases createNamedObject_opened opened with ⟨same, exists_⟩
      exact ⟨same, .inr ⟨more, exists_⟩⟩

/-- Where an existing key is opened, only an empty path touches another key. -/
theorem createKey_opened {key64 key32 : Bool}
    (opened : createKey lower ns turns request key64 key32 = some (ns', .opened k status)) :
    ns' = if request.name = [] then ns.touch k else ns := by
  unfold createKey at opened
  dsimp only at opened
  split at opened
  · cases opened
  · cases opened
  · next made =>
      rcases createKeyObject_opened made with ⟨rfl, ⟨empty, -, given⟩ | ⟨-, exists_⟩⟩
      · rw [if_pos given] at opened
        cases opened
        rw [if_pos empty]
      · cases exists_
  · next made =>
      rcases createKeyObject_opened made with ⟨rfl, ⟨-, exists_, -⟩ | ⟨more, -⟩⟩
      · cases exists_
      · cases opened
        rw [if_neg more]
  · split at opened <;> cases opened

/-- What a request that opens a key leaves. -/
theorem createKeyRequest_opened
    (opened : createKeyRequest lower ns turns request = some (ns', .opened k status)) :
    ns' = (if request.name = [] then ns.touch k else ns).setClass k request.keyClass := by
  unfold createKeyRequest at opened
  dsimp only at opened
  split at opened
  · cases opened
  · split at opened
    · cases opened
    · split at opened
      · cases opened
      · cases opened
      · next made =>
          cases opened
          rw [createKey_opened made]
      · cases opened

/-! ## What stays as it was -/

theorem touchKey_key_of_lt {reg : State} {p : KeyId}
    (order : ∀ q p, (reg.key q).parent = some p → p < q) (less : p < k) :
    (touchKey reg p).key k = reg.key k := by
  rcases touchKey_start with ⟨start, touched, frame, others⟩
  have order' := (frame.comp Prod.fst).order order
  rw [touched]
  rcases makeDirtyLoop_new order' (Nat.lt_succ_self p) k with same | ⟨above, -⟩
  · exact same.trans (others k less.ne')
  · exact absurd (above.le order') (Nat.not_le_of_lt less)

/-- The server runs on and the key is as it was. -/
structure Unchanged (ns ns' : Namespace) (k : KeyId) : Prop where
  running : ns'.reg.fault = false
  key : ns'.reg.key k = ns.reg.key k

theorem openClass_none_eq_iff (key : Key) :
    openClass none key = key ↔ key.keyClass.getD [] = [] := by
  cases key with
  | mk _ _ keyClass =>
    cases keyClass with
    | none => simp [openClass]
    | some text => simp [openClass, eq_comm]

theorem unchanged_setClass_iff (running : ns'.reg.fault = false)
    (same : ns'.reg.key k = ns.reg.key k) :
    Unchanged ns (ns'.setClass k none) k ↔ (ns.reg.key k).keyClass.getD [] = [] := by
  have eq : ns'.setClass k none =
      { ns' with reg := ns'.reg.modifyKey k (openClass none) } := by
    rw [setClass, running, if_neg Bool.false_ne_true]
  have classed : (ns'.reg.modifyKey k (openClass none)).key k = openClass none (ns.reg.key k) := by
    rw [State.key_modifyKey_self, same]
  rw [← openClass_none_eq_iff, eq]
  constructor
  · intro unchanged
    exact classed.symm.trans unchanged.key
  · intro kept
    exact ⟨running, classed.trans kept⟩

/-- A key that a request without a class opens is as it was exactly if it had no
class of some length; an empty path at the root of the tree ends the server. -/
theorem reopened_key_unchanged_iff (tree : Tree lower ns) (noClass : request.keyClass = none)
    (opened : createKeyRequest lower ns turns request = some (ns', .opened k status)) :
    Unchanged ns ns' k ↔ (ns.reg.key k).keyClass.getD [] = [] ∧
      (request.name = [] → (ns.reg.key k).parent ≠ none) := by
  rw [createKeyRequest_opened opened, noClass]
  have running := tree.linked.running
  by_cases empty : request.name = []
  · rw [if_pos empty]
    cases parent : (ns.reg.key k).parent with
    | none =>
      have ended : ns.touch k = { ns with reg := { ns.reg with fault := true } } := by
        rw [touch, parent]
      rw [ended]
      refine iff_of_false (fun unchanged => ?_) fun both => both.2 empty rfl
      exact absurd unchanged.running (by simp [setClass])
    | some p =>
      have touched : ns.touch k = { ns with reg := touchKey ns.reg p } := by rw [touch, parent]
      have order : ∀ q p, (ns.reg.key q).parent = some p → p < q :=
        fun q p isChild => (tree.linked.order q p isChild).1
      have fault := (touchKey_frame blind_shape ns.reg p).fault
      rw [touched, unchanged_setClass_iff (fault.trans running)
        (touchKey_key_of_lt order (order k p parent))]
      exact ⟨fun kept => ⟨kept, fun _ => nofun⟩, fun both => both.1⟩
  · rw [if_neg empty, unchanged_setClass_iff running rfl]
    exact ⟨fun kept => ⟨kept, fun nil => absurd nil empty⟩, fun both => both.1⟩

/-! ## A key with a class -/

/-- The key `A` below the root key, with a class. -/
def classRegistry (keyClass : Option Name) : Namespace :=
  let reg : State :=
    { key := fun
        | 0 => { name := wstr ['R', 'E', 'G', 'I', 'S', 'T', 'R', 'Y'], subkeys := [1],
                 nbSubkeys := 8 }
        | 1 => { name := wstr ['A'], parent := some 0, keyClass := keyClass }
        | _ => {}
      nextKey := 2
      changeTimestampCounter := 0
      currentTime := 0
      saveBranches := []
      fault := false }
  registryOnly reg 0 fun _ => false

theorem classRegistry_tree (keyClass : Option Name) : Tree asciiLower (classRegistry keyClass) := by
  refine ⟨⟨rfl, ?_, ?_, ?_, ?_⟩, rfl, ?_, nofun⟩
  · rintro (_ | _ | p)
    · exact List.pairwise_singleton _ _
    · exact List.Pairwise.nil
    · exact List.Pairwise.nil
  · rintro (_ | _ | p)
    · exact ⟨Nat.le_add_left 1 7, .inr le_rfl⟩
    · exact ⟨le_rfl, .inl rfl⟩
    · exact ⟨le_rfl, .inl rfl⟩
  · rintro (_ | _ | p) (_ | _ | k) <;> simp [classRegistry, registryOnly]
  · rintro (_ | _ | k) p parent <;>
      simp only [classRegistry, registryOnly, reduceCtorEq, Option.some.injEq] at parent
    subst parent
    exact ⟨Nat.one_pos, Nat.lt_succ_self 1⟩
  · rintro (_ | _ | k) p parent
    · cases parent
    · exact nofun
    · cases parent

/-- The creation of `A`, which opens it. -/
def reopenRequest : CreateRequest where
  rootdir := some 0
  name := wstr ['A']
  openIf := true

theorem reopened_key_unchanged_without_class :
    ∃ ns', createKeyRequest asciiLower (classRegistry none) 3 reopenRequest =
      some (ns', .opened 1 (some .objectNameExists)) ∧ Unchanged (classRegistry none) ns' 1 := by
  have opened : createKeyRequest asciiLower (classRegistry none) 3 reopenRequest =
      some ((classRegistry none).setClass 1 none, .opened 1 (some .objectNameExists)) := rfl
  refine ⟨_, opened, ?_⟩
  exact (reopened_key_unchanged_iff (classRegistry_tree none) rfl opened).mpr ⟨rfl, nofun⟩

/-- The class of a key is lost when the key is created again. -/
theorem reopened_key_loses_class : Tree asciiLower (classRegistry (some (wstr ['C']))) ∧
      ∃ ns', createKeyRequest asciiLower (classRegistry (some (wstr ['C']))) 3 reopenRequest =
      some (ns', .opened 1 (some .objectNameExists)) ∧
      (ns'.reg.key 1).keyClass ≠ ((classRegistry (some (wstr ['C']))).reg.key 1).keyClass := by
  refine ⟨classRegistry_tree _, _, rfl, ?_⟩
  decide

end WineRedRose.Lookup
