import WineRedRose.Library.Runs
import WineRedRose.Tokens.Descriptors
import WineRedRose.Tokens.Model

/-!
# Default access control lists

A token keeps the list for objects that are created without one.  A list from
a client is stored with all bytes of the request, or else with as many as the
list itself says; `acl_is_valid` does not look at this size.  A token is
reduced to what its list depends on, and allocations succeed: where one fails
no list is kept.
-/

namespace WineRedRose.Tokens.DefaultDacl

open List Library.Runs

/-- What is found from the start of a block on, and how many bytes belong to
it. -/
structure Block where
  memory : Memory
  size : Nat

/-- The `size` of a list. -/
def Block.aclSize (acl : Block) : Nat := word16 acl.memory 2

/-- `memdup`; behind the copy lies what is on the heap there. -/
def memdup (heap : Memory) (data : Block) (len : Nat) : Block :=
  ⟨fun address => if address < len then data.memory address else heap address, len⟩

/-- `struct token`. -/
structure Token where
  primary : Bool
  impersonationLevel : Int
  defaultDacl : Option Block

/-- The tokens, and whether a copy has read behind its source. -/
structure Server where
  tokens : List Token
  overread : Bool

/-- `create_default_dacl( &domain_users_sid )`. -/
def createDefaultDacl : Block :=
  ⟨memoryOf ([2, 0, 64, 0, 2, 0, 0, 0] ++ [0, 0, 20, 0, 0, 0, 0, 16] ++
    [1, 1, 0, 0, 0, 0, 0, 5, 18, 0, 0, 0] ++ [0, 0, 36, 0, 0, 0, 0, 16] ++
    [1, 5, 0, 0, 0, 0, 0, 5, 21, 0, 0, 0] ++ replicate 12 0 ++ [1, 2, 0, 0]), 64⟩

/-! ## Requests -/

/-- A handle that is out of range stands for no token. -/
inductive Request where
  | createToken (primary : Bool) (impersonationLevel : Int) (data : Block)
    (groupCount primaryGroup privCount : Int) (heap : Memory)
  | duplicateToken (primary : Bool) (impersonationLevel : Int) (handle : Nat) (heap : Memory)
  | filterToken (handle : Nat) (heap : Memory)
  | setTokenDefaultDacl (handle : Nat) (acl : Block) (heap : Memory)

/-- The loop over the groups of `create_token`: the size of their attributes and
SIDs. -/
def groupsLoop (memory : Memory) (dataSize : Nat) : (left sid groupsSize : Nat) → Option Nat
  | 0, _, groupsSize => some groupsSize
  | left + 1, sid, groupsSize =>
    if sidValidSize memory sid (dataSize - groupsSize) then
      groupsLoop memory dataSize left (sid + sidLen memory sid) (groupsSize + sidLen memory sid)
    else none

/-- The list for the token of a `create_token` request, if this is accepted.  The
data begin with the user, and the bytes of a list are those up to their end. -/
def requestDacl (data : Block) (groupCount primaryGroup privCount : Int) : Option Block :=
  let attrs := sidLen data.memory 0
  let size := data.size - attrs
  let groupsSize := dataSize (groupCount * 4)
  if !sidValidSize data.memory 0 data.size || size < groupsSize || primaryGroup < 0 ||
      primaryGroup ≥ groupCount then none
  else do
    let groupsSize ← groupsLoop data.memory size groupCount.toNat
      (attrs + groupCount.toNat * 4) groupsSize
    let size := size - groupsSize
    let privsSize := (privCount * 12 % 2 ^ 64).toNat
    let dacl := attrs + groupsSize + privsSize
    if size < privsSize then none
    else if size = privsSize then some createDefaultDacl
    else if aclIsValid data.memory dacl (size - privsSize) then
      some ⟨fun address => data.memory (dacl + address), data.size - dacl⟩
    else none

section

variable (server : Server) (primary : Bool) (impersonationLevel : Int) (heap : Memory)

/-- `create_token`. -/
def createToken (defaultDacl : Option Block) : Server where
  tokens := server.tokens ++ [{
    primary := primary
    impersonationLevel := if primary then -1 else impersonationLevel
    defaultDacl := defaultDacl.map fun dacl => memdup heap dacl dacl.aclSize }]
  overread := server.overread || defaultDacl.any fun dacl => dacl.size < dacl.aclSize

/-- `token_duplicate` refuses the level. -/
def badLevel (srcToken : Token) : Bool := !primary && (!validLevel impersonationLevel ||
    (!srcToken.primary && impersonationLevel > srcToken.impersonationLevel))

/-- `token_duplicate`. -/
def tokenDuplicate (srcToken : Token) : Server :=
  if badLevel primary impersonationLevel srcToken then server
  else createToken server primary impersonationLevel heap srcToken.defaultDacl

end

/-- `set_token_default_dacl`. -/
def setTokenDefaultDacl (server : Server) (handle : Nat) (acl : Block) (heap : Memory) : Server :=
  if acl.size ≠ 0 && !aclIsValid acl.memory 0 acl.size then server
  else
    match server.tokens[handle]? with
    | none => server
    | some token =>
      { server with
        tokens := server.tokens.set handle
          { token with
            defaultDacl := if acl.size ≠ 0 then some (memdup heap acl acl.size) else none } }

def step (server : Server) : Request → Server
  | .createToken primary impersonationLevel data groupCount primaryGroup privCount heap =>
    match requestDacl data groupCount primaryGroup privCount with
    | none => server
    | some dacl => createToken server primary impersonationLevel heap dacl
  | .duplicateToken primary impersonationLevel handle heap =>
    match server.tokens[handle]? with
    | none => server
    | some srcToken => tokenDuplicate server primary impersonationLevel heap srcToken
  | .filterToken handle heap =>
    match server.tokens[handle]? with
    | none => server
    | some srcToken =>
      tokenDuplicate server srcToken.primary srcToken.impersonationLevel heap srcToken
  | .setTokenDefaultDacl handle acl heap => setTokenDefaultDacl server handle acl heap

/-! ## Lists in their blocks -/

/-- Nothing behind the block is read: neither the field for the size nor the
bytes that it counts. -/
def Block.Whole (acl : Block) : Prop := 4 ≤ acl.size ∧ acl.aclSize ≤ acl.size

/-- All lists are whole, and were copied from as many bytes. -/
structure Consistent (server : Server) : Prop where
  inside : server.overread = false
  whole : ∀ token ∈ server.tokens, ∀ dacl ∈ token.defaultDacl, dacl.Whole

/-- As many bytes as the list says are there, and they include its size. -/
def Block.Trusted (acl : Block) : Prop := 4 ≤ acl.aclSize ∧ acl.aclSize ≤ acl.size

/-- The size of a list that is stored is right, and so is one that decides how
many bytes are copied. -/
def Honest (server : Server) : Request → Prop
  | .createToken _ _ data groupCount primaryGroup privCount _ =>
    ∀ dacl ∈ requestDacl data groupCount primaryGroup privCount, dacl.Trusted
  | .duplicateToken primary impersonationLevel handle _ =>
    ∀ srcToken ∈ server.tokens[handle]?, badLevel primary impersonationLevel srcToken = false →
      ∀ dacl ∈ srcToken.defaultDacl, dacl.Trusted
  | .filterToken handle _ =>
    ∀ srcToken ∈ server.tokens[handle]?,
      badLevel srcToken.primary srcToken.impersonationLevel srcToken = false →
      ∀ dacl ∈ srcToken.defaultDacl, dacl.Trusted
  | .setTokenDefaultDacl handle acl _ =>
    server.tokens[handle]?.isSome → aclIsValid acl.memory 0 acl.size → acl.aclSize ≤ acl.size

variable {server : Server} {heap : Memory}

theorem aclSize_memdup {acl : Block} {len : Nat} (header : 4 ≤ len) :
    (memdup heap acl len).aclSize = acl.aclSize := by
  have low : 2 < len := by omega
  have high : 2 + 1 < len := by omega
  simp only [Block.aclSize, memdup, word16, if_pos low, if_pos high]

theorem Consistent.createToken_iff (consistent : Consistent server) (primary : Bool)
    (impersonationLevel : Int) (defaultDacl : Option Block) :
    Consistent (createToken server primary impersonationLevel heap defaultDacl) ↔
      ∀ dacl ∈ defaultDacl, dacl.Trusted := by
  constructor
  · rintro ⟨inside, whole⟩ dacl rfl
    have copied := whole _ (mem_append_right _ (mem_singleton_self _)) _ rfl
    exact ⟨copied.1, by simpa [createToken, consistent.inside] using inside⟩
  · intro trusted
    refine ⟨?_, forall_mem_append.mpr ⟨consistent.whole, forall_mem_singleton.mpr ?_⟩⟩
    · cases defaultDacl with
      | none => simp [createToken, consistent.inside]
      | some dacl => simp [createToken, consistent.inside, (trusted dacl rfl).2]
    · intro copy made
      rcases Option.mem_map.mp made with ⟨dacl, given, rfl⟩
      have header := (trusted dacl given).1
      exact ⟨header, (aclSize_memdup header).le⟩

theorem Consistent.tokenDuplicate_iff (consistent : Consistent server) (primary : Bool)
    (impersonationLevel : Int) (srcToken : Token) :
    Consistent (tokenDuplicate server primary impersonationLevel heap srcToken) ↔
      (badLevel primary impersonationLevel srcToken = false →
        ∀ dacl ∈ srcToken.defaultDacl, dacl.Trusted) := by
  rw [tokenDuplicate]
  split_ifs with bad
  · simp [bad, consistent]
  · simp [bad, consistent.createToken_iff]

theorem Consistent.setTokenDefaultDacl_iff (consistent : Consistent server) (handle : Nat)
    (acl : Block) :
    Consistent (setTokenDefaultDacl server handle acl heap) ↔
      (server.tokens[handle]?.isSome → aclIsValid acl.memory 0 acl.size →
        acl.aclSize ≤ acl.size) := by
  have header : aclIsValid acl.memory 0 acl.size → 4 ≤ acl.size := by
    intro valid
    rw [aclIsValid] at valid
    split_ifs at valid with short
    exact (by decide : 4 ≤ sizeofAcl).trans (Nat.le_of_not_lt short)
  rw [setTokenDefaultDacl]
  split
  · simp_all
  next passed =>
  cases found : server.tokens[handle]? with
  | none => simp [consistent]
  | some token =>
    have valid : acl.size ≠ 0 → aclIsValid acl.memory 0 acl.size := by simpa using passed
    constructor
    · intro after _ valid
      have long := header valid
      have place := (List.getElem?_eq_some_iff.mp found).1
      have stored := after.whole _ (mem_set place _) _ (if_pos (by omega))
      exact (aclSize_memdup long).ge.trans stored.2
    · intro honest
      refine ⟨consistent.inside, fun other member dacl given => ?_⟩
      rcases mem_or_eq_of_mem_set member with old | rfl
      · exact consistent.whole other old dacl given
      · rcases Option.mem_ite_none_right.mp given with ⟨sent, stored⟩
        rw [← Option.some.inj stored]
        have long := header (valid sent)
        exact ⟨long, (aclSize_memdup long).le.trans (honest rfl (valid sent))⟩

/-- A request keeps the lists consistent exactly if it is honest. -/
theorem Consistent.step_iff (consistent : Consistent server) (request : Request) :
    Consistent (step server request) ↔ Honest server request := by
  cases request with
  | createToken primary impersonationLevel data groupCount primaryGroup privCount heap =>
    rw [step, Honest]
    cases requestDacl data groupCount primaryGroup privCount with
    | none => simp [consistent]
    | some dacl => simp [consistent.createToken_iff]
  | duplicateToken primary impersonationLevel handle heap =>
    rw [step, Honest]
    cases server.tokens[handle]? with
    | none => simp [consistent]
    | some srcToken => simp [consistent.tokenDuplicate_iff]
  | filterToken handle heap =>
    rw [step, Honest]
    cases server.tokens[handle]? with
    | none => simp [consistent]
    | some srcToken => simp [consistent.tokenDuplicate_iff]
  | setTokenDefaultDacl handle acl heap => exact consistent.setTokenDefaultDacl_iff handle acl

/-- Tokens as `token_create_admin` makes them. -/
def admins (count : Nat) : Server := ⟨replicate count ⟨true, -1, some createDefaultDacl⟩, false⟩

theorem consistent_admins (count : Nat) : Consistent (admins count) := by
  refine ⟨rfl, fun token member dacl given => ?_⟩
  rw [eq_of_mem_replicate member] at given
  rw [← Option.some.inj given]
  exact ⟨by decide, by decide⟩

/-- The lists of the tokens stay consistent exactly as long as all requests are
honest. -/
theorem default_dacls_consistent_iff (count : Nat) (requests : List Request) :
    Visits step Consistent (admins count) requests ↔ Along step Honest (admins count) requests :=
  visits_iff_along (fun _ => id) (fun _ request consistent => (consistent.step_iff request).mpr)
    (fun _ request consistent => (consistent.step_iff request).mp) (consistent_admins count)
    requests

/-- A list of eight bytes that gives its size as 65535 is stored as it is. -/
theorem short_list_claims_more : ¬ Visits step Consistent (admins 1)
    [.setTokenDefaultDacl 0 ⟨memoryOf [2, 0, 255, 255, 0, 0, 0, 0], 8⟩ (memoryOf [])] := by
  intro visits
  have honest := ((consistent_admins 1).step_iff _).mp visits.2
  exact absurd (honest rfl (by decide)) (by decide)

end WineRedRose.Tokens.DefaultDacl
