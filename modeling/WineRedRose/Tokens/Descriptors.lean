import Mathlib.Tactic

/-!
# Security descriptors in memory

A security descriptor comes from a client as bytes, and `sd_is_valid` looks
through them once before anything walks over them.  What lies behind the
descriptor is memory like any other: the functions read it when they are led
there.

An entry of an access control list with a size below that of its own header
passes the check of its SID, because the room left for the SID is computed
without a sign.  Nothing else is let out of the descriptor.
-/

namespace WineRedRose.Tokens

open Option

/-- The bytes from the start of a descriptor on. -/
abbrev Memory := Nat → UInt8

/-- An `unsigned short` in memory. -/
def word16 (memory : Memory) (address : Nat) : Nat :=
  (memory address).toNat + 2 ^ 8 * (memory (address + 1)).toNat

/-- An `unsigned int` in memory. -/
def word32 (memory : Memory) (address : Nat) : Nat :=
  word16 memory address + 2 ^ 16 * word16 memory (address + 2)

/-- A difference of sizes as a `data_size_t`. -/
def dataSize (size : Int) : Nat := (size % 2 ^ 32).toNat

/-! ## SIDs -/

/-- `offsetof( struct sid, sub_auth[count] )`. -/
def sidOffset (count : Nat) : Nat := 8 + 4 * count

/-- `sid_len`. -/
def sidLen (memory : Memory) (sid : Nat) : Nat := sidOffset (memory (sid + 1)).toNat

/-- `sid_valid_size`. -/
def sidValidSize (memory : Memory) (sid size : Nat) : Bool :=
  size ≥ sidOffset 0 && size ≥ sidLen memory sid

/-! ## Access control lists -/

/-- `sizeof(struct acl)`. -/
def sizeofAcl : Nat := 8

/-- `sizeof(struct ace)`. -/
def sizeofAce : Nat := 8

/-- `MAX_ACL_LEN`. -/
def maxAclLen : Nat := 65535

section

variable (memory : Memory) (ace : Nat)

/-- The `count` of a list. -/
def aclCount (acl : Nat) : Nat := word16 memory (acl + 4)

/-- The `size` of an entry. -/
def aceSize : Nat := word16 memory (ace + 2)

/-- The SID behind the header of an entry. -/
def aceSid (ace : Nat) : Nat := ace + sizeofAce

/-- `ace_first`. -/
def aceFirst (acl : Nat) : Nat := acl + sizeofAcl

/-- `ace_next`. -/
def aceNext : Nat := ace + aceSize memory ace

/-- The types of entries that are let pass. -/
def knownAceType (type : UInt8) : Bool :=
  type = 1 || type = 0 || type = 2 || type = 3 || type = 0x11

/-- The loop of `acl_is_valid`, with the number of entries left. -/
def aclLoop (memory : Memory) : (left ace size : Nat) → Bool
  | 0, _, _ => true
  | left + 1, ace, size =>
    if size < sizeofAce || size < aceSize memory ace then false
    else if !knownAceType (memory ace) then false
    else if !sidValidSize memory (aceSid ace) (dataSize (aceSize memory ace - sizeofAce)) then false
    else aclLoop memory left (aceNext memory ace) (size - aceSize memory ace)

/-- `acl_is_valid`. -/
def aclIsValid (acl size : Nat) : Bool :=
  if size < sizeofAcl then false
  else aclLoop memory (aclCount memory acl) (aceFirst acl) (min size maxAclLen - sizeofAcl)

/-- The entries from one on, as every loop over a list meets them. -/
def acesFrom (memory : Memory) : (left ace : Nat) → List Nat
  | 0, _ => []
  | left + 1, ace => ace :: acesFrom memory left (aceNext memory ace)

/-- The entries of a list. -/
def aces (acl : Nat) : List Nat := acesFrom memory (aclCount memory acl) (aceFirst acl)

end

/-! ## Descriptors -/

/-- `sizeof(struct security_descriptor)`. -/
def sizeofDescriptor : Nat := 20

section Fields

variable (memory : Memory)

def ownerLen : Nat := word32 memory 4

def groupLen : Nat := word32 memory 8

def saclLen : Nat := word32 memory 12

def daclLen : Nat := word32 memory 16

/-- `sd_get_owner`. -/
def sdGetOwner : Option Nat := if ownerLen memory ≠ 0 then some sizeofDescriptor else none

/-- `sd_get_group`. -/
def sdGetGroup : Option Nat :=
  if groupLen memory ≠ 0 then some (sizeofDescriptor + ownerLen memory) else none

/-- `sd_get_sacl`. -/
def sdGetSacl : Option Nat :=
  if saclLen memory ≠ 0 then some (sizeofDescriptor + ownerLen memory + groupLen memory)
  else none

/-- `sd_get_dacl`. -/
def sdGetDacl : Option Nat :=
  if daclLen memory ≠ 0 then
    some (sizeofDescriptor + ownerLen memory + groupLen memory + saclLen memory)
  else none

/-- The check of a SID of a descriptor: its length, its place and itself. -/
def sidPartIsValid (sid : Option Nat) (length offset size : Nat) : Bool :=
  !(length ≥ sidOffset 255 || offset + length > size) &&
    sid.all fun sid => sidValidSize memory sid length

/-- The check of a list of a descriptor. -/
def aclPartIsValid (acl : Option Nat) (length offset size : Nat) : Bool :=
  !(length ≥ maxAclLen || offset + length > size) && acl.all fun acl => aclIsValid memory acl length

/-- `sd_is_valid`. -/
def sdIsValid (size : Nat) : Bool :=
  let offset := sizeofDescriptor
  !decide (size < offset) &&
    sidPartIsValid memory (sdGetOwner memory) (ownerLen memory) offset size &&
    let offset := offset + ownerLen memory
    sidPartIsValid memory (sdGetGroup memory) (groupLen memory) offset size &&
    let offset := offset + groupLen memory
    aclPartIsValid memory (sdGetSacl memory) (saclLen memory) offset size &&
    let offset := offset + saclLen memory
    aclPartIsValid memory (sdGetDacl memory) (daclLen memory) offset size

/-- The lists of a descriptor. -/
def sdAcls : List Nat := (sdGetSacl memory).toList ++ (sdGetDacl memory).toList

end Fields

/-! ## Walking over a descriptor -/

/-- The SID lies inside the first bytes. -/
def SidInside (memory : Memory) (size sid : Nat) : Prop := sid + sidLen memory sid ≤ size

instance (memory : Memory) (size sid : Nat) :
    Decidable (SidInside memory size sid) :=
  inferInstanceAs (Decidable (_ ≤ _))

/-- Everything that is reached lies inside the first bytes: the SIDs of the
owner and the group, and the header and the SID of each entry. -/
structure SafeToWalk (memory : Memory) (size : Nat) : Prop where
  owner : ∀ sid ∈ sdGetOwner memory, SidInside memory size sid
  group : ∀ sid ∈ sdGetGroup memory, SidInside memory size sid
  header : ∀ acl ∈ sdAcls memory, ∀ ace ∈ aces memory acl, ace + sizeofAce ≤ size
  sid : ∀ acl ∈ sdAcls memory, ∀ ace ∈ aces memory acl, SidInside memory size (aceSid ace)

variable {size length : Nat} {memory : Memory}

theorem word16_lt (memory : Memory) (address : Nat) : word16 memory address < 2 ^ 16 := by
  have low := (memory address).toNat_lt
  have high := (memory (address + 1)).toNat_lt
  rw [word16]
  omega

theorem sidValidSize_iff (memory : Memory) (sid size : Nat) :
    sidValidSize memory sid size = true ↔ sidLen memory sid ≤ size := by
  rw [sidValidSize, Bool.and_eq_true, decide_eq_true_eq, decide_eq_true_eq]
  constructor
  · exact fun both => both.2
  · intro enough
    refine ⟨?_, enough⟩
    rw [sidLen, sidOffset] at enough
    rw [sidOffset]
    omega

/-- The loop keeps every header inside, and every SID behind a header that the
entry has room for. -/
theorem aclLoop_inside {left ace : Nat} (valid : aclLoop memory left ace size = true) :
    ∀ reached ∈ acesFrom memory left ace, reached + sizeofAce ≤ ace + size ∧
      (sizeofAce ≤ aceSize memory reached → SidInside memory (ace + size) (aceSid reached)) := by
  induction left generalizing ace size with
  | zero => simp [acesFrom]
  | succ left ih =>
    rw [aclLoop] at valid
    split_ifs at valid with short unknown wrong
    rw [Bool.or_eq_true, decide_eq_true_eq, decide_eq_true_eq, not_or] at short
    rw [Bool.not_eq_true', Bool.not_eq_false, sidValidSize_iff, dataSize] at wrong
    intro reached member
    rcases List.mem_cons.mp member with rfl | later
    · have small := word16_lt memory (reached + 2)
      refine ⟨by omega, fun full => ?_⟩
      rw [SidInside, aceSid] at *
      omega
    · have same : aceNext memory ace + (size - aceSize memory ace) = ace + size := by
        rw [aceNext]
        omega
      rw [← same]
      exact ih valid reached later

theorem aclIsValid_inside {acl : Nat} (valid : aclIsValid memory acl length = true)
    (within : acl + length ≤ size) : ∀ ace ∈ aces memory acl, ace + sizeofAce ≤ size ∧
      (sizeofAce ≤ aceSize memory ace → SidInside memory size (aceSid ace)) := by
  rw [aclIsValid] at valid
  split_ifs at valid with short
  intro ace member
  rcases aclLoop_inside valid ace member with ⟨header, sid⟩
  have bound : aceFirst acl + (min length maxAclLen - sizeofAcl) ≤ size := by
    rw [aceFirst]
    omega
  exact ⟨header.trans bound, fun full => (sid full).trans bound⟩

/-! ## A valid descriptor -/

theorem sidPartIsValid_inside {part : Option Nat} {offset : Nat}
    (valid : sidPartIsValid memory part length offset size = true)
    (place : ∀ sid ∈ part, sid = offset) : ∀ sid ∈ part, SidInside memory size sid := by
  rw [sidPartIsValid, Bool.and_eq_true, Bool.not_eq_true', Bool.or_eq_false_iff,
    decide_eq_false_iff_not, decide_eq_false_iff_not] at valid
  rcases valid with ⟨⟨-, within⟩, whole⟩
  intro sid present
  rw [mem_def.mp present, all_some, sidValidSize_iff] at whole
  have here := place sid present
  rw [SidInside]
  omega

theorem aclPartIsValid_inside {part : Option Nat} {offset : Nat}
    (valid : aclPartIsValid memory part length offset size = true)
    (place : ∀ acl ∈ part, acl = offset) : ∀ acl ∈ part, ∀ ace ∈ aces memory acl, ace + sizeofAce ≤
      size ∧ (sizeofAce ≤ aceSize memory ace → SidInside memory size (aceSid ace)) := by
  rw [aclPartIsValid, Bool.and_eq_true, Bool.not_eq_true', Bool.or_eq_false_iff,
    decide_eq_false_iff_not, decide_eq_false_iff_not] at valid
  rcases valid with ⟨⟨-, within⟩, whole⟩
  intro acl present
  rw [mem_def.mp present, all_some] at whole
  have here := place acl present
  exact aclIsValid_inside whole (by omega)

/-- A part that is there stands where it is looked for. -/
theorem mem_part {present : Prop} [Decidable present] {place found : Nat}
    (here : found ∈ if present then some place else none) : found = place := by
  split_ifs at here
  · exact (some.inj here).symm
  · cases here

theorem sdIsValid_inside (valid : sdIsValid memory size = true) :
    (∀ sid ∈ sdGetOwner memory, SidInside memory size sid) ∧
      (∀ sid ∈ sdGetGroup memory, SidInside memory size sid) ∧
      ∀ acl ∈ sdAcls memory, ∀ ace ∈ aces memory acl, ace + sizeofAce ≤ size ∧
      (sizeofAce ≤ aceSize memory ace → SidInside memory size (aceSid ace)) := by
  simp only [sdIsValid, Bool.and_eq_true] at valid
  rcases valid with ⟨⟨-, owner⟩, group, sacl, dacl⟩
  refine ⟨sidPartIsValid_inside owner fun _ here => mem_part here,
    sidPartIsValid_inside group fun _ here => mem_part here, ?_⟩
  intro acl member
  rcases List.mem_append.mp member with first | second
  · exact aclPartIsValid_inside sacl (fun _ here => mem_part here) acl (mem_toList.mp first)
  · exact aclPartIsValid_inside dacl (fun _ here => mem_part here) acl (mem_toList.mp second)

/-- A valid descriptor is safe to walk over exactly when no entry that is
smaller than its own header has a SID that reaches outside. -/
theorem valid_descriptor_safe_iff (memory : Memory) (size : Nat)
    (valid : sdIsValid memory size = true) :
    SafeToWalk memory size ↔ ∀ acl ∈ sdAcls memory, ∀ ace ∈ aces memory acl, aceSize memory ace <
      sizeofAce → SidInside memory size (aceSid ace) := by
  rcases sdIsValid_inside valid with ⟨owner, group, entries⟩
  constructor
  · exact fun safe acl listed ace reached _ => safe.sid acl listed ace reached
  · intro small
    refine ⟨owner, group, fun acl listed ace reached => (entries acl listed ace reached).1,
      fun acl listed ace reached => ?_⟩
    rcases Nat.lt_or_ge (aceSize memory ace) sizeofAce with short | full
    · exact small acl listed ace reached short
    · exact (entries acl listed ace reached).2 full

/-- Memory that starts with the given bytes. -/
def memoryOf (bytes : List UInt8) : Memory := fun address => bytes.getD address 0

/-- A descriptor with one entry in its list, of the given size. -/
def oneEntry (size : UInt8) : Memory :=
  memoryOf ([0, 0, 0, 0] ++ [0, 0, 0, 0] ++ [0, 0, 0, 0] ++ [0, 0, 0, 0] ++ [24, 0, 0, 0] ++
    [2, 0, 24, 0, 1, 0, 0, 0] ++ [0, 0, size, 0, 1, 0, 0, 0] ++ [1, 0, 0, 0, 0, 0, 0, 5])

/-- An entry of the right size is safe. -/
theorem valid_descriptor_safe_one_entry : SafeToWalk (oneEntry 16) 44 := by
  apply (valid_descriptor_safe_iff (oneEntry 16) 44 (by decide)).mpr
  decide

/-- A descriptor whose last eight bytes are the header of an entry of size
seven is valid, and the SID of the entry lies behind it. -/
theorem short_entry_is_not_safe :
    let memory := memoryOf ([0, 0, 0, 0] ++ [0, 0, 0, 0] ++ [0, 0, 0, 0] ++
      [0, 0, 0, 0] ++ [16, 0, 0, 0] ++ [2, 0, 16, 0, 1, 0, 0, 0] ++
      [0, 0, 7, 0, 1, 0, 0, 0])
    sdIsValid memory 36 = true ∧ ¬ SafeToWalk memory 36 := by
  refine ⟨by decide, fun safe => ?_⟩
  have inside := safe.sid 20 (by decide) 28 (by decide)
  revert inside
  decide

end WineRedRose.Tokens
