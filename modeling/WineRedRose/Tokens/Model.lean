import Mathlib.Data.BitVec
import Mathlib.Tactic

/-!
# Security tokens and the access check

This module embeds the parts of `server/token.c` that decide about access:
tokens with their groups and privileges, `token_duplicate` as `filter_token`
calls it, and `token_access_check`.

A security descriptor that has passed `sd_is_valid` is a record of its parts,
and an access control list is the list of the entries that `ace_first` and
`ace_next` walk over.  Allocations succeed.
-/

namespace WineRedRose.Tokens

/-- An access mask. -/
abbrev Mask := BitVec 32

/-! ## Constants -/

/-- `GENERIC_READ`. -/
def genericRead : Mask := 0x80000000
/-- `GENERIC_WRITE`. -/
def genericWrite : Mask := 0x40000000
/-- `GENERIC_EXECUTE`. -/
def genericExecute : Mask := 0x20000000
/-- `GENERIC_ALL`. -/
def genericAll : Mask := 0x10000000
/-- The four generic rights together. -/
def genericRights : Mask := genericRead ||| genericWrite ||| genericExecute ||| genericAll
/-- `MAXIMUM_ALLOWED`. -/
def maximumAllowed : Mask := 0x02000000
/-- `ACCESS_SYSTEM_SECURITY`. -/
def accessSystemSecurity : Mask := 0x01000000
/-- `STANDARD_RIGHTS_REQUIRED | SYNCHRONIZE`. -/
def ownerRights : Mask := 0x000f0000 ||| 0x00100000

/-- `SE_GROUP_ENABLED_BY_DEFAULT`. -/
def seGroupEnabledByDefault : BitVec 32 := 0x00000002
/-- `SE_GROUP_ENABLED`. -/
def seGroupEnabled : BitVec 32 := 0x00000004
/-- `SE_GROUP_USE_FOR_DENY_ONLY`. -/
def seGroupUseForDenyOnly : BitVec 32 := 0x00000010
/-- `INHERIT_ONLY_ACE`. -/
def inheritOnlyAce : BitVec 8 := 0x08
/-- `SE_PRIVILEGE_USED_FOR_ACCESS`. -/
def sePrivilegeUsedForAccess : BitVec 32 := 0x80000000

/-- The status codes of the modelled functions. -/
inductive Status where
  | success
  | genericNotMapped
  | invalidSecurityDescr
  | bufferTooSmall
  | privilegeNotHeld
  | accessDenied
  | badImpersonationLevel
deriving DecidableEq, Repr

/-! ## Data -/

/-- `struct sid`; `sub_count` is the length of `subAuth`. -/
structure Sid where
  revision : BitVec 8
  idAuth : BitVec 48
  subAuth : List (BitVec 32)
deriving DecidableEq, Repr

/-- `equal_sid`. -/
def equalSid (sid1 sid2 : Sid) : Bool := sid1.subAuth.length = sid2.subAuth.length && sid1 = sid2

/-- `struct luid`. -/
structure Luid where
  lowPart : BitVec 32
  highPart : BitVec 32
deriving DecidableEq, Repr

/-- `struct luid_attr`. -/
structure LuidAttr where
  luid : Luid
  attrs : BitVec 32
deriving DecidableEq, Repr

/-- `SeSecurityPrivilege`. -/
def seSecurityPrivilege : Luid := ⟨8, 0⟩

/-- The types that `acl_is_valid` lets pass. -/
inductive AceType where
  | accessAllowed
  | accessDenied
  | systemAudit
  | systemAlarm
  | systemMandatoryLabel
deriving DecidableEq, Repr

/-- `struct ace` and the SID behind it. -/
structure Ace where
  type : AceType
  flags : BitVec 8
  mask : Mask
  sid : Sid
deriving DecidableEq, Repr

/-- `struct security_descriptor`; a part of length zero is missing. -/
structure SecurityDescriptor where
  owner : Option Sid
  group : Option Sid
  daclPresent : Bool
  dacl : Option (List Ace)
deriving DecidableEq, Repr

/-- `generic_map_t`. -/
structure GenericMap where
  read : Mask
  write : Mask
  exec : Mask
  all : Mask
deriving DecidableEq, Repr

/-- `struct group`. -/
structure Group where
  attrs : BitVec 32
  sid : Sid
deriving DecidableEq, Repr

/-- `struct privilege`. -/
structure Privilege where
  luid : Luid
  enabled : Bool
  byDefault : Bool
deriving DecidableEq, Repr

/--
`struct token`.  `owner` and `primaryGroup` point to groups of the token and
are indices here.
-/
structure Token where
  tokenId : Luid
  modifiedId : Luid
  privileges : List Privilege
  groups : List Group
  user : Sid
  owner : Nat
  primaryGroup : Nat
  primary : Bool
  sessionId : BitVec 32
  defaultDacl : Option (List Ace)
  impersonationLevel : Int
  elevation : Int
deriving DecidableEq, Repr

/-- `map_access`. -/
def mapAccess (access : Mask) (mapping : GenericMap) : Mask :=
  let access := if access &&& genericRead ≠ 0 then access ||| mapping.read else access
  let access := if access &&& genericWrite ≠ 0 then access ||| mapping.write else access
  let access :=
    if access &&& genericExecute ≠ 0 then access ||| mapping.exec
    else access
  let access := if access &&& genericAll ≠ 0 then access ||| mapping.all else access
  access &&& ~~~genericRights

/-! ## Privileges and groups -/

/-- `token_find_privilege`. -/
def tokenFindPrivilege (token : Token) (luid : Luid) (enabledOnly : Bool) :
    Option Privilege :=
  match token.privileges.find? fun privilege => luid = privilege.luid with
  | some privilege => if enabledOnly && !privilege.enabled then none else some privilege
  | none => none

/--
`token_check_privileges`, with the updated attributes of the required
privileges.
-/
def tokenCheckPrivileges (token : Token) (allRequired : Bool)
    (reqprivs : List LuidAttr) : Bool × List LuidAttr :=
  let held (required : LuidAttr) : Bool :=
    match tokenFindPrivilege token required.luid true with
    | some privilege => privilege.enabled
    | none => false
  let enabledCount := reqprivs.countP held
  let usedprivs := reqprivs.map fun required =>
    if held required then
      { required with attrs := required.attrs ||| sePrivilegeUsedForAccess }
    else required
  (if allRequired then enabledCount = reqprivs.length else enabledCount > 0, usedprivs)

/-- One round of the loop of `token_sid_present`. -/
def groupPresent (sid : Sid) (deny : Bool) (group : Group) : Bool :=
  if group.attrs &&& seGroupEnabled = 0 then false
  else if !deny && group.attrs &&& seGroupUseForDenyOnly ≠ 0 then false
  else equalSid group.sid sid

/-- `token_sid_present`. -/
def tokenSidPresent (token : Token) (sid : Sid) (deny : Bool) : Bool :=
  equalSid token.user sid || token.groups.any (groupPresent sid deny)

/-! ## Duplicating tokens -/

/-- `filter_group`. -/
def filterGroup (group : Group) (filter : List Sid) : Bool :=
  filter.any fun sid => equalSid group.sid sid

/-- `filter_privilege`. -/
def filterPrivilege (privilege : Privilege) (filter : List LuidAttr) : Bool :=
  filter.any fun attr => privilege.luid = attr.luid

/-- The copy of one group in `token_duplicate`. -/
def copyGroup (removeGroups : List Sid) (group : Group) : Group :=
  if filterGroup group removeGroups then
    { group with
      attrs := (group.attrs &&& ~~~(seGroupEnabled ||| seGroupEnabledByDefault)) |||
          seGroupUseForDenyOnly }
  else group

/-- `privilege_add`, as the entry that is appended. -/
def privilegeAdd (luid : Luid) (enabled : Bool) : Privilege := ⟨luid, enabled, enabled⟩

/-- The impersonation levels from `SecurityAnonymous` to `SecurityDelegation`. -/
def validLevel (level : Int) : Bool := 0 ≤ level && level ≤ 3

/--
`token_duplicate`, without a security descriptor for the new token object.
`luids` supplies the values of `allocate_luid`.
-/
def tokenDuplicate (srcToken : Token) (primary : Bool)
    (impersonationLevel : Int) (removePrivs : List LuidAttr)
    (removeGroups : List Sid) (luids : Nat → Luid) : Except Status Token :=
  if !primary && (!validLevel impersonationLevel || (!srcToken.primary &&
        impersonationLevel > srcToken.impersonationLevel)) then
    .error .badImpersonationLevel
  else
    .ok
      { tokenId := luids 0
        modifiedId :=
          if primary || impersonationLevel = srcToken.impersonationLevel then srcToken.modifiedId
          else luids 1
        privileges := (srcToken.privileges.filter fun privilege =>
            !filterPrivilege privilege removePrivs).map fun privilege =>
              privilegeAdd privilege.luid privilege.enabled
        groups := srcToken.groups.map (copyGroup removeGroups)
        user := srcToken.user
        owner := srcToken.primaryGroup
        primaryGroup := srcToken.primaryGroup
        primary := primary
        sessionId := srcToken.sessionId
        defaultDacl := srcToken.defaultDacl
        impersonationLevel := if primary then -1 else impersonationLevel
        elevation := srcToken.elevation }

/-- The token that the `filter_token` request creates. -/
def filterToken (srcToken : Token) (filterPrivileges : List LuidAttr)
    (filterGroups : List Sid) (luids : Nat → Luid) : Except Status Token :=
  tokenDuplicate srcToken srcToken.primary srcToken.impersonationLevel
    filterPrivileges filterGroups luids

/-! ## The access check -/

/--
What `token_access_check` returns: its return value and the output
parameters.  `status` is `none` where the source leaves it unset, and
`privCount` is `none` if the caller passed no pointer.
-/
structure AccessCheck where
  ret : Status
  grantedAccess : Mask
  status : Option Status
  privCount : Option Nat
  privs : List LuidAttr
deriving DecidableEq, Repr

/--
The loop over the access control list, up to the label `done`: the current
and the denied access.  `granted_access` is zero all the time, so the test at
the end of the body only stops a request for nothing.
-/
def daclLoop (token : Token) (desiredAccess : Mask) (mapping : GenericMap) :
    List Ace → Mask → Mask → Mask × Mask
  | [], currentAccess, deniedAccess => (currentAccess, deniedAccess)
  | ace :: aces, currentAccess, deniedAccess =>
    let next (currentAccess deniedAccess : Mask) : Mask × Mask :=
      if desiredAccess = 0 then (currentAccess, deniedAccess)
      else daclLoop token desiredAccess mapping aces currentAccess deniedAccess
    if ace.flags &&& inheritOnlyAce ≠ 0 then
      daclLoop token desiredAccess mapping aces currentAccess deniedAccess
    else
      match ace.type with
      | .accessDenied =>
        if tokenSidPresent token ace.sid true then
          let access := mapAccess ace.mask mapping
          if desiredAccess &&& maximumAllowed ≠ 0 then next currentAccess (deniedAccess ||| access)
          else
            let deniedAccess := deniedAccess ||| (access &&& ~~~currentAccess)
            if desiredAccess &&& access ≠ 0 then (currentAccess, deniedAccess)
            else next currentAccess deniedAccess
        else next currentAccess deniedAccess
      | .accessAllowed =>
        if tokenSidPresent token ace.sid false then
          let access := mapAccess ace.mask mapping
          if desiredAccess &&& maximumAllowed ≠ 0 then next (currentAccess ||| access) deniedAccess
          else next (currentAccess ||| (access &&& ~~~deniedAccess)) deniedAccess
        else next currentAccess deniedAccess
      | _ => next currentAccess deniedAccess

/-- The code from the label `done` on. -/
def finishCheck (desiredAccess currentAccess deniedAccess : Mask)
    (privCount : Option Nat) (privs : List LuidAttr) : AccessCheck :=
  let grantedAccess :=
    if desiredAccess &&& maximumAllowed ≠ 0 then currentAccess &&& ~~~deniedAccess
    else if currentAccess &&& desiredAccess = desiredAccess then currentAccess &&& desiredAccess
    else 0
  { ret := .success
    grantedAccess := grantedAccess
    status := some (if grantedAccess ≠ 0 then .success else .accessDenied)
    privCount := privCount
    privs := privs }

/-- Steps 3 and 4 of `token_access_check`: the owner and the list. -/
def checkOwnerAndDacl (token : Token) (owner : Sid) (dacl : List Ace)
    (desiredAccess : Mask) (mapping : GenericMap) (currentAccess : Mask)
    (privCount : Option Nat) (privs : List LuidAttr) : AccessCheck :=
  let isOwner := tokenSidPresent token owner false
  let currentAccess := if isOwner then currentAccess ||| ownerRights else currentAccess
  if isOwner && desiredAccess = currentAccess then
    ⟨.success, currentAccess, some .success, privCount, privs⟩
  else
    let (currentAccess, deniedAccess) := daclLoop token desiredAccess mapping dacl currentAccess 0
    finishCheck desiredAccess currentAccess deniedAccess privCount privs

/--
`token_access_check`.  `privCount` is the room for privileges, or `none` if
the caller does not ask for them.
-/
def tokenAccessCheck (token : Token) (sd : SecurityDescriptor)
    (desiredAccess : Mask) (privCount : Option Nat) (mapping : GenericMap) :
    AccessCheck :=
  let noPrivs := privCount.map fun _ => 0
  if desiredAccess &&& genericRights ≠ 0 then ⟨.genericNotMapped, 0, none, noPrivs, []⟩
  else
    match sd.owner, sd.group with
    | some owner, some _ =>
      match sd.daclPresent, sd.dacl with
      | true, some dacl =>
        if desiredAccess &&& accessSystemSecurity ≠ 0 then
          let (held, usedprivs) := tokenCheckPrivileges token true [⟨seSecurityPrivilege, 0⟩]
          if held then
            if privCount = some 0 then ⟨.bufferTooSmall, 0, none, some 1, []⟩
            else
              let privCount := privCount.map fun _ => 1
              let privs := if privCount.isSome then usedprivs else []
              let currentAccess := accessSystemSecurity
              if desiredAccess = currentAccess then
                ⟨.success, currentAccess, some .success, privCount, privs⟩
              else
                checkOwnerAndDacl token owner dacl desiredAccess mapping
                  currentAccess privCount privs
          else ⟨.success, 0, some .privilegeNotHeld, noPrivs, []⟩
        else checkOwnerAndDacl token owner dacl desiredAccess mapping 0 noPrivs []
      | _, _ =>
        { ret := .success
          grantedAccess :=
            if desiredAccess &&& maximumAllowed ≠ 0 then mapping.all
            else desiredAccess
          status := some .success
          privCount := noPrivs
          privs := [] }
    | _, _ => ⟨.invalidSecurityDescr, 0, none, noPrivs, []⟩

end WineRedRose.Tokens
