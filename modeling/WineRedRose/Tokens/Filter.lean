import WineRedRose.Tokens.AccessCheck

/-!
# Restricted tokens

`filter_token` copies a token, drops privileges and marks groups as usable
for deny entries only.  The copy of such a group is no longer enabled either,
and `token_sid_present` skips groups that are not enabled, so for a
restricted token the deny entries of these groups are gone as well.  This
module says what that means for the access check.
-/

namespace WineRedRose.Tokens

open Library.AccessRules List Set

/-! ## What the copy keeps -/

@[simp]
theorem equalSid_eq (sid1 sid2 : Sid) : equalSid sid1 sid2 = decide (sid1 = sid2) := by
  by_cases same : sid1 = sid2
  · simp [equalSid, same]
  · simp [equalSid, same]

/-- The SID is the user's or not on the list of removed groups. -/
def keepsSid (token : Token) (removeGroups : List Sid) (sid : Sid) : Bool :=
  token.user = sid || !removeGroups.contains sid

/-- The token holds the enabled `SeSecurityPrivilege`. -/
def holdsSecurityPrivilege (token : Token) : Bool :=
  (tokenCheckPrivileges token true [⟨seSecurityPrivilege, 0⟩]).1

variable {filtered : Token} {removePrivs : List LuidAttr} {luids : Nat → Luid}

section Copy

variable {src : Token}
variable {removeGroups : List Sid}

theorem filterToken_fields
    (copied : filterToken src removePrivs removeGroups luids = .ok filtered) :
    filtered.user = src.user ∧ filtered.groups = src.groups.map (copyGroup removeGroups) ∧
      filtered.privileges = (src.privileges.filter fun privilege =>
          !filterPrivilege privilege removePrivs).map fun privilege =>
            privilegeAdd privilege.luid privilege.enabled := by
  rw [filterToken, tokenDuplicate] at copied
  split at copied
  · cases copied
  · cases copied
    exact ⟨rfl, rfl, rfl⟩

/-- A group that is removed is no longer enabled. -/
theorem removedAttrs_disabled (attrs : BitVec 32) :
    ((attrs &&& ~~~(seGroupEnabled ||| seGroupEnabledByDefault)) |||
      seGroupUseForDenyOnly) &&& seGroupEnabled = 0 := by
  apply bits_injective
  have apart : bits seGroupUseForDenyOnly ∩ bits seGroupEnabled = ∅ := by
    rw [← bits_and, ← bits_zero]
    rfl
  rw [bits_and, bits_or, bits_and_not, bits_or, union_inter_distrib_right,
    apart, union_empty, bits_zero, eq_empty_iff_forall_notMem]
  rintro bit ⟨⟨-, cleared⟩, enabled⟩
  exact cleared (.inl enabled)

theorem filterGroup_eq (group : Group) (filter : List Sid) :
    filterGroup group filter = filter.contains group.sid := by
  rw [Bool.eq_iff_iff]
  simp [filterGroup]

/-- The copy of a group counts for a SID unless the SID is removed. -/
theorem groupPresent_copyGroup (sid : Sid) (deny : Bool) (group : Group) :
    groupPresent sid deny (copyGroup removeGroups group) =
      (groupPresent sid deny group && !removeGroups.contains sid) := by
  rw [copyGroup, filterGroup_eq]
  by_cases same : group.sid = sid
  · subst same
    cases listed : removeGroups.contains group.sid with
    | true =>
      rw [if_pos rfl, groupPresent, if_pos (removedAttrs_disabled _)]
      simp
    | false => simp
  · have absent : ∀ attrs, groupPresent sid deny ⟨attrs, group.sid⟩ = false := by
      intro attrs
      simp [groupPresent, same]
    have here : groupPresent sid deny group = false := absent group.attrs
    rw [here, Bool.false_and]
    split
    · exact absent _
    · exact here

section

variable (copied : filterToken src removePrivs removeGroups luids = .ok filtered)
include copied

/-- The SIDs of the copy are those of the source that are kept. -/
theorem tokenSidPresent_filterToken (sid : Sid) (deny : Bool) : tokenSidPresent filtered sid deny =
      (tokenSidPresent src sid deny && keepsSid src removeGroups sid) := by
  rcases filterToken_fields copied with ⟨user, groups, -⟩
  have copies : filtered.groups.any (groupPresent sid deny) =
      (src.groups.any (groupPresent sid deny) && !removeGroups.contains sid) := by
    rw [groups, any_map]
    induction src.groups with
    | nil => rfl
    | cons group rest ih =>
      simp only [any_cons, Function.comp_apply,
        groupPresent_copyGroup, ih, Bool.and_or_distrib_right]
  simp only [tokenSidPresent, keepsSid, user, copies, equalSid_eq]
  cases decide (src.user = sid) <;> simp

omit copied in
/-- The privilege is held if the first entry for it is enabled. -/
theorem holdsSecurityPrivilege_eq (token : Token) : holdsSecurityPrivilege token =
      (token.privileges.find? fun privilege =>
        seSecurityPrivilege = privilege.luid).any Privilege.enabled := by
  simp only [holdsSecurityPrivilege, tokenCheckPrivileges, tokenFindPrivilege]
  cases found : token.privileges.find? fun privilege =>
      decide (seSecurityPrivilege = privilege.luid) with
  | none => simp [found]
  | some privilege => cases enabled : privilege.enabled <;> simp [found, enabled]

/-- The copy holds a privilege that is not on the list of removed ones. -/
theorem holdsSecurityPrivilege_filterToken :
    holdsSecurityPrivilege filtered = (holdsSecurityPrivilege src &&
        !removePrivs.any fun attr => seSecurityPrivilege = attr.luid) := by
  rcases filterToken_fields copied with ⟨-, -, privileges⟩
  rw [holdsSecurityPrivilege_eq, holdsSecurityPrivilege_eq, privileges]
  induction src.privileges with
  | nil => rfl
  | cons privilege rest ih =>
    by_cases same : seSecurityPrivilege = privilege.luid
    · have removed : filterPrivilege privilege removePrivs =
          removePrivs.any fun attr => seSecurityPrivilege = attr.luid := by
        rw [filterPrivilege, ← same]
      cases listed : removePrivs.any fun attr => decide (seSecurityPrivilege = attr.luid) with
      | true =>
        rw [listed] at removed ih
        simpa [removed] using ih
      | false =>
        rw [listed] at removed
        simp [removed, same, privilegeAdd]
    · cases removed : filterPrivilege privilege removePrivs <;>
        simpa [removed, same, privilegeAdd] using ih

/-- The rules of the copy are those of the SIDs that are kept. -/
theorem rules_filterToken (mapping : GenericMap) (dacl : List Ace) : rules filtered mapping dacl =
      (rules src mapping dacl).filter fun rule => keepsSid src removeGroups rule.holder := by
  have same : ∀ ace, applies filtered ace =
      (keepsSid src removeGroups ace.sid && applies src ace) := by
    intro ace
    cases kind : ace.type <;>
      simp [applies, kind, tokenSidPresent_filterToken copied, Bool.and_comm, Bool.and_left_comm]
  rw [rules, rules, filter_map, filter_filter]
  congr 1
  apply filter_congr
  intro ace _
  rw [same]
  rfl

/-- The owner's rights of the copy. -/
theorem startAccess_filterToken (owner : Sid) (extra : Mask) : startAccess filtered owner extra =
      if keepsSid src removeGroups owner then startAccess src owner extra
      else extra := by
  rw [startAccess, tokenSidPresent_filterToken copied, startAccess]
  cases keepsSid src removeGroups owner <;> simp

end

end Copy

/-! ## What the check grants to the copy -/

/-- The check gets to the access control list. -/
def ReachesDacl (token : Token) (sd : SecurityDescriptor)
    (desiredAccess : Mask) (privCount : Option Nat)
    (owner : Sid) (dacl : List Ace) : Prop :=
  desiredAccess &&& genericRights = 0 ∧ sd.owner = some owner ∧ sd.group.isSome = true ∧
    sd.daclPresent = true ∧ sd.dacl = some dacl ∧
    (desiredAccess &&& accessSystemSecurity ≠ 0 →
      holdsSecurityPrivilege token = true ∧ privCount ≠ some 0)

/-- The access granted for the privilege, if it is asked for. -/
def systemAccess (desiredAccess : Mask) : Mask :=
  if desiredAccess &&& accessSystemSecurity ≠ 0 then accessSystemSecurity
  else 0

variable {owner : Sid} {desiredAccess : Mask} {mapping : GenericMap} {privCount : Option Nat}

theorem checkOwnerAndDacl_grantedAccess (token : Token) (dacl : List Ace) (extra : Mask)
    (privs : List LuidAttr) :
    (checkOwnerAndDacl token owner dacl desiredAccess mapping extra privCount privs).grantedAccess =
      (checkOwnerAndDacl token owner dacl desiredAccess mapping extra none []).grantedAccess := by
  simp only [checkOwnerAndDacl]
  rw [apply_ite AccessCheck.grantedAccess, apply_ite AccessCheck.grantedAccess]
  rfl

variable {token : Token} {sd : SecurityDescriptor}

/-- What the check grants once it gets to the access control list. -/
theorem grantedAccess_of_reachesDacl {dacl : List Ace}
    (reaches : ReachesDacl token sd desiredAccess privCount owner dacl) :
    (tokenAccessCheck token sd desiredAccess privCount mapping ).grantedAccess =
      (checkOwnerAndDacl token owner dacl desiredAccess mapping
        (systemAccess desiredAccess) none []).grantedAccess := by
  rcases reaches with ⟨noGeneric, hasOwner, hasGroup, present, hasDacl, privilege⟩
  rcases Option.isSome_iff_exists.mp hasGroup with ⟨group, hasGroup⟩
  simp only [tokenAccessCheck, hasOwner, hasGroup, present, hasDacl, if_neg (not_not.mpr noGeneric)]
  by_cases system : desiredAccess &&& accessSystemSecurity = 0
  · rw [if_neg (not_not.mpr system), systemAccess, if_neg (not_not.mpr system)]
    exact checkOwnerAndDacl_grantedAccess _ _ _ _
  · rcases privilege system with ⟨held, room⟩
    simp only [holdsSecurityPrivilege] at held
    simp only [if_pos system, held, if_true, if_neg room, systemAccess]
    split
    next only =>
      have specific : accessSystemSecurity &&& maximumAllowed = 0 := by decide
      subst only
      refine ((checkOwnerAndDacl_specific specific owner dacl
        accessSystemSecurity none []).2.mpr fun bit wanted => ?_).symm
      left
      rw [startAccess]
      split
      · exact bits_or _ _ ▸ .inl wanted
      · exact wanted
    next => exact checkOwnerAndDacl_grantedAccess _ _ _ _

/-- A check that does not get to the list does not depend on the token. -/
theorem grantedAccess_of_not_reachesDacl
    (stops : ∀ owner dacl, ¬ ReachesDacl token sd desiredAccess privCount owner dacl) :
    (tokenAccessCheck token sd desiredAccess privCount mapping ).grantedAccess = 0 ∨
      ∀ other : Token, (tokenAccessCheck other sd desiredAccess privCount mapping ).grantedAccess =
      (tokenAccessCheck token sd desiredAccess privCount mapping ).grantedAccess := by
  by_cases generic : desiredAccess &&& genericRights = 0
  swap
  · left
    rw [tokenAccessCheck, if_pos generic]
  cases hasOwner : sd.owner with
  | none => simp [tokenAccessCheck, generic, hasOwner]
  | some owner =>
  cases hasGroup : sd.group with
  | none => simp [tokenAccessCheck, generic, hasOwner, hasGroup]
  | some group =>
  cases present : sd.daclPresent with
  | false => simp [tokenAccessCheck, generic, hasOwner, hasGroup, present]
  | true =>
  cases hasDacl : sd.dacl with
  | none => simp [tokenAccessCheck, generic, hasOwner, hasGroup, present, hasDacl]
  | some dacl =>
    left
    have missing : ¬ (desiredAccess &&& accessSystemSecurity ≠ 0 →
        holdsSecurityPrivilege token = true ∧ privCount ≠ some 0) :=
      fun privilege => stops owner dacl
        ⟨generic, hasOwner, by simp [hasGroup], present, hasDacl, privilege⟩
    rw [Classical.not_imp] at missing
    rcases missing with ⟨system, refused⟩
    simp only [tokenAccessCheck, generic, hasOwner, hasGroup, present,
      hasDacl, ne_eq, not_true_eq_false, if_false, if_pos system]
    cases held : (tokenCheckPrivileges token true [⟨seSecurityPrivilege, 0⟩]).1 with
    | false => simp
    | true =>
      have room : privCount = some 0 := by
        by_contra full
        exact refused ⟨held, full⟩
      simp [room]

/-! ## Restricting a token -/

/-- The copy is granted nothing that the source is not granted. -/
def Restricts (src filtered : Token) (sd : SecurityDescriptor)
    (desiredAccess : Mask) (privCount : Option Nat) (mapping : GenericMap) :
    Prop :=
  bits (tokenAccessCheck filtered sd desiredAccess privCount mapping ).grantedAccess ⊆
    bits (tokenAccessCheck src sd desiredAccess privCount mapping ).grantedAccess

section

variable (src : Token) (removeGroups : List Sid) (mapping : GenericMap)

/-- What the copy starts with at the access control list. -/
def startAfter (owner : Sid) (extra : Mask) : Mask :=
  if keepsSid src removeGroups owner then startAccess src owner extra
  else extra

/-- The rules of the SIDs that are kept. -/
def rulesAfter (dacl : List Ace) : List (Rule Nat Sid) :=
  (rules src mapping dacl).filter fun rule => keepsSid src removeGroups rule.holder

/--
For `MAXIMUM_ALLOWED`: a bit that a removed group was denied is allowed to
the SIDs that are kept and denied to none of them.
-/
def LosesDenyMaximum (owner : Sid) (dacl : List Ace) (desiredAccess : Mask) : Prop :=
  ∃ bit, (bit ∈ bits (startAfter src removeGroups owner (systemAccess desiredAccess)) ∨
      ∃ rule ∈ rulesAfter src removeGroups mapping dacl, rule.allow = true ∧ bit ∈ rule.rights) ∧
    (¬ ∃ rule ∈ rulesAfter src removeGroups mapping dacl, rule.allow = false ∧ bit ∈ rule.rights) ∧
    ∃ rule ∈ rules src mapping dacl, keepsSid src removeGroups rule.holder = false ∧
        rule.allow = false ∧ bit ∈ rule.rights

/--
For a specific request: a deny entry of a removed group blocks the source,
and the entries of the SIDs that are kept grant the request.
-/
def LosesDenySpecific (owner : Sid) (dacl : List Ace) (desiredAccess : Mask) : Prop :=
  (∀ bit ∈ bits desiredAccess, bit ∈ bits (startAfter src removeGroups owner
        (systemAccess desiredAccess)) ∨
      Earned (bits desiredAccess) (rulesAfter src removeGroups mapping dacl) bit) ∧
    ∃ rule, keepsSid src removeGroups rule.holder = false ∧
      BlockedBy (bits (startAccess src owner (systemAccess desiredAccess)))
        (bits desiredAccess) (rules src mapping dacl) rule

end

/--
The check gets to the list for the copy, and a deny entry of a removed group
stood in the way of the source.
-/
def LosesDeny (src : Token) (removePrivs : List LuidAttr)
    (removeGroups : List Sid) (sd : SecurityDescriptor)
    (desiredAccess : Mask) (privCount : Option Nat) (mapping : GenericMap) :
    Prop :=
  ∃ owner dacl, ReachesDacl src sd desiredAccess privCount owner dacl ∧
      (desiredAccess &&& accessSystemSecurity ≠ 0 →
        removePrivs.any (fun attr => seSecurityPrivilege = attr.luid) = false) ∧
      (if desiredAccess &&& maximumAllowed ≠ 0 then
        LosesDenyMaximum src removeGroups mapping owner dacl desiredAccess
      else LosesDenySpecific src removeGroups mapping owner dacl desiredAccess)

theorem startAfter_subset (src : Token) (removeGroups : List Sid) (owner : Sid) (extra : Mask) :
    bits (startAfter src removeGroups owner extra) ⊆ bits (startAccess src owner extra) := by
  rw [startAfter]
  split
  · exact subset_rfl
  · rw [startAccess]
    split
    · rw [bits_or]
      exact subset_union_left
    · exact subset_rfl

/-- The copy gets to the list if the source does and keeps the privilege. -/
theorem reachesDacl_filterToken {src filtered : Token} {removePrivs : List LuidAttr}
    {removeGroups : List Sid} {luids : Nat → Luid}
    (copied : filterToken src removePrivs removeGroups luids = .ok filtered)
    (sd : SecurityDescriptor) (dacl : List Ace) :
    ReachesDacl filtered sd desiredAccess privCount owner dacl ↔
      ReachesDacl src sd desiredAccess privCount owner dacl ∧
        (desiredAccess &&& accessSystemSecurity ≠ 0 →
          removePrivs.any (fun attr => seSecurityPrivilege = attr.luid) = false) := by
  simp only [ReachesDacl, holdsSecurityPrivilege_filterToken copied,
    Bool.and_eq_true, Bool.not_eq_true']
  tauto

section Restrict

variable {src : Token}
variable {removeGroups : List Sid}
variable {desiredAccess : Mask}

variable {mapping : GenericMap}

theorem maximum_restricts_iff
    (copied : filterToken src removePrivs removeGroups luids = .ok filtered)
    (maximum : desiredAccess &&& maximumAllowed ≠ 0) (mapping : GenericMap) (owner : Sid)
    (dacl : List Ace) :
    bits (checkOwnerAndDacl filtered owner dacl desiredAccess mapping
          (systemAccess desiredAccess) none []).grantedAccess ⊆
        bits (checkOwnerAndDacl src owner dacl desiredAccess mapping
          (systemAccess desiredAccess) none []).grantedAccess ↔
      ¬ LosesDenyMaximum src removeGroups mapping owner dacl
        desiredAccess := by
  have small : systemAccess desiredAccess &&& maximumAllowed = 0 := by
    rw [systemAccess]
    split <;> decide
  have fewer := startAfter_subset src removeGroups owner (systemAccess desiredAccess)
  have copy := @checkOwnerAndDacl_maximum filtered mapping desiredAccess
    maximum owner dacl _ small none []
  have source := @checkOwnerAndDacl_maximum src mapping desiredAccess
    maximum owner dacl _ small none []
  simp only [rules_filterToken copied, startAccess_filterToken copied] at copy
  constructor
  · rintro subset ⟨bit, allowed, notDenied, rule, member, -, denied⟩
    have granted := (source bit).mp (subset ((copy bit).mpr ⟨allowed, notDenied⟩))
    exact granted.2 ⟨rule, member, denied⟩
  · intro keeps bit granted
    rcases (copy bit).mp granted with ⟨allowed, notDenied⟩
    refine (source bit).mpr ⟨?_, ?_⟩
    · refine allowed.imp (fun start => fewer start) ?_
      rintro ⟨rule, member, rest⟩
      exact ⟨rule, mem_of_mem_filter member, rest⟩
    · rintro ⟨rule, member, denied⟩
      refine keeps ⟨bit, allowed, notDenied, rule, member, ?_, denied⟩
      by_contra kept
      rw [Bool.not_eq_false] at kept
      exact notDenied ⟨rule, mem_filter.mpr ⟨member, kept⟩, denied⟩

theorem specific_restricts_iff
    (copied : filterToken src removePrivs removeGroups luids = .ok filtered)
    (specific : desiredAccess &&& maximumAllowed = 0) (owner : Sid) (dacl : List Ace) :
    bits (checkOwnerAndDacl filtered owner dacl desiredAccess mapping
          (systemAccess desiredAccess) none []).grantedAccess ⊆
        bits (checkOwnerAndDacl src owner dacl desiredAccess mapping
          (systemAccess desiredAccess) none []).grantedAccess ↔
      ¬ LosesDenySpecific src removeGroups mapping owner dacl
        desiredAccess := by
  have fewer := startAfter_subset src removeGroups owner (systemAccess desiredAccess)
  rcases @checkOwnerAndDacl_specific filtered mapping desiredAccess specific
      owner dacl (systemAccess desiredAccess) none [] with
    ⟨wholeCopy, copy⟩
  rcases @checkOwnerAndDacl_specific src mapping desiredAccess specific
      owner dacl (systemAccess desiredAccess) none [] with
    ⟨wholeSource, source⟩
  rw [rules_filterToken copied, startAccess_filterToken copied] at copy
  have dropped := @granted_filter_imp_iff _ _ _ _ (bits desiredAccess) (rules src mapping dacl)
    (fun rule => keepsSid src removeGroups rule.holder) fewer
  rw [LosesDenySpecific, rulesAfter, ← dropped, startAfter, ← copy, ← source]
  constructor
  · intro subset full
    rcases wholeSource with same | zero
    · exact same
    · rw [full, zero, bits_zero, subset_empty_iff, ← bits_zero] at subset
      rw [zero, bits_injective subset]
  · intro imp
    rcases wholeCopy with full | zero
    · rw [full, imp full]
    · rw [zero, bits_zero]
      exact empty_subset _

end Restrict

/--
A restricted token is granted more than its source exactly if a deny entry of
a removed group is lost that stood in the way.
-/
theorem filterToken_restricts_iff (src filtered : Token) (removePrivs : List LuidAttr)
    (removeGroups : List Sid) (luids : Nat → Luid) (sd : SecurityDescriptor) (desiredAccess : Mask)
    (privCount : Option Nat) (mapping : GenericMap)
    (copied : filterToken src removePrivs removeGroups luids = .ok filtered) :
    Restricts src filtered sd desiredAccess privCount mapping ↔
      ¬ LosesDeny src removePrivs removeGroups sd desiredAccess privCount mapping := by
  by_cases reaches : ∃ owner dacl, ReachesDacl filtered sd desiredAccess privCount owner dacl
  swap
  · push Not at reaches
    have nothing : ¬ LosesDeny src removePrivs removeGroups sd desiredAccess privCount mapping := by
      rintro ⟨owner, dacl, here, stays, -⟩
      exact reaches owner dacl ((reachesDacl_filterToken copied _ _).mpr ⟨here, stays⟩)
    refine iff_of_true ?_ nothing
    rw [Restricts]
    rcases grantedAccess_of_not_reachesDacl reaches with zero | same
    · rw [zero, bits_zero]
      exact empty_subset _
    · rw [same src]
  rcases reaches with ⟨owner, dacl, reaches⟩
  rcases (reachesDacl_filterToken copied _ _).mp reaches with ⟨reachesSrc, stays⟩
  have here : LosesDeny src removePrivs removeGroups sd desiredAccess privCount mapping ↔
        if desiredAccess &&& maximumAllowed ≠ 0 then
          LosesDenyMaximum src removeGroups mapping owner dacl desiredAccess
        else
          LosesDenySpecific src removeGroups mapping owner dacl
            desiredAccess := by
    constructor
    · rintro ⟨owner', dacl', ⟨-, hasOwner, -, -, hasDacl, -⟩, -, lost⟩
      rcases reachesSrc with ⟨-, hasOwner', -, -, hasDacl', -⟩
      rw [hasOwner, Option.some.injEq] at hasOwner'
      rw [hasDacl, Option.some.injEq] at hasDacl'
      rwa [← hasOwner', ← hasDacl']
    · exact fun lost => ⟨owner, dacl, reachesSrc, stays, lost⟩
  rw [Restricts, grantedAccess_of_reachesDacl reaches,
    grantedAccess_of_reachesDacl reachesSrc, here]
  split
  next maximum => exact maximum_restricts_iff copied maximum mapping owner dacl
  next specific => exact specific_restricts_iff copied (not_not.mp specific) owner dacl

/-- The group of the examples. -/
def exampleAdmins : Sid := ⟨1, 5, [32, 544]⟩

/-- The user as an enabled member of the group. -/
def memberToken : Token :=
  { userToken with groups := [⟨seGroupEnabled, exampleAdmins⟩] }

/-- The same token, restricted by removing the group. -/
def restrictedToken : Token :=
  { memberToken with groups := [⟨seGroupUseForDenyOnly, exampleAdmins⟩] }

/-- The group is denied another bit than the user asks for and is removed. -/
theorem filterToken_restricts_iff_removed :
    filterToken memberToken [] [exampleAdmins] (fun _ => ⟨1, 0⟩) = .ok restrictedToken ∧
      Restricts memberToken restrictedToken (foreignDescriptor
        [⟨.accessDenied, 0, 2, exampleAdmins⟩, ⟨.accessAllowed, 0, 1, exampleUser⟩]) 1 none
        ⟨0, 0, 0, 0⟩ := by
  refine ⟨by decide, (filterToken_restricts_iff memberToken restrictedToken [] [exampleAdmins]
    (fun _ => ⟨1, 0⟩) _ 1 none ⟨0, 0, 0, 0⟩ (by decide)).mpr ?_⟩
  rintro ⟨owner, dacl, ⟨-, -, -, -, hasDacl, -⟩, -, lost⟩
  cases hasDacl
  rcases lost.2 with ⟨rule, -, pre, post, same, denies, touches, -⟩
  have member : rule ∈ pre ++ rule :: post := by simp
  rw [← same, show rules memberToken ⟨0, 0, 0, 0⟩ _ = [ruleOf ⟨0, 0, 0, 0⟩ _, ruleOf _ _] from rfl]
    at member
  rcases mem_pair.mp member with rfl | rfl
  · exact not_touches_one rfl touches
  · cases denies

/--
The list denies the group and then allows the user.  The member is refused,
and the same token without the group is granted the access.
-/
theorem filterToken_grants_more : filterToken memberToken [] [exampleAdmins] (fun _ => ⟨1, 0⟩) =
        .ok restrictedToken ∧
      ¬ Restricts memberToken restrictedToken (foreignDescriptor
          [⟨.accessDenied, 0, 1, exampleAdmins⟩, ⟨.accessAllowed, 0, 1, exampleUser⟩]) 1 none
        ⟨0, 0, 0, 0⟩ := by
  refine ⟨by decide, fun restricts => ?_⟩
  have more := restricts (show 0 ∈ bits (tokenAccessCheck restrictedToken _ 1 none _
      ).grantedAccess by rw [mem_bits]; decide)
  rw [mem_bits] at more
  revert more
  decide

end WineRedRose.Tokens
