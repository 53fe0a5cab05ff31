import WineRedRose.Library.AccessRules
import WineRedRose.Tokens.Model

/-!
# What the access check grants

An access control list is read as a list of rules: the entries that apply to
a token, each with the bits of its mapped mask.  The loop of
`token_access_check` is the scanning reading of these rules for a specific
request, and collects all allowed and all denied bits for `MAXIMUM_ALLOWED`.
From this the module derives how far the check follows the order of the list.
-/

namespace WineRedRose.Tokens

open Library.AccessRules Set

/-! ## Masks as sets of bits -/

/-- The bits of an access mask. -/
def bits (mask : Mask) : Set Nat := { bit | mask.getLsbD bit = true }

variable {mask : Mask} {bit : Nat}

@[simp]
theorem mem_bits : bit ∈ bits mask ↔ mask.getLsbD bit = true := Iff.rfl

@[simp]
theorem bits_zero : bits 0 = ∅ := by
  ext bit
  simp

@[simp]
theorem bits_or (mask mask' : Mask) : bits (mask ||| mask') = bits mask ∪ bits mask' := by
  ext bit
  simp

@[simp]
theorem bits_and (mask mask' : Mask) : bits (mask &&& mask') = bits mask ∩ bits mask' := by
  ext bit
  simp

theorem bits_and_not (mask mask' : Mask) : bits (mask &&& ~~~mask') = bits mask \ bits mask' := by
  ext bit
  simp only [mem_bits, BitVec.getLsbD_and, BitVec.getLsbD_not,
    Bool.and_eq_true, decide_eq_true_eq, mem_sdiff, Bool.not_eq_true',
    Bool.not_eq_true]
  constructor
  · exact fun both => ⟨both.1, both.2.2⟩
  · exact fun both => ⟨both.1, BitVec.lt_of_getLsbD both.1, both.2⟩

theorem bits_injective : Function.Injective bits := by
  intro mask mask' same
  apply BitVec.eq_of_getLsbD_eq
  intro bit _
  exact Bool.eq_iff_iff.mpr (Set.ext_iff.mp same bit)

/-- A mask is not zero if it has a bit. -/
theorem ne_zero_iff (mask : Mask) : mask ≠ 0 ↔ (bits mask).Nonempty := by
  rw [nonempty_iff_ne_empty, ← bits_zero]
  exact bits_injective.ne_iff.symm

theorem and_eq_right_iff (mask mask' : Mask) : mask &&& mask' = mask' ↔ bits mask' ⊆ bits mask := by
  rw [← bits_injective.eq_iff, bits_and, inter_eq_right]

/-! ## Access control lists as rules -/

/-- The entry is not inherit-only and its SID is one of the token's. -/
def applies (token : Token) (ace : Ace) : Bool := ace.flags &&& inheritOnlyAce = 0 &&
    match ace.type with
    | .accessDenied => tokenSidPresent token ace.sid true
    | .accessAllowed => tokenSidPresent token ace.sid false
    | _ => false

/-- The rule of an entry. -/
def ruleOf (mapping : GenericMap) (ace : Ace) : Rule Nat Sid where
  holder := ace.sid
  allow := ace.type = .accessAllowed
  rights := bits (mapAccess ace.mask mapping)

/-- The rules of a list for a token. -/
def rules (token : Token) (mapping : GenericMap) (dacl : List Ace) : List (Rule Nat Sid) :=
  (dacl.filter (applies token)).map (ruleOf mapping)

variable {ace : Ace} {privCount : Option Nat}

section Loop

variable {token : Token} {mapping : GenericMap} {desiredAccess : Mask}

theorem rules_cons_of_not_applies {aces : List Ace} (other : applies token ace = false) :
    rules token mapping (ace :: aces) = rules token mapping aces := by
  simp [rules, other]

theorem rules_cons_of_applies {aces : List Ace} (here : applies token ace = true) :
    rules token mapping (ace :: aces) = ruleOf mapping ace :: rules token mapping aces := by
  simp [rules, here]

/-- The effect of one entry, for a request that is not for nothing. -/
theorem daclLoop_cons (nonzero : desiredAccess ≠ 0) (ace : Ace) (aces : List Ace)
    (currentAccess deniedAccess : Mask) :
    let access := mapAccess ace.mask mapping
    let loop := daclLoop token desiredAccess mapping
    loop (ace :: aces) currentAccess deniedAccess =
      if applies token ace = false then loop aces currentAccess deniedAccess
      else if desiredAccess &&& maximumAllowed ≠ 0 then
        if ace.type = .accessAllowed then loop aces (currentAccess ||| access) deniedAccess
        else loop aces currentAccess (deniedAccess ||| access)
      else if ace.type = .accessAllowed then
        loop aces (currentAccess ||| (access &&& ~~~deniedAccess)) deniedAccess
      else if desiredAccess &&& access ≠ 0 then
        (currentAccess, deniedAccess ||| (access &&& ~~~currentAccess))
      else loop aces currentAccess (deniedAccess ||| (access &&& ~~~currentAccess)) := by
  dsimp only
  rw [daclLoop]
  simp only [if_neg nonzero]
  by_cases inherit : ace.flags &&& inheritOnlyAce = 0
  · rw [if_neg (not_not.mpr inherit)]
    cases kind : ace.type with
    | accessDenied =>
      cases present : tokenSidPresent token ace.sid true <;>
        simp [applies, inherit, kind, present]
    | accessAllowed =>
      cases present : tokenSidPresent token ace.sid false <;>
        simp [applies, inherit, kind, present]
    | systemAudit => simp [applies, kind]
    | systemAlarm => simp [applies, kind]
    | systemMandatoryLabel => simp [applies, kind]
  · have other : applies token ace = false := by
      simp only [applies, inherit, decide_false, Bool.false_and]
    rw [if_pos inherit, if_pos other]

/--
For a specific request the loop is the scanning reading of the rules: no
requested bit is denied before the loop ends.
-/
theorem daclLoop_specific (nonzero : desiredAccess ≠ 0)
    (specific : desiredAccess &&& maximumAllowed = 0) (dacl : List Ace)
    (currentAccess deniedAccess : Mask)
    (undenied : ∀ bit ∈ bits desiredAccess, bit ∉ bits deniedAccess)
    (wanted : bit ∈ bits desiredAccess) :
    bit ∈ bits (daclLoop token desiredAccess mapping dacl currentAccess deniedAccess).1 ↔
      bit ∈ bits currentAccess ∨ Earned (bits desiredAccess) (rules token mapping dacl) bit := by
  induction dacl generalizing currentAccess deniedAccess with
  | nil => simp [daclLoop, rules, Earned]
  | cons ace aces ih =>
    rw [daclLoop_cons nonzero]
    by_cases here : applies token ace = true
    · rw [if_neg (by simp [here]), if_neg (not_not.mpr specific), rules_cons_of_applies here]
      by_cases allow : ace.type = .accessAllowed
      · rw [if_pos allow, ih _ _ undenied, bits_or, bits_and_not]
        simp only [Earned, ruleOf, allow, decide_true, mem_union,
          mem_sdiff, undenied bit wanted, not_false_eq_true, and_true,
          true_and, Bool.true_eq_false, false_and, or_false, or_assoc]
      · rw [if_neg allow]
        have touches : desiredAccess &&& mapAccess ace.mask mapping ≠ 0 ↔
            (ruleOf mapping ace).Touches (bits desiredAccess) := by
          rw [ne_zero_iff, bits_and]
          exact Iff.rfl
        have denies : (ruleOf mapping ace).allow = false := by simpa [ruleOf] using allow
        simp only [Earned, denies, Bool.false_eq_true, false_and, true_and, false_or]
        by_cases stop : desiredAccess &&& mapAccess ace.mask mapping ≠ 0
        · rw [if_pos stop]
          simp [touches.mp stop]
        · rw [if_neg stop, ih]
          · simp [mt touches.mpr stop]
          · intro other wanted'
            rw [bits_or, bits_and_not, mem_union, not_or]
            refine ⟨undenied other wanted', fun denied => ?_⟩
            exact mt touches.mpr stop ⟨other, wanted', denied.1⟩
    · rw [Bool.not_eq_true] at here
      rw [if_pos here, ih _ _ undenied, rules_cons_of_not_applies here]

/-- For `MAXIMUM_ALLOWED` the loop collects all rules. -/
theorem daclLoop_maximum (maximum : desiredAccess &&& maximumAllowed ≠ 0) (dacl : List Ace)
    (currentAccess deniedAccess : Mask) (bit : Nat) :
    (bit ∈ bits (daclLoop token desiredAccess mapping dacl currentAccess deniedAccess).1 ↔
        bit ∈ bits currentAccess ∨ ∃ rule ∈ rules token mapping dacl,
          rule.allow = true ∧ bit ∈ rule.rights) ∧
      (bit ∈ bits (daclLoop token desiredAccess mapping dacl currentAccess deniedAccess).2 ↔
        bit ∈ bits deniedAccess ∨ ∃ rule ∈ rules token mapping dacl,
          rule.allow = false ∧ bit ∈ rule.rights) := by
  have nonzero : desiredAccess ≠ 0 := by
    rintro rfl
    simp at maximum
  induction dacl generalizing currentAccess deniedAccess with
  | nil => simp [daclLoop, rules]
  | cons ace aces ih =>
    rw [daclLoop_cons nonzero]
    by_cases here : applies token ace = true
    · rw [if_neg (by simp [here]), if_pos maximum, rules_cons_of_applies here]
      simp only [List.exists_mem_cons_iff]
      split_ifs with allow
      · simp only [ih, bits_or, mem_union, or_assoc, ruleOf, allow,
          decide_true, true_and, Bool.true_eq_false, false_and, false_or,
          and_self]
      · simp only [ih, bits_or, mem_union, or_assoc, ruleOf, allow,
          decide_false, true_and, Bool.false_eq_true, false_and, false_or,
          and_self]
    · rw [Bool.not_eq_true] at here
      rw [if_pos here, rules_cons_of_not_applies here]
      exact ih _ _

end Loop

/-! ## The whole check -/

/-- The access a token starts with: the owner's rights and `extra`. -/
def startAccess (token : Token) (owner : Sid) (extra : Mask) : Mask :=
  if tokenSidPresent token owner false then extra ||| ownerRights else extra

section

variable {token : Token} {mapping : GenericMap} {desiredAccess : Mask} {owner : Sid}

/-- The status tells whether something is granted. -/
theorem checkOwnerAndDacl_status (dacl : List Ace) (extra : Mask) (privs : List LuidAttr) :
    let result := checkOwnerAndDacl token owner dacl desiredAccess mapping extra privCount privs
    result.ret = .success ∧ result.status =
        some (if result.grantedAccess ≠ 0 then .success else .accessDenied) := by
  have nonzero : extra ||| ownerRights ≠ 0 := by
    rw [ne_zero_iff, bits_or]
    exact ⟨16, .inr (by simp [ownerRights])⟩
  cases isOwner : tokenSidPresent token owner false with
  | false =>
    simp only [checkOwnerAndDacl, isOwner, Bool.false_and, Bool.false_eq_true, if_false]
    exact ⟨rfl, rfl⟩
  | true =>
    simp only [checkOwnerAndDacl, isOwner, Bool.true_and, if_true]
    split
    next => exact ⟨rfl, rfl⟩
    next => exact ⟨rfl, rfl⟩

theorem tokenAccessCheck_ordinary {dacl : List Ace} {sd : SecurityDescriptor} {group : Sid}
    (hasOwner : sd.owner = some owner) (hasGroup : sd.group = some group)
    (present : sd.daclPresent = true) (hasDacl : sd.dacl = some dacl)
    (noGeneric : desiredAccess &&& genericRights = 0)
    (noSystem : desiredAccess &&& accessSystemSecurity = 0) :
    tokenAccessCheck token sd desiredAccess privCount mapping =
      checkOwnerAndDacl token owner dacl desiredAccess mapping 0 (privCount.map fun _ => 0) [] := by
  simp [tokenAccessCheck, hasOwner, hasGroup, present, hasDacl, noGeneric, noSystem]

end

/-- A specific request is granted as a whole or not at all. -/
theorem checkOwnerAndDacl_specific {token : Token} {mapping : GenericMap} {desiredAccess : Mask}
    (specific : desiredAccess &&& maximumAllowed = 0) (owner : Sid) (dacl : List Ace) (extra : Mask)
    (privCount : Option Nat) (privs : List LuidAttr) :
    let result := checkOwnerAndDacl token owner dacl desiredAccess mapping extra privCount privs
    (result.grantedAccess = desiredAccess ∨ result.grantedAccess = 0) ∧
      (result.grantedAccess = desiredAccess ↔ ∀ bit ∈ bits desiredAccess,
          bit ∈ bits (startAccess token owner extra) ∨
            Earned (bits desiredAccess) (rules token mapping dacl) bit) := by
  have start : (if tokenSidPresent token owner false then extra ||| ownerRights
        else extra) = startAccess token owner extra := rfl
  simp only [checkOwnerAndDacl, start]
  split
  next both =>
    simp only [Bool.and_eq_true, decide_eq_true_eq] at both
    have same := both.2
    refine ⟨.inl same.symm, ?_⟩
    exact iff_of_true same.symm fun bit wanted => .inl (same ▸ wanted)
  next =>
    simp only [finishCheck, if_neg (not_not.mpr specific)]
    by_cases zero : desiredAccess = 0
    · subst zero
      simp
    · have scanned := and_eq_right_iff (daclLoop token desiredAccess mapping dacl
          (startAccess token owner extra) 0).1 desiredAccess
      have earned : bits desiredAccess ⊆
          bits (daclLoop token desiredAccess mapping dacl (startAccess token owner extra) 0).1 ↔
          ∀ bit ∈ bits desiredAccess, bit ∈ bits (startAccess token owner extra) ∨
          Earned (bits desiredAccess) (rules token mapping dacl) bit :=
        forall₂_congr fun bit wanted => daclLoop_specific zero specific dacl _ 0 (by simp) wanted
      rw [← earned, ← scanned]
      split
      next all => exact ⟨.inl all, iff_of_true all all⟩
      next missing => exact ⟨.inr rfl, iff_of_false (Ne.symm zero) missing⟩

/-- A request for the maximum gets what some rule allows and none denies. -/
theorem checkOwnerAndDacl_maximum {token : Token} {mapping : GenericMap} {desiredAccess : Mask}
    (maximum : desiredAccess &&& maximumAllowed ≠ 0) (owner : Sid) (dacl : List Ace) {extra : Mask}
    (small : extra &&& maximumAllowed = 0) (privCount : Option Nat) (privs : List LuidAttr)
    (bit : Nat) :
    bit ∈ bits (checkOwnerAndDacl token owner dacl desiredAccess mapping
        extra privCount privs).grantedAccess ↔
      (bit ∈ bits (startAccess token owner extra) ∨ ∃ rule ∈ rules token mapping dacl,
            rule.allow = true ∧ bit ∈ rule.rights) ∧
        ¬ ∃ rule ∈ rules token mapping dacl, rule.allow = false ∧ bit ∈ rule.rights := by
  have apart : desiredAccess ≠ extra ||| ownerRights := by
    rintro rfl
    apply maximum
    apply bits_injective
    have ownerSmall : ownerRights &&& maximumAllowed = 0 := by decide
    rw [bits_and, bits_or, union_inter_distrib_right, ← bits_and,
      ← bits_and, small, ownerSmall, union_self]
  have general : (tokenSidPresent token owner false &&
      decide (desiredAccess = startAccess token owner extra)) = false := by
    cases isOwner : tokenSidPresent token owner false with
    | false => rfl
    | true => simp [startAccess, isOwner, apart]
  have start : (if tokenSidPresent token owner false then extra ||| ownerRights
        else extra) = startAccess token owner extra := rfl
  have collected := @daclLoop_maximum token mapping desiredAccess maximum
    dacl (startAccess token owner extra) 0 bit
  simp only [checkOwnerAndDacl, start, general, Bool.false_eq_true, if_false,
    finishCheck, if_pos maximum, bits_and_not, mem_sdiff, collected,
    bits_zero, mem_empty_iff_false, false_or]

/-! ## The order of the list -/

/--
The bit is an owner right of the token, or the first entry that applies to
the token and has the bit in its mapped mask is an allowing one.
-/
def BitGranted (token : Token) (owner : Sid) (mapping : GenericMap)
    (dacl : List Ace) (bit : Nat) : Prop :=
  (tokenSidPresent token owner false = true ∧ ownerRights.getLsbD bit = true) ∨ ∃ ace,
      dacl.find? (fun ace =>
        applies token ace && (mapAccess ace.mask mapping).getLsbD bit) = some ace ∧
        ace.type = .accessAllowed

variable {mapping : GenericMap}

theorem firstAllows_rules (token : Token) (dacl : List Ace) :
    FirstAllows (rules token mapping dacl) bit ↔
      ∃ ace, dacl.find? (fun ace => applies token ace && (mapAccess ace.mask mapping).getLsbD bit) =
      some ace ∧ ace.type = .accessAllowed := by
  induction dacl with
  | nil => simp [rules, FirstAllows]
  | cons ace aces ih =>
    by_cases here : applies token ace = true
    · rw [rules_cons_of_applies here]
      simp only [FirstAllows, ih, ruleOf, mem_bits, decide_eq_true_eq]
      by_cases has : (mapAccess ace.mask mapping).getLsbD bit = true
      · rw [List.find?_cons_of_pos (by simp [here, has])]
        simp [has]
      · rw [List.find?_cons_of_neg (by simp [has])]
        simp [has]
    · rw [rules_cons_of_not_applies (by simpa using here),
        List.find?_cons_of_neg (by simp [here]), ih]

theorem bitGranted_iff (token : Token) (owner : Sid) (dacl : List Ace) :
    BitGranted token owner mapping dacl bit ↔
      bit ∈ bits (startAccess token owner 0) ∨ FirstAllows (rules token mapping dacl) bit := by
  rw [BitGranted, firstAllows_rules]
  apply or_congr_left
  cases isOwner : tokenSidPresent token owner false with
  | false => simp [startAccess, isOwner]
  | true => simp [startAccess, isOwner]

/--
The request is granted in full if every bit of it is granted in the order of
the list, and refused otherwise.
-/
def FollowsDacl (token : Token) (owner : Sid) (mapping : GenericMap)
    (dacl : List Ace) (desiredAccess : Mask) (result : AccessCheck) : Prop :=
  result.ret = .success ∧ ((∀ bit ∈ bits desiredAccess, BitGranted token owner mapping dacl bit) →
      result.grantedAccess = desiredAccess ∧ (desiredAccess ≠ 0 → result.status = some .success)) ∧
    (¬ (∀ bit ∈ bits desiredAccess, BitGranted token owner mapping dacl bit) →
      result.grantedAccess = 0 ∧ result.status = some .accessDenied)

/--
The check follows the order of the list unless the list grants every desired
bit and a deny entry for one of them comes while another one is still
missing.
-/
theorem tokenAccessCheck_followsDacl_iff (token : Token) (sd : SecurityDescriptor)
    (owner group : Sid) (dacl : List Ace) (mapping : GenericMap) (desiredAccess : Mask)
    (privCount : Option Nat) (hasOwner : sd.owner = some owner) (hasGroup : sd.group = some group)
    (present : sd.daclPresent = true) (hasDacl : sd.dacl = some dacl)
    (noGeneric : desiredAccess &&& genericRights = 0)
    (noMaximum : desiredAccess &&& maximumAllowed = 0)
    (noSystem : desiredAccess &&& accessSystemSecurity = 0) :
    FollowsDacl token owner mapping dacl desiredAccess
        (tokenAccessCheck token sd desiredAccess privCount mapping) ↔
      ¬ ((∀ bit ∈ bits desiredAccess, BitGranted token owner mapping dacl bit) ∧
          Blocked (bits (startAccess token owner 0)) (bits desiredAccess)
            (rules token mapping dacl)) := by
  rcases checkOwnerAndDacl_status dacl 0 [] with ⟨ret, status⟩
  rcases @checkOwnerAndDacl_specific token mapping desiredAccess noMaximum
      owner dacl 0 (privCount.map fun _ => 0) [] with
    ⟨whole, granted⟩
  rw [tokenAccessCheck_ordinary hasOwner hasGroup present hasDacl noGeneric noSystem]
  simp only [bitGranted_iff, FollowsDacl]
  rw [← granted_iff_firstAllows, ← granted]
  generalize checkOwnerAndDacl token owner dacl desiredAccess mapping 0
    (privCount.map fun _ => 0) [] = result at *
  constructor
  · rintro ⟨-, grants, refuses⟩
    constructor
    · intro full
      by_contra refused
      have zero : desiredAccess = 0 := full ▸ (refuses refused).1
      exact refused (by simp [zero])
    · exact fun first => (grants first).1
  · intro same
    refine ⟨ret, fun first => ?_, fun refused => ?_⟩
    · have full := same.mpr first
      refine ⟨full, fun nonzero => ?_⟩
      rw [status, full, if_pos nonzero]
    · have none := whole.resolve_left (mt same.mp refused)
      rw [status, none]
      exact ⟨rfl, rfl⟩

/-- The user of the examples. -/
def exampleUser : Sid := ⟨1, 5, [21, 1000]⟩

/-- A token of the user, without groups or privileges. -/
def userToken : Token where
  tokenId := ⟨1, 0⟩
  modifiedId := ⟨1, 0⟩
  privileges := []
  groups := []
  user := exampleUser
  owner := 0
  primaryGroup := 0
  primary := false
  sessionId := 0
  defaultDacl := none
  impersonationLevel := 2
  elevation := 0

/-- A descriptor owned by somebody else. -/
def foreignDescriptor (dacl : List Ace) : SecurityDescriptor where
  owner := some ⟨1, 5, [18]⟩
  group := some ⟨1, 5, [18]⟩
  daclPresent := true
  dacl := some dacl

/-- An entry for another bit does not touch a request for the first one. -/
theorem not_touches_one {rule : Rule Nat Sid} (other : rule.rights = bits 2) :
    ¬ rule.Touches (bits 1) := by
  rintro ⟨bit, wanted, touched⟩
  rw [other] at touched
  have small := BitVec.lt_of_getLsbD wanted
  interval_cases bit <;> simp_all [mem_bits]

/-- The second bit is denied, then the first one is allowed and granted. -/
theorem tokenAccessCheck_followsDacl_iff_ordered :
    FollowsDacl userToken ⟨1, 5, [18]⟩ ⟨0, 0, 0, 0⟩
      [⟨.accessDenied, 0, 2, exampleUser⟩, ⟨.accessAllowed, 0, 1, exampleUser⟩] 1
      (tokenAccessCheck userToken (foreignDescriptor
        [⟨.accessDenied, 0, 2, exampleUser⟩, ⟨.accessAllowed, 0, 1, exampleUser⟩]) 1 none
        ⟨0, 0, 0, 0⟩) := by
  refine (tokenAccessCheck_followsDacl_iff userToken _ ⟨1, 5, [18]⟩ ⟨1, 5, [18]⟩ _
    ⟨0, 0, 0, 0⟩ 1 none rfl rfl rfl rfl (by decide) (by decide) (by decide)).mpr ?_
  rintro ⟨-, rule, pre, post, same, denies, touches, -⟩
  have member : rule ∈ pre ++ rule :: post := by simp
  rw [← same, show rules userToken ⟨0, 0, 0, 0⟩ _ = [ruleOf ⟨0, 0, 0, 0⟩ _, ruleOf _ _] from rfl]
    at member
  rcases List.mem_pair.mp member with rfl | rfl
  · exact not_touches_one rfl touches
  · cases denies

/--
The first bit is allowed, then denied, and the second bit is allowed after
that: the list grants both, and the check refuses them.
-/
theorem tokenAccessCheck_ignores_order : ¬ FollowsDacl userToken ⟨1, 5, [18]⟩ ⟨0, 0, 0, 0⟩
        [⟨.accessAllowed, 0, 1, exampleUser⟩, ⟨.accessDenied, 0, 1, exampleUser⟩,
          ⟨.accessAllowed, 0, 2, exampleUser⟩] 3
      (tokenAccessCheck userToken (foreignDescriptor [⟨.accessAllowed, 0, 1, exampleUser⟩,
            ⟨.accessDenied, 0, 1, exampleUser⟩,
            ⟨.accessAllowed, 0, 2, exampleUser⟩]) 3 none
        ⟨0, 0, 0, 0⟩) := by
  rintro ⟨-, grants, -⟩
  have first : ∀ bit ∈ bits 3, bit = 0 ∨ bit = 1 := by
    intro bit wanted
    have small := BitVec.lt_of_getLsbD wanted
    interval_cases bit <;> simp_all
  have full := (grants fun bit wanted => by
    rcases first bit wanted with rfl | rfl
    · exact .inr ⟨⟨.accessAllowed, 0, 1, exampleUser⟩, by decide, rfl⟩
    · exact .inr ⟨⟨.accessAllowed, 0, 2, exampleUser⟩, by decide, rfl⟩).1
  revert full
  decide

end WineRedRose.Tokens
