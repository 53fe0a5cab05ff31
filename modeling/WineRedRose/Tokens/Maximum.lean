import WineRedRose.Tokens.AccessCheck

/-!
# `MAXIMUM_ALLOWED` and single requests

With `MAXIMUM_ALLOWED` the check collects what any entry allows and takes away
what any entry denies, whatever the order and whatever the owner has.  A
request for one bit follows the order.  The two differ exactly on a bit that is
denied by some entry and granted before it, and bits asked for together with
`MAXIMUM_ALLOWED` are not looked at.
-/

namespace WineRedRose.Tokens

open Library.AccessRules List Set

/-- The check has been carried out and has granted something. -/
def AccessCheck.Succeeds (result : AccessCheck) : Prop :=
  result.ret = .success ∧ result.status = some .success

instance (result : AccessCheck) : Decidable result.Succeeds :=
  inferInstanceAs (Decidable (_ ∧ _))

/-- An entry of the given type applies to the token and has the bit in its
mapped mask. -/
def BitNamed (type : AceType) (token : Token) (mapping : GenericMap)
    (dacl : List Ace) (bit : Nat) : Prop :=
  ∃ ace ∈ dacl, applies token ace = true ∧ ace.type = type ∧
    (mapAccess ace.mask mapping).getLsbD bit = true

/-- The descriptor has a list to check. -/
def SecurityDescriptor.Protected (sd : SecurityDescriptor) (dacl : List Ace) :
    Prop :=
  sd.daclPresent = true ∧ sd.dacl = some dacl

/-- The bit is an owner right of the token, the requested
`ACCESS_SYSTEM_SECURITY` or allowed by an entry, and no entry denies it. -/
def Obtainable (token : Token) (owner : Sid) (mapping : GenericMap)
    (dacl : List Ace) (desiredAccess : Mask) (bit : Nat) : Prop :=
  (bit ∈ bits (startAccess token owner (desiredAccess &&& accessSystemSecurity)) ∨
      BitNamed .accessAllowed token mapping dacl bit) ∧
    ¬ BitNamed .accessDenied token mapping dacl bit

/-- The request does not fail for a generic right or for the lack of the
privilege that `ACCESS_SYSTEM_SECURITY` needs. -/
def Checkable (token : Token) (privCount : Option Nat) (desiredAccess : Mask) :
    Prop :=
  desiredAccess &&& genericRights = 0 ∧ (desiredAccess &&& accessSystemSecurity ≠ 0 →
      (tokenCheckPrivileges token true [⟨seSecurityPrivilege, 0⟩]).1 = true ∧ privCount ≠ some 0)

theorem SecurityDescriptor.Protected.forall_iff {sd : SecurityDescriptor} {dacl : List Ace}
    {p : List Ace → Prop} (listed : sd.Protected dacl) :
    (∀ dacl, sd.Protected dacl → p dacl) ↔ p dacl := by
  constructor
  · exact fun all => all dacl listed
  · intro holds dacl' listed'
    rwa [← Option.some.inj (listed.2.symm.trans listed'.2)]

/-! ## Entries and rules -/

section Rules

variable (token : Token) (mapping : GenericMap) (dacl : List Ace) (bit : Nat)

theorem exists_allow_iff :
    (∃ rule ∈ rules token mapping dacl, rule.allow = true ∧ bit ∈ rule.rights) ↔
      BitNamed .accessAllowed token mapping dacl bit := by
  simp [rules, BitNamed, ruleOf, and_assoc]

theorem exists_deny_iff :
    (∃ rule ∈ rules token mapping dacl, rule.allow = false ∧ bit ∈ rule.rights) ↔
      BitNamed .accessDenied token mapping dacl bit := by
  have kinds : ∀ ace : Ace, applies token ace = true →
      (¬ ace.type = .accessAllowed ↔ ace.type = .accessDenied) := by
    intro ace here
    cases kind : ace.type <;> simp [applies, kind] at here ⊢
  constructor
  · rintro ⟨rule, member, deny, here⟩
    rcases mem_map.mp member with ⟨ace, listed, rfl⟩
    rcases mem_filter.mp listed with ⟨member', applies'⟩
    refine ⟨ace, member', applies', ?_, here⟩
    rw [← kinds ace applies']
    exact of_decide_eq_false deny
  · rintro ⟨ace, member, applies', denied, here⟩
    refine ⟨ruleOf mapping ace, ?_, ?_, here⟩
    · exact mem_map_of_mem (mem_filter.mpr ⟨member, applies'⟩)
    · exact decide_eq_false ((kinds ace applies').mpr denied)

end Rules

/-! ## The two kinds of requests -/

section Requests

variable {token : Token} {sd : SecurityDescriptor} {owner group : Sid}
  {mapping : GenericMap} {privCount : Option Nat} {desiredAccess : Mask}

theorem and_accessSystemSecurity (requested : desiredAccess &&& accessSystemSecurity ≠ 0) :
    desiredAccess &&& accessSystemSecurity = accessSystemSecurity := by
  have bit : accessSystemSecurity = BitVec.twoPow 32 24 := by decide
  rw [bit, BitVec.and_twoPow] at requested ⊢
  split_ifs at requested ⊢
  · rfl
  · exact absurd rfl requested

theorem bits_twoPow {bit : Nat} (inside : bit < 32) : bits (BitVec.twoPow 32 bit) = {bit} := by
  ext other
  rw [mem_bits, BitVec.getLsbD_twoPow, mem_singleton_iff, Bool.and_eq_true,
    decide_eq_true_eq, decide_eq_true_eq]
  constructor
  · exact fun both => both.2.symm
  · rintro rfl
    exact ⟨inside, rfl⟩

theorem twoPow_and_eq_zero {bit : Nat} {mask : Mask} (inside : bit < 32)
    (absent : mask.getLsbD bit = false) : BitVec.twoPow 32 bit &&& mask = 0 := by
  apply bits_injective
  rw [bits_and, bits_twoPow inside, bits_zero]
  ext other
  simp only [mem_inter_iff, mem_singleton_iff, mem_bits, mem_empty_iff_false, iff_false, not_and]
  rintro rfl
  simp [absent]

/-- `MAXIMUM_ALLOWED` is none of the other special bits. -/
theorem maximum_or_and (specific : Mask) {mask : Mask} (apart : maximumAllowed &&& mask = 0) :
    (maximumAllowed ||| specific) &&& mask = specific &&& mask := by
  apply bits_injective
  rw [bits_and, bits_or, union_inter_distrib_right, ← bits_and, apart, bits_zero,
    empty_union, bits_and]

theorem checkable_maximum_iff (specific : Mask) :
    Checkable token privCount (maximumAllowed ||| specific) ↔
      Checkable token privCount specific := by
  rw [Checkable, Checkable, maximum_or_and specific (by decide),
    maximum_or_and specific (by decide)]

section

variable (hasOwner : sd.owner = some owner) (hasGroup : sd.group = some group)
include hasOwner hasGroup

/-- Without a list everything is granted. -/
theorem tokenAccessCheck_unprotected (unprotected : ∀ dacl, ¬ sd.Protected dacl)
    (noGeneric : desiredAccess &&& genericRights = 0) :
    tokenAccessCheck token sd desiredAccess privCount mapping =
      { ret := .success
        grantedAccess :=
          if desiredAccess &&& maximumAllowed ≠ 0 then mapping.all
          else desiredAccess
        status := some .success
        privCount := privCount.map fun _ => 0
        privs := [] } := by
  rw [tokenAccessCheck]
  simp only [noGeneric, ne_eq, not_true_eq_false, if_false, hasOwner, hasGroup]
  cases present : sd.daclPresent with
  | false => rfl
  | true =>
    cases has : sd.dacl with
    | none => rfl
    | some dacl => exact absurd ⟨present, has⟩ (unprotected dacl)

section

variable {dacl : List Ace} (listed : sd.Protected dacl)
include listed

/-- A request for one bit is granted in the order of the list. -/
theorem single_succeeds_iff {bit : Nat} (single : bits desiredAccess = {bit})
    (noGeneric : desiredAccess &&& genericRights = 0)
    (noMaximum : desiredAccess &&& maximumAllowed = 0)
    (noSystem : desiredAccess &&& accessSystemSecurity = 0) :
    (tokenAccessCheck token sd desiredAccess privCount mapping).Succeeds ↔
      BitGranted token owner mapping dacl bit := by
  have nonzero : desiredAccess ≠ 0 := by
    rw [ne_zero_iff, single]
    exact singleton_nonempty bit
  rcases checkOwnerAndDacl_status dacl 0 [] with ⟨ret, status⟩
  rcases @checkOwnerAndDacl_specific token mapping desiredAccess noMaximum
      owner dacl 0 (privCount.map fun _ => 0) [] with
    ⟨whole, granted⟩
  rw [single] at granted
  have one : (∀ right ∈ ({bit} : Set Nat),
      right ∈ bits (startAccess token owner 0) ∨ Earned {bit} (rules token mapping dacl) right) ↔
      BitGranted token owner mapping dacl bit := by
    rw [bitGranted_iff, ← earned_singleton_iff]
    constructor
    · exact fun all => all bit rfl
    · rintro earned right rfl
      exact earned
  rw [tokenAccessCheck_ordinary hasOwner hasGroup listed.1 listed.2 noGeneric noSystem,
    ← one, ← granted, AccessCheck.Succeeds, status, ret]
  constructor
  · rintro ⟨-, success⟩
    apply whole.resolve_right
    intro zero
    rw [zero, if_neg (not_not.mpr rfl)] at success
    cases success
  · intro full
    rw [full, if_pos nonzero]
    exact ⟨rfl, rfl⟩

/-- A request that cannot be checked does not succeed. -/
theorem not_succeeds_of_not_checkable (blocked : ¬ Checkable token privCount desiredAccess) :
    ¬ (tokenAccessCheck token sd desiredAccess privCount mapping).Succeeds := by
  rintro ⟨ret, status⟩
  apply blocked
  by_cases generic : desiredAccess &&& genericRights ≠ 0
  · rw [tokenAccessCheck, if_pos generic] at ret
    cases ret
  · refine ⟨not_not.mp generic, fun system => ?_⟩
    rw [tokenAccessCheck, if_neg generic] at ret status
    simp only [hasOwner, hasGroup, listed.1, listed.2, if_pos system] at ret status
    cases held : (tokenCheckPrivileges token true [⟨seSecurityPrivilege, 0⟩]).1 with
    | false =>
      rw [held, if_neg Bool.false_ne_true] at status
      cases status
    | true =>
      refine ⟨rfl, fun none => ?_⟩
      rw [held, if_pos rfl, if_pos none] at ret
      cases ret

/-- A request with `MAXIMUM_ALLOWED` that can be checked gets the bits that can
be had. -/
theorem tokenAccessCheck_maximum (checkable : Checkable token privCount desiredAccess)
    (maximum : desiredAccess &&& maximumAllowed ≠ 0) :
    let result := tokenAccessCheck token sd desiredAccess privCount mapping
    (result.Succeeds ↔ ∃ bit, Obtainable token owner mapping dacl desiredAccess bit) ∧
      ∀ bit, bit ∈ bits result.grantedAccess ↔
        Obtainable token owner mapping dacl desiredAccess bit := by
  rcases checkable with ⟨noGeneric, available⟩
  have checked : ∃ privCount' privs, tokenAccessCheck token sd desiredAccess privCount mapping =
      checkOwnerAndDacl token owner dacl desiredAccess mapping
        (desiredAccess &&& accessSystemSecurity) privCount' privs := by
    by_cases system : desiredAccess &&& accessSystemSecurity = 0
    · rw [system]
      exact ⟨_, _, tokenAccessCheck_ordinary hasOwner hasGroup listed.1 listed.2 noGeneric system⟩
    · have apart : desiredAccess ≠ accessSystemSecurity := by
        rintro rfl
        exact maximum (by decide)
      rcases available system with ⟨held, room⟩
      rw [tokenAccessCheck, if_neg (not_not.mpr noGeneric)]
      simp only [hasOwner, hasGroup, listed.1, listed.2, held, if_true, if_neg room,
        if_neg apart, and_accessSystemSecurity system]
      exact ⟨_, _, rfl⟩
  rcases checked with ⟨privCount', privs, whole⟩
  have small : desiredAccess &&& accessSystemSecurity &&& maximumAllowed = 0 := by
    have apart : accessSystemSecurity &&& maximumAllowed = 0 := by decide
    rw [BitVec.and_assoc, apart]
    exact BitVec.and_zero
  have member : ∀ bit, _ ↔ _ := fun bit =>
    @checkOwnerAndDacl_maximum token mapping desiredAccess maximum owner dacl _ small
      privCount' privs bit
  simp only [exists_allow_iff, exists_deny_iff] at member
  rcases checkOwnerAndDacl_status dacl
    (desiredAccess &&& accessSystemSecurity) privs with ⟨ret, status⟩
  rw [← whole] at ret status member
  simp only [Obtainable]
  refine ⟨?_, member⟩
  rw [AccessCheck.Succeeds, ret, status, ← exists_congr member]
  split_ifs with some
  · exact iff_of_true ⟨rfl, rfl⟩ ((ne_zero_iff _).mp some)
  · refine iff_of_false ?_ (mt (ne_zero_iff _).mpr some)
    rintro ⟨-, wrong⟩
    cases wrong

end

/-! ## The comparison -/

section

variable (token : Token) (sd : SecurityDescriptor) (mapping : GenericMap)

/-- For one bit, `MAXIMUM_ALLOWED` and the request for the bit alone agree. -/
def AgreesOn (privCount : Option Nat) (bit : Nat) : Prop :=
  (tokenAccessCheck token sd maximumAllowed privCount mapping).grantedAccess.getLsbD bit = true ↔
    (tokenAccessCheck token sd (BitVec.twoPow 32 bit) privCount mapping).Succeeds

/-- A successful request for the maximum and some bits grants these bits. -/
def GrantsRequested (privCount : Option Nat) (specific : Mask) : Prop :=
  (tokenAccessCheck token sd (maximumAllowed ||| specific) privCount mapping).Succeeds →
    (tokenAccessCheck token sd (maximumAllowed ||| specific) privCount
      mapping).grantedAccess &&& specific = specific

end

theorem agreesOn_iff {bit : Nat} (inside : bit < 32) (noGeneric : genericRights.getLsbD bit = false)
    (noMaximum : maximumAllowed.getLsbD bit = false)
    (noSystem : accessSystemSecurity.getLsbD bit = false)
    (covered : mapping.all.getLsbD bit = true) :
    AgreesOn token sd mapping privCount bit ↔ ∀ dacl, sd.Protected dacl →
        ¬ (BitNamed .accessDenied token mapping dacl bit ∧
          BitGranted token owner mapping dacl bit) := by
  have maximum : maximumAllowed &&& maximumAllowed ≠ 0 := by decide
  by_cases unprotected : ∀ dacl, ¬ sd.Protected dacl
  · have whole := @tokenAccessCheck_unprotected token sd owner group mapping privCount
      maximumAllowed hasOwner hasGroup unprotected (by decide)
    have single := @tokenAccessCheck_unprotected token sd owner group mapping privCount
      (BitVec.twoPow 32 bit) hasOwner hasGroup unprotected (twoPow_and_eq_zero inside noGeneric)
    refine iff_of_true ?_ fun dacl listed => absurd listed (unprotected dacl)
    rw [AgreesOn, whole, single, if_pos maximum]
    exact iff_of_true covered ⟨rfl, rfl⟩
  · push Not at unprotected
    rcases unprotected with ⟨dacl, listed⟩
    rw [listed.forall_iff]
    have none : maximumAllowed &&& accessSystemSecurity = 0 := by decide
    have member := (@tokenAccessCheck_maximum token sd owner group mapping privCount maximumAllowed
      hasOwner hasGroup dacl listed ⟨by decide, fun system => absurd none system⟩ maximum).2 bit
    have single := @single_succeeds_iff token sd owner group mapping privCount
      (BitVec.twoPow 32 bit) hasOwner hasGroup dacl listed bit (bits_twoPow inside)
        (twoPow_and_eq_zero inside noGeneric) (twoPow_and_eq_zero inside noMaximum)
          (twoPow_and_eq_zero inside noSystem)
    rw [AgreesOn, ← mem_bits, member, single, Obtainable, none]
    have early : bit ∈ bits (startAccess token owner 0) ∨
        BitNamed .accessAllowed token mapping dacl bit →
        ¬ BitNamed .accessDenied token mapping dacl bit →
        BitGranted token owner mapping dacl bit := by
      intro allowed undenied
      rw [← exists_allow_iff] at allowed
      rw [← exists_deny_iff] at undenied
      rw [bitGranted_iff]
      exact allowed.imp_right fun found => firstAllows_of_not_denied found undenied
    have late : BitGranted token owner mapping dacl bit → bit ∈ bits (startAccess token owner 0) ∨
        BitNamed .accessAllowed token mapping dacl bit := by
      rw [bitGranted_iff, ← exists_allow_iff]
      exact Or.imp_right FirstAllows.exists_allow
    constructor
    · rintro same ⟨denied, granted⟩
      exact (same.mpr granted).2 denied
    · intro apart
      constructor
      · exact fun obtainable => early obtainable.1 obtainable.2
      · exact fun granted => ⟨late granted, fun denied => apart ⟨denied, granted⟩⟩

theorem grantsRequested_iff (specific : Mask) :
    GrantsRequested token sd mapping privCount specific ↔
      ((∀ dacl, ¬ sd.Protected dacl) → specific &&& genericRights = 0 →
          mapping.all &&& specific = specific) ∧
        ∀ dacl, sd.Protected dacl → Checkable token privCount specific →
          (∃ bit, Obtainable token owner mapping dacl specific bit) → ∀ bit ∈ bits specific,
              Obtainable token owner mapping dacl specific bit := by
  have maximum : (maximumAllowed ||| specific) &&& maximumAllowed ≠ 0 := by
    rw [ne_zero_iff, bits_and, bits_or]
    exact ⟨25, .inl (by simp [maximumAllowed]), by simp [maximumAllowed]⟩
  have generic : _ = specific &&& genericRights := maximum_or_and specific (by decide)
  have system : _ = specific &&& accessSystemSecurity := maximum_or_and specific (by decide)
  rw [GrantsRequested]
  by_cases unprotected : ∀ dacl, ¬ sd.Protected dacl
  · rw [and_iff_left fun dacl listed => absurd listed (unprotected dacl)]
    by_cases noGeneric : specific &&& genericRights = 0
    · have whole := @tokenAccessCheck_unprotected token sd owner group mapping privCount
        (maximumAllowed ||| specific) hasOwner hasGroup unprotected (generic.trans noGeneric)
      rw [whole, if_pos maximum]
      constructor
      · exact fun grants _ _ => grants ⟨rfl, rfl⟩
      · exact fun grants _ => grants unprotected noGeneric
    · refine iff_of_true ?_ fun _ none => absurd none noGeneric
      rintro ⟨ret, -⟩
      rw [tokenAccessCheck, if_pos (generic ▸ noGeneric)] at ret
      cases ret
  · push Not at unprotected
    rcases unprotected with ⟨dacl, listed⟩
    rw [and_iff_right fun unprotected => absurd listed (unprotected dacl), listed.forall_iff]
    by_cases checkable : Checkable token privCount specific
    · rcases @tokenAccessCheck_maximum token sd owner group mapping privCount
        (maximumAllowed ||| specific) hasOwner hasGroup dacl listed
          ((checkable_maximum_iff specific).mpr checkable) maximum with
        ⟨succeeds, member⟩
      simp only [Obtainable, system] at succeeds member
      rw [succeeds, and_eq_right_iff]
      simp only [Set.subset_def, member]
      exact ⟨fun grants _ => grants, fun grants => grants checkable⟩
    · refine iff_of_true (fun succeeds => ?_) fun wrong => absurd wrong checkable
      exact absurd succeeds (not_succeeds_of_not_checkable hasOwner hasGroup listed
        (mt (checkable_maximum_iff specific).mp checkable))

end

end Requests

/-- `MAXIMUM_ALLOWED` agrees with the request for a bit alone unless an entry
denies the bit although the list grants it, and it grants the bits requested
with it exactly when they can be had. -/
theorem maximum_allowed_agrees_iff (token : Token) (sd : SecurityDescriptor) (owner group : Sid)
    (mapping : GenericMap) (privCount : Option Nat) (hasOwner : sd.owner = some owner)
    (hasGroup : sd.group = some group) :
    (∀ bit < 32, genericRights.getLsbD bit = false → maximumAllowed.getLsbD bit = false →
      accessSystemSecurity.getLsbD bit = false →
      mapping.all.getLsbD bit = true → (AgreesOn token sd mapping privCount bit ↔
          ∀ dacl, sd.Protected dacl → ¬ (BitNamed .accessDenied token mapping dacl bit ∧
              BitGranted token owner mapping dacl bit))) ∧
      ∀ specific : Mask, (GrantsRequested token sd mapping privCount specific ↔
          ((∀ dacl, ¬ sd.Protected dacl) → specific &&& genericRights = 0 →
              mapping.all &&& specific = specific) ∧
            ∀ dacl, sd.Protected dacl → Checkable token privCount specific →
              (∃ bit, Obtainable token owner mapping dacl specific bit) → ∀ bit ∈ bits specific,
                  Obtainable token owner mapping dacl specific bit) := by
  constructor
  · intro bit inside noGeneric noMaximum noSystem covered
    exact agreesOn_iff hasOwner hasGroup inside noGeneric noMaximum noSystem covered
  · intro specific
    exact grantsRequested_iff hasOwner hasGroup specific

/-- A bit that is allowed and not denied. -/
theorem maximum_allowed_agrees_allowed : AgreesOn userToken
      (foreignDescriptor [⟨.accessAllowed, 0, 1, exampleUser⟩]) ⟨0, 0, 0, 1⟩ none 0 ∧
    GrantsRequested userToken
      (foreignDescriptor [⟨.accessAllowed, 0, 1, exampleUser⟩]) ⟨0, 0, 0, 1⟩ none 1 := by
  have agrees := maximum_allowed_agrees_iff userToken
    (foreignDescriptor [⟨.accessAllowed, 0, 1, exampleUser⟩]) ⟨1, 5, [18]⟩ ⟨1, 5, [18]⟩
    ⟨0, 0, 0, 1⟩ none rfl rfl
  have list : ∀ dacl, (foreignDescriptor [⟨.accessAllowed, 0, 1, exampleUser⟩]).Protected dacl →
      dacl = [⟨.accessAllowed, 0, 1, exampleUser⟩] :=
    fun dacl listed => (Option.some.inj listed.2).symm
  have undenied : ∀ bit, ¬ BitNamed .accessDenied userToken ⟨0, 0, 0, 1⟩
      [⟨.accessAllowed, 0, 1, exampleUser⟩] bit := by
    rintro bit ⟨ace, member, -, denied, -⟩
    rw [mem_singleton.mp member] at denied
    cases denied
  constructor
  · refine (agrees.1 0 (by decide) (by decide) (by decide) (by decide) (by decide)).mpr ?_
    rintro dacl listed ⟨denied, -⟩
    rw [list dacl listed] at denied
    exact undenied 0 denied
  · refine (agrees.2 1).mpr ⟨?_, ?_⟩
    · exact fun unprotected => absurd ⟨rfl, rfl⟩ (unprotected _)
    · intro dacl listed _ _ bit wanted
      rw [list dacl listed]
      have one : (1 : Mask) = BitVec.twoPow 32 0 := by decide
      rw [one, bits_twoPow (by decide)] at wanted
      cases wanted
      exact ⟨.inr ⟨_, mem_singleton_self _, by decide, rfl, by decide⟩, undenied 0⟩

/-- A bit that is allowed first and denied later is granted alone and not with
`MAXIMUM_ALLOWED`. -/
theorem maximum_allowed_misses_allowed_bit : ¬ AgreesOn userToken (foreignDescriptor
        [⟨.accessAllowed, 0, 1, exampleUser⟩, ⟨.accessDenied, 0, 1, exampleUser⟩])
      ⟨0, 0, 0, 1⟩ none 0 := by
  rw [AgreesOn]
  decide

end WineRedRose.Tokens
