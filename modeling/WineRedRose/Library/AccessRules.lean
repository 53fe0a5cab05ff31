import Mathlib.Tactic

/-!
# Ordered lists of allow and deny rules

A rule allows or denies a set of rights.  Two ways to read a list of rules
are compared.  In the first-match reading each right is settled by the first
rule that names it.  In the scanning reading a request collects rights from
the front and stops at the first deny rule that touches any requested right,
whether or not that right has been collected before.

The scanning reading never grants more.  It grants less exactly when the stop
comes too early, which `Blocked` describes.
-/

namespace WineRedRose.Library.AccessRules

open List

variable {Right Holder : Type*}

/-- A rule of an access list, with the party it is about. -/
structure Rule (Right Holder : Type*) where
  holder : Holder
  allow : Bool
  rights : Set Right

/-- The rule names a requested right. -/
def Rule.Touches (rule : Rule Right Holder) (desired : Set Right) : Prop :=
  ∃ right ∈ desired, right ∈ rule.rights

/-- The first rule that names the right allows it. -/
def FirstAllows : List (Rule Right Holder) → Right → Prop
  | [], _ => False
  | rule :: rules, right =>
    (right ∈ rule.rights ∧ rule.allow = true) ∨ (right ∉ rule.rights ∧ FirstAllows rules right)

/-- A rule allows the right before a deny rule touches the request. -/
def Earned (desired : Set Right) : List (Rule Right Holder) → Right → Prop
  | [], _ => False
  | rule :: rules, right =>
    (rule.allow = true ∧ (right ∈ rule.rights ∨ Earned desired rules right)) ∨
      (rule.allow = false ∧ ¬ rule.Touches desired ∧ Earned desired rules right)

/--
The first deny rule that touches the request comes when a requested right is
neither held at the start nor allowed by an earlier rule.
-/
def BlockedBy (held desired : Set Right) (rules : List (Rule Right Holder))
    (rule : Rule Right Holder) : Prop :=
  ∃ pre post, rules = pre ++ rule :: post ∧ rule.allow = false ∧ rule.Touches desired ∧
    (∀ earlier ∈ pre, earlier.allow = false → ¬ earlier.Touches desired) ∧
    ∃ right ∈ desired, right ∉ held ∧ ∀ earlier ∈ pre, earlier.allow = true → right ∉ earlier.rights

/-- Some rule blocks the request. -/
def Blocked (held desired : Set Right) (rules : List (Rule Right Holder)) : Prop :=
  ∃ rule, BlockedBy held desired rules rule

/-! ## The scanning reading against the first match -/

variable {desired : Set Right} {rules : List (Rule Right Holder)} {right : Right}

theorem Earned.firstAllows (earned : Earned desired rules right) (wanted : right ∈ desired) :
    FirstAllows rules right := by
  induction rules with
  | nil => exact earned
  | cons rule rules ih =>
    rcases earned with ⟨allow, here | later⟩ | ⟨-, untouched, later⟩
    · exact .inl ⟨here, allow⟩
    · by_cases here : right ∈ rule.rights
      · exact .inl ⟨here, allow⟩
      · exact .inr ⟨here, ih later⟩
    · have absent : right ∉ rule.rights := fun here => untouched ⟨right, wanted, here⟩
      exact .inr ⟨absent, ih later⟩

/-- A right that is earned comes from an allow rule before every stop. -/
theorem earned_iff :
    Earned desired rules right ↔ ∃ pre rule post, rules = pre ++ rule :: post ∧ rule.allow = true ∧
      right ∈ rule.rights ∧ ∀ earlier ∈ pre, earlier.allow = false → ¬ earlier.Touches desired := by
  induction rules with
  | nil => simp [Earned]
  | cons head rules ih =>
    rw [Earned]
    constructor
    · rintro (⟨allow, here | earned⟩ | ⟨deny, untouched, earned⟩)
      · exact ⟨[], head, rules, rfl, allow, here, by simp⟩
      all_goals
        obtain ⟨pre, rule, post, rfl, allows, here, before⟩ := ih.mp earned
        refine ⟨head :: pre, rule, post, rfl, allows, here, forall_mem_cons.mpr ⟨?_, before⟩⟩
      · simp [allow]
      · exact fun _ => untouched
    · rintro ⟨pre, rule, post, same, allow, here, before⟩
      cases pre with
      | nil =>
        cases same
        exact .inl ⟨allow, .inl here⟩
      | cons first pre =>
        cases same
        rw [forall_mem_cons] at before
        have later := ih.mpr ⟨pre, rule, post, rfl, allow, here, before.2⟩
        cases kind : head.allow with
        | true => exact .inl ⟨rfl, .inr later⟩
        | false => exact .inr ⟨rfl, before.1 kind, later⟩

theorem FirstAllows.exists_allow (allows : FirstAllows rules right) :
    ∃ rule ∈ rules, rule.allow = true ∧ right ∈ rule.rights := by
  induction rules with
  | nil => exact allows.elim
  | cons rule rules ih =>
    rcases allows with ⟨here, allow⟩ | ⟨-, later⟩
    · exact ⟨rule, mem_cons_self, allow, here⟩
    · rcases ih later with ⟨other, member, rest⟩
      exact ⟨other, mem_cons_of_mem rule member, rest⟩

/-- Without a stop every allow rule counts. -/
theorem earned_of_untouched
    (untouched : ∀ rule ∈ rules, rule.allow = false → ¬ rule.Touches desired)
    {rule : Rule Right Holder} (member : rule ∈ rules) (allow : rule.allow = true)
    (here : right ∈ rule.rights) : Earned desired rules right := by
  rcases append_of_mem member with ⟨pre, post, rfl⟩
  rw [earned_iff]
  refine ⟨pre, rule, post, rfl, allow, here, fun earlier before => ?_⟩
  exact untouched earlier (mem_append_left _ before)

/-- The first deny rule that touches a request, if there is one. -/
theorem exists_first_touching (desired : Set Right) (rules : List (Rule Right Holder)) :
    (∀ rule ∈ rules, rule.allow = false → ¬ rule.Touches desired) ∨
      ∃ pre rule post, rules = pre ++ rule :: post ∧ rule.allow = false ∧ rule.Touches desired ∧
      ∀ earlier ∈ pre, earlier.allow = false → ¬ earlier.Touches desired := by
  classical
  cases first : rules.find? fun rule => rule.allow = false ∧ rule.Touches desired with
  | none => exact .inl (by simpa using first)
  | some rule =>
    rcases find?_eq_some_iff_append.mp first with ⟨stops, pre, post, rfl, before⟩
    have stops : rule.allow = false ∧ rule.Touches desired := of_decide_eq_true stops
    refine .inr ⟨pre, rule, post, rfl, stops.1, stops.2, fun earlier member deny touches => ?_⟩
    simpa [deny, touches] using before earlier member

/-- A stop ends the collecting. -/
theorem Earned.before_stop {pre post : List (Rule Right Holder)} {rule : Rule Right Holder}
    (deny : rule.allow = false) (touches : rule.Touches desired)
    (earned : Earned desired (pre ++ rule :: post) right) :
    ∃ earlier ∈ pre, earlier.allow = true ∧ right ∈ earlier.rights := by
  induction pre with
  | nil =>
    rcases earned with ⟨allow, -⟩ | ⟨-, untouched, -⟩
    · simp [deny] at allow
    · exact (untouched touches).elim
  | cons head pre ih =>
    rcases earned with ⟨allow, here | later⟩ | ⟨-, -, later⟩
    · exact ⟨head, mem_cons_self, allow, here⟩
    all_goals exact (ih later).imp fun other found => ⟨mem_cons_of_mem head found.1, found.2⟩

/-- A blocked request is not granted in the scanning reading. -/
theorem Blocked.not_granted {held : Set Right} (blocked : Blocked held desired rules) :
    ¬ ∀ right ∈ desired, right ∈ held ∨ Earned desired rules right := by
  rcases blocked with ⟨rule, pre, post, rfl, deny, touches, -, right, wanted, missing, never⟩
  intro granted
  rcases granted right wanted with have_ | earned
  · exact missing have_
  · rcases earned.before_stop deny touches with ⟨earlier, before, allow, here⟩
    exact never earlier before allow here

/--
A request that is not granted although every right is held or allowed by some
rule is blocked.
-/
theorem blocked_of_not_granted {held : Set Right} (allowed : ∀ right ∈ desired, right ∈ held ∨
      ∃ rule ∈ rules, rule.allow = true ∧ right ∈ rule.rights)
    (refused : ¬ ∀ right ∈ desired, right ∈ held ∨ Earned desired rules right) :
    Blocked held desired rules := by
  push Not at refused
  rcases refused with ⟨right, wanted, missing, unearned⟩
  rcases exists_first_touching desired rules with
    untouched | ⟨pre, rule, post, rfl, deny, touches, before⟩
  · rcases (allowed right wanted).resolve_left missing with ⟨rule, member, allow, here⟩
    exact (unearned (earned_of_untouched untouched member allow here)).elim
  · refine ⟨rule, pre, post, rfl, deny, touches, before, right, wanted,
      missing, fun earlier member allow here => unearned ?_⟩
    rcases append_of_mem member with ⟨pre', post', rfl⟩
    rw [earned_iff]
    refine ⟨pre', earlier, post' ++ rule :: post, by simp, allow, here, ?_⟩
    exact fun first inside => before first (mem_append_left _ inside)

/--
The scanning reading agrees with the first match on a request unless the
first match grants it and the scan is blocked.
-/
theorem granted_iff_firstAllows (held : Set Right) :
    ((∀ right ∈ desired, right ∈ held ∨ Earned desired rules right) ↔
        ∀ right ∈ desired, right ∈ held ∨ FirstAllows rules right) ↔
      ¬ ((∀ right ∈ desired, right ∈ held ∨ FirstAllows rules right) ∧
        Blocked held desired rules) := by
  constructor
  · rintro same ⟨first, blocked⟩
    exact blocked.not_granted (same.mpr first)
  · intro notBoth
    constructor
    · intro granted right wanted
      exact (granted right wanted).imp_right fun earned => earned.firstAllows wanted
    · intro first
      by_contra refused
      apply notBoth
      refine ⟨first, blocked_of_not_granted (fun right wanted => ?_) refused⟩
      exact (first right wanted).imp_right FirstAllows.exists_allow

/-! ## A single right -/

/-- For a single right the two readings agree. -/
theorem earned_singleton_iff : Earned {right} rules right ↔ FirstAllows rules right := by
  constructor
  · exact fun earned => earned.firstAllows rfl
  · intro first
    induction rules with
    | nil => exact first
    | cons rule rules ih =>
      rcases first with ⟨here, allow⟩ | ⟨absent, later⟩
      · exact .inl ⟨allow, .inl here⟩
      · cases kind : rule.allow with
        | true => exact .inl ⟨kind, .inr (ih later)⟩
        | false =>
          refine .inr ⟨kind, ?_, ih later⟩
          rintro ⟨other, rfl, here⟩
          exact absent here

/-- A right that some rule allows and none denies is allowed first. -/
theorem firstAllows_of_not_denied
    (allowed : ∃ rule ∈ rules, rule.allow = true ∧ right ∈ rule.rights)
    (undenied : ¬ ∃ rule ∈ rules, rule.allow = false ∧ right ∈ rule.rights) :
    FirstAllows rules right := by
  rcases allowed with ⟨rule, member, allow, here⟩
  have earned : Earned {right} rules right := by
    apply earned_of_untouched _ member allow here
    rintro other member' deny ⟨right', rfl, there⟩
    exact undenied ⟨other, member', deny, there⟩
  exact earned.firstAllows rfl

/-! ## Dropping rules -/

/--
When rules are dropped and fewer rights are held at the start, a request is
granted afterwards but not before exactly if it is granted afterwards and a
dropped rule blocked it before.
-/
theorem granted_filter_imp_iff {held held' desired : Set Right} {rules : List (Rule Right Holder)}
    (keep : Rule Right Holder → Bool) (less : held' ⊆ held) :
    ((∀ right ∈ desired, right ∈ held' ∨ Earned desired (rules.filter keep) right) →
        ∀ right ∈ desired, right ∈ held ∨ Earned desired rules right) ↔
      ¬ ((∀ right ∈ desired, right ∈ held' ∨ Earned desired (rules.filter keep) right) ∧
        ∃ rule, keep rule = false ∧ BlockedBy held desired rules rule) := by
  constructor
  · rintro imp ⟨granted, rule, -, blocked⟩
    exact Blocked.not_granted ⟨rule, blocked⟩ (imp granted)
  · intro notBoth granted
    by_contra refused
    have allowed : ∀ right ∈ desired, right ∈ held ∨
        ∃ rule ∈ rules, rule.allow = true ∧ right ∈ rule.rights := by
      intro right wanted
      refine (granted right wanted).imp (fun here => less here) fun earned => ?_
      rcases (earned.firstAllows wanted).exists_allow with ⟨rule, member, rest⟩
      exact ⟨rule, mem_of_mem_filter member, rest⟩
    rcases blocked_of_not_granted allowed refused with ⟨rule, blocked⟩
    refine notBoth ⟨granted, rule, ?_, blocked⟩
    rcases blocked with ⟨pre, post, rfl, deny, touches, -, right, wanted, missing, never⟩
    -- A rule that is kept stops the later request at the same place.
    by_contra kept
    rw [Bool.not_eq_false] at kept
    rcases granted right wanted with here | earned
    · exact missing (less here)
    · rw [filter_append, filter_cons_of_pos kept] at earned
      rcases earned.before_stop deny touches with ⟨earlier, before, allow, here⟩
      exact never earlier (mem_of_mem_filter before) allow here

end WineRedRose.Library.AccessRules
