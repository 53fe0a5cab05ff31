import WineRedRose.Lookup.Paths

/-!
# When lookups end

Links inside links end by the limit of `recursion_count`, and each element of the
path is consumed.  But the target of a link at the end of a path may be missing:
then its last element becomes the path, and in a lookup for a 32-bit program the
parent of a reflected key may have a subkey of that name which is a link again.
A lookup does not end exactly if links lead to each other in this way in a cycle.

A lookup that opens links itself finds symbolic links where others find their
targets.  It ends if the targets of symbolic links do not lead to each other in a
cycle.
-/

namespace WineRedRose.Lookup

open Registry Library.Loops

variable {lower : WChar → WChar} {ns : Namespace} {attr : Attributes}
  {turns count depth : Nat} {obj : Obj} {k p : KeyId}

/-! ## The tree -/

/-- The registry is a tree below its root key; subkeys have names, and reflected
keys have parents. -/
structure Tree (lower : WChar → WChar) (ns : Namespace) : Prop where
  linked : Linked lower ns.reg
  root : (ns.reg.key ns.rootKey).parent = none
  named : ∀ {k p}, (ns.reg.key k).parent = some p → (ns.reg.key k).name ≠ []
  reflected : ∀ {k}, ns.reflected k = true → (ns.reg.key k).deleted = false →
    ∃ p, (ns.reg.key k).parent = some p

variable {c : KeyId} {name : Option Name}

theorem Tree.parent_of_child (tree : Tree lower ns) {name : Name}
    (present : child lower ns k name = some c) : (ns.reg.key c).parent = some k :=
  ((tree.linked.findSubkey_eq_some_iff name).mp present).1

/-- Neither the key nor one above it is a link. -/
inductive Clean (ns : Namespace) : KeyId → Prop where
  | intro {k : KeyId} (noLink : (ns.reg.key k).symlink = false)
      (above : ∀ p, (ns.reg.key k).parent = some p → Clean ns p) : Clean ns k

theorem Clean.noLink (clean : Clean ns k) : (ns.reg.key k).symlink = false := by
  cases clean with
  | intro noLink _ => exact noLink

theorem Clean.parent (clean : Clean ns k) (parent : (ns.reg.key k).parent = some p) :
    Clean ns p := by
  cases clean with
  | intro _ above => exact above p parent

/-- No key above an object is a link. -/
def CleanAbove (ns : Namespace) : Obj → Prop
  | .key k => ∀ p, (ns.reg.key k).parent = some p → Clean ns p
  | .directory _ | .symlink _ | .other _ => True

theorem Tree.cleanAbove_obj (tree : Tree lower ns) (entry : Entry) :
    CleanAbove ns (ns.obj entry) := by
  cases entry with
  | registry =>
    intro p parent
    rw [tree.root] at parent
    cases parent
  | directory d => trivial
  | symlink s => trivial
  | other o => trivial

/-! ## Where targets lead -/

/-- Where the path of a target can end. -/
inductive Settled (lower : WChar → WChar) (ns : Namespace) : Found → Prop where
  | directory {d : DirectoryId} {name : Option Name}
      (stops : directoryLookupName lower ns d name linkAttributes = .stop name) :
      Settled lower ns (.directory d, name)
  | whole {k : KeyId} (plain : Plain ns k) (clean : Clean ns k) : Settled lower ns (.key k, none)
  | missing {k : KeyId} {name : Name} (plain : Plain ns k) (clean : Clean ns k)
      (short : name.length ≤ maxNameLen) (absent : child lower ns k name = none)
      (single : element name = name) : Settled lower ns (.key k, some name)
  | other {o : OtherId} {name : Option Name} : Settled lower ns (.other o, name)

theorem Settled.cleanAbove {found : Found} (settled : Settled lower ns found) :
    CleanAbove ns found.1 := by
  cases settled with
  | directory _ => trivial
  | whole _ clean => exact fun p parent => clean.parent parent
  | missing _ clean _ _ _ => exact fun p parent => clean.parent parent
  | other => trivial

theorem Leads.settled (tree : Tree lower ns) {found : Found}
    (leads : Leads lower ns depth obj name found) (start : CleanAbove ns obj) :
    Settled lower ns found := by
  induction leads with
  | directory => exact Settled.directory rfl
  | @unknown depth d name single named absent =>
    refine Settled.directory ?_
    rw [← single] at absent
    rw [directoryLookupName_absent absent, single, if_neg named, if_neg (lt_irrefl _)]
  | @entry depth d name entry found _ _ ih => exact ih (tree.cleanAbove_obj entry)
  | whole plain => exact Settled.whole plain (Clean.intro plain.noLink start)
  | missing plain short absent _ =>
    exact Settled.missing plain (Clean.intro plain.noLink start) short absent element_element
  | down plain _ present _ ih =>
    refine ih fun p parent => ?_
    rw [tree.parent_of_child present, Option.some.injEq] at parent
    rw [← parent]
    exact Clean.intro plain.noLink start
  | linkEnd _ _ _ _ first second => exact second (first trivial).cleanAbove
  | linkOn _ _ _ _ _ first second => exact second (first trivial).cleanAbove
  | linkRoot _ _ _ ih => exact ih trivial
  | symlinkEmpty _ _ ih => exact ih trivial
  | symlink _ _ _ _ first second => exact second (first trivial).cleanAbove
  | symlinkRoot _ _ ih => exact ih trivial
  | other _ => exact Settled.other

/-- More links may be inside each other. -/
theorem Leads.mono {more : Nat} {found : Found} (leads : Leads lower ns depth obj name found)
    (le : depth ≤ more) : Leads lower ns more obj name found := by
  induction leads generalizing more with
  | directory => exact .directory
  | unknown single named absent => exact .unknown single named absent
  | entry present _ ih => exact .entry present (ih le)
  | whole plain => exact .whole plain
  | missing plain short absent last => exact .missing plain short absent last
  | down plain short present _ ih => exact .down plain short present (ih le)
  | linkEnd link ends _ _ first second =>
    obtain ⟨more, rfl⟩ := Nat.exists_eq_add_of_lt le
    exact .linkEnd link ends (first (by omega)) (second (by omega))
  | linkOn link some _ complete _ first second =>
    obtain ⟨more, rfl⟩ := Nat.exists_eq_add_of_lt le
    exact .linkOn link some (first (by omega)) complete (second (by omega))
  | linkRoot link some _ ih =>
    obtain ⟨more, rfl⟩ := Nat.exists_eq_add_of_lt le
    exact .linkRoot link some (ih (by omega))
  | symlinkEmpty empty _ ih => exact .symlinkEmpty empty (ih le)
  | symlink link _ complete _ first second =>
    obtain ⟨more, rfl⟩ := Nat.exists_eq_add_of_lt le
    exact .symlink link (first (by omega)) complete (second (by omega))
  | symlinkRoot link _ ih =>
    obtain ⟨more, rfl⟩ := Nat.exists_eq_add_of_lt le
    exact .symlinkRoot link (ih (by omega))
  | other ended => exact .other ended

/-! ## Links that lead to links -/

/-- From a reflected key without a subkey of a name, the lookup for a 32-bit
program goes up to a subkey of that name. -/
inductive Climbs (lower : WChar → WChar) (ns : Namespace) (name : Name) :
    KeyId → KeyId → Prop where
  | parent {k p c : KeyId} (reflected : ns.reflected k = true)
      (parent : (ns.reg.key k).parent = some p)
      (present : child lower ns p name = some c) : Climbs lower ns name k c
  | above {k p c : KeyId} (reflected : ns.reflected k = true)
      (parent : (ns.reg.key k).parent = some p)
      (absent : child lower ns p name = none) (plain : Plain ns p)
      (further : Climbs lower ns name p c) : Climbs lower ns name k c

/-- The target of a link misses its last element, and this leads up to a key. -/
def Refill (lower : WChar → WChar) (ns : Namespace) (depth : Nat) (link next : KeyId) : Prop :=
  ∃ path k name, LinksTo lower ns link path ∧
    Leads lower ns depth (.directory ns.rootDirectory) (some path) (.key k, some name) ∧
    Climbs lower ns name k next

theorem Refill.mono {more : Nat} {link next : KeyId} (refill : Refill lower ns depth link next)
    (le : depth ≤ more) : Refill lower ns more link next := by
  rcases refill with ⟨path, k, name, linksTo, leads, climbs⟩
  exact ⟨path, k, name, linksTo, leads.mono le, climbs⟩

/-- The loop ends. -/
def Ends (lower : WChar → WChar) (ns : Namespace) (attr : Attributes) (count : Nat)
    (obj : Obj) (name : Option Name) : Prop :=
  ∃ turns result, lookupLoop lower ns turns attr count obj name = some result

/-- The loop ends after a turn. -/
def TurnEnds (lower : WChar → WChar) (ns : Namespace) (attr : Attributes)
    (count : Nat) (turn : Turn) : Prop :=
  ∀ obj name, turn = .next obj name → Ends lower ns attr count obj name

theorem turnEnds_stop : TurnEnds lower ns attr count (.stop name) := fun _ _ eq => by cases eq

theorem turnEnds_failed {status : Status} :
    TurnEnds lower ns attr count (.failed status) := fun _ _ eq => by cases eq

theorem turnEnds_next (ends : Ends lower ns attr count obj name) :
    TurnEnds lower ns attr count (.next obj name) := by
  intro obj' name' eq
  cases eq
  exact ends

theorem TurnEnds.afterTurn {turn : Turn} (ends : TurnEnds lower ns attr count turn) (obj : Obj) :
    ∃ turns result, afterTurn (lookupLoop lower ns turns attr) obj turn count = some result := by
  cases turn with
  | stop name => exact ⟨0, _, rfl⟩
  | failed status => exact ⟨0, _, rfl⟩
  | next obj name => exact ends obj name rfl

theorem TurnEnds.ends {turn : Turn} (ends : TurnEnds lower ns attr count turn)
    (here : lookupName lower ns attr obj name = .turn turn) :
    Ends lower ns attr count obj name := by
  rcases ends.afterTurn obj with ⟨turns, result, done⟩
  exact ⟨turns + 1, result, (lookupLoop_turn here).trans done⟩

theorem ends_other (o : OtherId) (name : Option Name) : Ends lower ns attr count (.other o) name :=
  ⟨1, _, lookupLoop_ended rfl⟩

/-- Every lookup of a target ends. -/
def TargetsEnd (lower : WChar → WChar) (ns : Namespace) (attr : Attributes) (count : Nat) : Prop :=
  ∀ target, ∃ turns result,
    lookupNamedObject ns (lookupLoop lower ns turns attr) count none target = some result

/-- A loop ends at a link if it ends wherever the target leads. -/
theorem TargetsEnd.ends {linkAttr : Attributes} {target : Name} {next : Found → Turn}
    (targets : TargetsEnd lower ns linkAttr count)
    (here : lookupName lower ns attr obj name = .follow linkAttr target next)
    (further : ∀ turns found, lookupNamedObject ns (lookupLoop lower ns turns linkAttr) count
      none target = some (.ok found, count) → TurnEnds lower ns attr count (next found)) :
    Ends lower ns attr count obj name := by
  rcases targets target with ⟨turns, ⟨status | found, count'⟩, looked⟩
  · refine ⟨turns + 1, (.error status, count'), ?_⟩
    rw [lookupLoop_follow here, looked]
    rfl
  · have same := (lookupLoop_steady lower ns turns linkAttr).1.lookupNamedObject looked
    subst same
    rcases (further turns found looked).afterTurn obj with ⟨more, result, done⟩
    rcases lookupLoop_through more here looked done with ⟨turns, done⟩
    exact ⟨turns, result, done⟩

/-- What the lookup of the target of a key can find. -/
def Resolved (lower : WChar → WChar) (ns : Namespace) (count : Nat) (path : Name)
    (target : Found) : Prop :=
  path = [] ∧ target = (.directory ns.rootDirectory, some []) ∨
    Leads lower ns (maxRecursion - count) (.directory ns.rootDirectory) (some path) target

theorem ends_link {path : Name} (targets : TargetsEnd lower ns linkAttributes count)
    (link : LinksTo lower ns k path) (follows : ¬ (nameLen name = 0 ∧ attr.openLink = true))
    (further : ∀ target, count ≤ maxRecursion → Resolved lower ns count path target →
      TurnEnds lower ns attr count (followLink ns attr name target)) :
    Ends lower ns attr count (.key k) name := by
  refine targets.ends (lookupName_link link follows) fun turns target looked => ?_
  rcases (lookupLoop_sound lower ns turns).target looked with ⟨few, resolved⟩
  exact further target few resolved

/-- A loop ends at a key if it ends there as at a plain key and as at a link. -/
theorem ends_key (plain : Plain ns k →
      TurnEnds lower ns attr count (elementLookup lower ns k name attr))
    (link : ∀ path, LinksTo lower ns k path → ¬ (nameLen name = 0 ∧ attr.openLink = true) →
      Ends lower ns attr count (.key k) name) :
    Ends lower ns attr count (.key k) name := by
  rcases key_cases lower ns attr k name with
    isPlain | ⟨path, isLink, follows⟩ | ⟨_, ⟨rfl, -⟩ | ⟨status, -, rfl⟩, here⟩
  · exact (plain isPlain).ends (lookupName_plain isPlain)
  · exact link path isLink follows
  · exact turnEnds_stop.ends here
  · exact turnEnds_failed.ends here

theorem Clean.ends (clean : Clean ns k)
    (plain : Plain ns k → TurnEnds lower ns attr count (elementLookup lower ns k name attr)) :
    Ends lower ns attr count (.key k) name := by
  refine ends_key plain fun path link _ => ?_
  exact absurd (clean.noLink.symm.trans link.link) Bool.false_ne_true

/-- The loop ends for all shorter paths. -/
def ShorterEnd (lower : WChar → WChar) (ns : Namespace) (attr : Attributes)
    (count : Nat) (name : Name) : Prop :=
  ∀ obj shorter, weight shorter < weight (some name) → Ends lower ns attr count obj shorter

/-- A lookup does not go on from what a directory does not have. -/
theorem ends_directory_absent {name : Name} {d : DirectoryId}
    (absent : findObject lower ns attr d (element name) = none) :
    Ends lower ns attr count (.directory d) (some name) := by
  refine TurnEnds.ends ?_ rfl
  rw [directoryLookupName_absent absent]
  split
  · exact turnEnds_failed
  · split
    · exact turnEnds_failed
    · exact turnEnds_stop

section

variable {name : Name} (shorter : ShorterEnd lower ns attr count name)
include shorter

theorem ShorterEnd.moveOn (c : KeyId) :
    TurnEnds lower ns attr count (moveOn lower ns attr c (behindElement name)) := by
  rcases moveOn_next (behindElement name) with ⟨k, eq, -⟩
  rw [eq]
  exact turnEnds_next (shorter (.key k) _ weight_restName_lt)

theorem ShorterEnd.elementLookup
    (up : ∀ p, (ns.reg.key k).parent = some p → Ends lower ns attr count (.key p) (some name)) :
    TurnEnds lower ns attr count (elementLookup lower ns k (some name) attr) := by
  by_cases short : (element name).length ≤ maxNameLen
  · cases present : child lower ns k (element name) with
    | some c =>
      rw [elementLookup_found short present]
      exact shorter.moveOn c
    | none =>
      by_cases goesUp : ns.reflected k = true ∧ attr.wow64 = true
      · cases parent : (ns.reg.key k).parent with
        | none =>
          simp only [Lookup.elementLookup, if_neg (Nat.not_lt.mpr short), present,
            if_pos goesUp, parent]
          exact turnEnds_failed
        | some p =>
          rw [elementLookup_up short present goesUp.1 goesUp.2 parent]
          cases child lower ns p (element name) with
          | some c => exact shorter.moveOn c
          | none => exact turnEnds_next (up p parent)
      · rw [elementLookup_missing short present goesUp]
        split
        · exact turnEnds_failed
        · exact turnEnds_stop
  · rw [elementLookup_long (Nat.lt_of_not_le short)]
    exact turnEnds_failed

theorem ShorterEnd.directory (d : DirectoryId) :
    Ends lower ns attr count (.directory d) (some name) := by
  cases present : findObject lower ns attr d (element name) with
  | some entry =>
    refine TurnEnds.ends ?_ rfl
    rw [directoryLookupName_entry present]
    exact turnEnds_next (shorter _ _ weight_belowEntry_lt)
  | none => exact ends_directory_absent present

theorem ShorterEnd.clean (clean : Clean ns k) :
    Ends lower ns attr count (.key k) (some name) := by
  induction clean with
  | intro noLink above ih => exact (Clean.intro noLink above).ends fun _ => shorter.elementLookup ih

theorem ShorterEnd.settled {target : Found} (settled : Settled lower ns target) :
    Ends lower ns attr count target.1 (some name) := by
  cases settled with
  | directory _ => exact shorter.directory _
  | whole _ clean => exact shorter.clean clean
  | missing _ clean _ _ _ => exact shorter.clean clean
  | other => exact ends_other _ _

end

/-! ## Links at the end of a path -/

theorem ends_directory_none (d : DirectoryId) : Ends lower ns attr count (.directory d) none :=
  turnEnds_stop.ends rfl

theorem ends_clean_none (clean : Clean ns k) : Ends lower ns attr count (.key k) none :=
  clean.ends fun _ => turnEnds_stop

/-- A missing last element is looked for in the keys above reflected keys. -/
theorem turnEnds_climb {name : Name} (clean : Clean ns k)
    (short : (element name).length ≤ maxNameLen) (single : element name = name)
    (absent : child lower ns k (element name) = none)
    (further : attr.wow64 = true → ∀ c, Climbs lower ns name k c →
      Ends lower ns attr count (.key c) none) :
    TurnEnds lower ns attr count (elementLookup lower ns k (some name) attr) := by
  have last := behindElement_of_single single
  induction clean with
  | @intro k noLink above ih =>
    by_cases goesUp : ns.reflected k = true ∧ attr.wow64 = true
    · cases parent : (ns.reg.key k).parent with
      | none =>
        simp only [elementLookup, if_neg (Nat.not_lt.mpr short), absent, if_pos goesUp, parent]
        exact turnEnds_failed
      | some p =>
        rw [elementLookup_up short absent goesUp.1 goesUp.2 parent, last]
        cases present : child lower ns p (element name) with
        | some c =>
          rw [single] at present
          exact turnEnds_next (further goesUp.2 c (Climbs.parent goesUp.1 parent present))
        | none =>
          refine turnEnds_next ((above p parent).ends fun plain => ?_)
          refine ih p parent present fun wow64 c climbs => ?_
          rw [single] at present
          exact further wow64 c (Climbs.above goesUp.1 parent present plain climbs)
    · rw [elementLookup_missing short absent goesUp, last]
      exact turnEnds_stop

theorem memicmpStrW_self (name : Name) : memicmpStrW lower name name = 0 := by
  induction name with
  | nil => rfl
  | cons c name ih => simp [memicmpStrW, ih]

theorem sameName_anyCase {a b : Name} (same : sameName lower attr a b = true) :
    sameName lower linkAttributes a b = true := by
  simp only [sameName, linkAttributes, if_true, Bool.and_eq_true, decide_eq_true_eq] at same ⊢
  refine ⟨same.1, ?_⟩
  cases anyCase : attr.caseInsensitive with
  | true => simpa [anyCase] using same.2
  | false =>
    have equal : a = b := by simpa [anyCase] using same.2
    rw [equal]
    exact memicmpStrW_self b

/-- A directory does not have what it does not have in any case. -/
theorem findObject_anyCase {d : DirectoryId} {name : Name}
    (absent : findObject lower ns linkAttributes d name = none) :
    findObject lower ns attr d name = none := by
  unfold findObject at absent ⊢
  split
  · rfl
  · next named =>
      rw [if_neg named, Option.map_eq_none_iff, List.find?_eq_none] at absent
      rw [Option.map_eq_none_iff, List.find?_eq_none]
      intro entry member same
      exact absent entry member (sameName_anyCase same)

theorem ends_directory_stopped {d : DirectoryId}
    (stops : directoryLookupName lower ns d name linkAttributes = .stop name) :
    Ends lower ns attr count (.directory d) name := by
  cases name with
  | none => exact ends_directory_none d
  | some name =>
    cases present : findObject lower ns linkAttributes d (element name) with
    | some entry =>
      rw [directoryLookupName_entry present] at stops
      cases stops
    | none => exact ends_directory_absent (findObject_anyCase present)

/-- A loop goes on behind a link at the end of a path. -/
theorem turnEnds_linkEnd {target : Found} (ends : nameLen name = 0)
    (noKey : ∀ k, target.1 ≠ .key k) (further : Ends lower ns attr count target.1 target.2) :
    TurnEnds lower ns attr count (followLink ns attr name target) := by
  rcases target with ⟨obj, _ | left⟩
  · cases obj with
    | key k => exact absurd rfl (noKey k)
    | directory d | symlink s | other o =>
      simp only [followLink, if_pos ends]
      split
      · exact turnEnds_failed
      · exact turnEnds_next further
  · simp only [followLink, if_pos ends]
    exact turnEnds_next further

theorem Settled.turnEnds {target : Found}
    (settled : Settled lower ns target) (ends : nameLen name = 0)
    (further : attr.wow64 = true → ∀ k left c, target = (.key k, some left) →
      Climbs lower ns left k c → Ends lower ns attr count (.key c) none) :
    TurnEnds lower ns attr count (followLink ns attr name target) := by
  cases settled with
  | directory stops => exact turnEnds_linkEnd ends (by simp) (ends_directory_stopped stops)
  | @whole k plain clean =>
    simp only [followLink, if_pos ends]
    split
    · split
      · exact turnEnds_failed
      · next p parent => exact turnEnds_next (ends_clean_none (clean.parent parent))
    · exact turnEnds_next (ends_clean_none clean)
  | @missing k left plain clean short absent single =>
    simp only [followLink, if_pos ends]
    refine turnEnds_next (clean.ends fun _ => ?_)
    rw [← single] at short absent
    exact turnEnds_climb clean short single absent
      fun wow64 c climbs => further wow64 k left c rfl climbs
  | other => exact turnEnds_linkEnd ends (by simp) (ends_other _ _)

/-- Links can lead to each other: the lookup is for a 32-bit program, it is not
to open a link itself, and the count allows another lookup. -/
structure CanRefill (attr : Attributes) (count : Nat) : Prop where
  wow64 : attr.wow64 = true
  follows : attr.openLink = false
  few : count ≤ maxRecursion

section

variable (tree : Tree lower ns) (targets : TargetsEnd lower ns linkAttributes count)
include tree targets

/-- A loop ends at a link at the end of a path if it ends at the links to which
this leads. -/
theorem ends_linkEnd (ends : nameLen name = 0) {path : Name} (link : LinksTo lower ns k path)
    (follows : ¬ (nameLen name = 0 ∧ attr.openLink = true))
    (further : CanRefill attr count → ∀ next, Refill lower ns (maxRecursion - count) k next →
      Ends lower ns attr count (.key next) none) :
    Ends lower ns attr count (.key k) name := by
  refine ends_link targets link follows fun target few resolved => ?_
  rcases resolved with ⟨-, rfl⟩ | leads
  · exact turnEnds_linkEnd ends (by simp) (ends_directory_absent findObject_nil)
  · refine (leads.settled tree trivial).turnEnds ends ?_
    rintro wow64 holder left c rfl climbs
    have noOpen : attr.openLink = false := Bool.eq_false_iff.mpr fun opens => follows ⟨ends, opens⟩
    exact further ⟨wow64, noOpen, few⟩ c ⟨path, holder, left, link, leads, climbs⟩

/-- Behind a link inside the path the next turn consumes an element. -/
theorem ShorterEnd.linkOn {name : Name} (shorter : ShorterEnd lower ns attr count name)
    (more : name ≠ []) {path : Name} (link : LinksTo lower ns k path) :
    Ends lower ns attr count (.key k) (some name) := by
  refine ends_link targets link (fun both => nameLen_some_ne_zero more both.1)
    fun target _ resolved => ?_
  rw [followLink_linkOn (nameLen_some_ne_zero more)]
  split
  · exact turnEnds_failed
  · rcases resolved with ⟨-, rfl⟩ | leads
    · exact turnEnds_next (shorter.directory _)
    · exact turnEnds_next (shorter.settled (leads.settled tree trivial))

theorem ShorterEnd.key (whole : ∀ k, Ends lower ns attr count (.key k) none) {name : Name}
    (shorter : ShorterEnd lower ns attr count name) (k : KeyId) :
    Ends lower ns attr count (.key k) (some name) := by
  -- a parent has a smaller number than its subkeys
  induction k using Nat.strong_induction_on with
  | _ k ih =>
    refine ends_key (fun _ => shorter.elementLookup fun p parent => ?_) fun path link follows => ?_
    · exact ih p (tree.linked.order k p parent).1
    · by_cases empty : name = []
      · subst empty
        exact ends_linkEnd tree targets rfl link follows fun _ next _ => whole next
      · exact shorter.linkOn tree targets empty link

end

end WineRedRose.Lookup
