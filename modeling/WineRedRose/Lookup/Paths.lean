import Mathlib.Data.List.DropRight
import WineRedRose.Lookup.Loop
import WineRedRose.Registry.Tree

/-!
# Where paths lead

Paths by rules: an element leads to the entry of a directory or the subkey of its
name, a link to where its target leads, and so many links may be inside each
other.  `Leads` is the meaning of a lookup for a 64-bit program; the targets of
keys that are links are always looked up in this way.  A lookup of the loop ends
as the rules say, and what the rules derive is looked up.
-/

namespace WineRedRose.Lookup

open Registry Library.Loops List Option

/-! ## Names -/

/-- What is left of a path, a null pointer behind the last element. -/
def restName (rest : Name) : Option Name := if rest = [] then none else some rest

/-- The length of a name, where the null pointer is shorter than an empty
name. -/
def weight : Option Name → Nat
  | none => 0
  | some name => name.length + 1

variable {name : Name}

theorem element_eq_takeWhile : element name = name.takeWhile (· ≠ backslash) := by
  rw [element, getPathElement]
  exact (prefix_iff_eq_take.mp (List.takeWhile_prefix _)).symm

theorem drop_getPathElement : name.drop (getPathElement name) = name.dropWhile (· ≠ backslash) := by
  have whole : element name ++ name.dropWhile (· ≠ backslash) = name := by
    rw [element_eq_takeWhile]
    exact takeWhile_append_dropWhile
  have split : element name ++ name.drop (getPathElement name) = name := take_append_drop _ _
  exact append_cancel_left (split.trans whole.symm)

@[simp]
theorem element_element : element (element name) = element name := by
  simp only [element_eq_takeWhile, takeWhile_idem]

theorem ne_backslash_of_mem_element {c : WChar} {name : Name} (member : c ∈ element name) :
    c ≠ backslash := by
  rw [element_eq_takeWhile] at member
  simpa using mem_takeWhile_imp member

@[simp]
theorem behindElement_element : behindElement (element name) = [] := by
  have none_left : (element name).dropWhile (· ≠ backslash) = [] := by
    rw [dropWhile_eq_nil_iff]
    intro c member
    exact decide_eq_true (ne_backslash_of_mem_element member)
  rw [behindElement, drop_getPathElement, none_left, dropWhile_nil]

theorem behindElement_of_single (single : element name = name) : behindElement name = [] :=
  single ▸ behindElement_element

/-- An element is consumed. -/
theorem weight_restName_lt : weight (restName (behindElement name)) < weight (some name) := by
  rw [restName]
  split
  · exact Nat.succ_pos _
  · next some_left =>
      show (behindElement name).length + 1 < name.length + 1
      cases name with
      | nil => exact absurd rfl some_left
      | cons c name =>
        rw [behindElement, drop_getPathElement]
        by_cases first : c = backslash
        · rw [dropWhile_cons_of_neg (by simpa using first),
            dropWhile_cons_of_pos (by simpa using first), length_cons]
          have le := length_dropWhile_le (fun c => decide (c = backslash)) name
          omega
        · rw [dropWhile_cons_of_pos (by simpa using first), length_cons]
          have le := length_dropWhile_le (fun c => decide (c = backslash))
            (name.dropWhile fun c => decide (c ≠ backslash))
          have le' := length_dropWhile_le (fun c => decide (c ≠ backslash)) name
          omega

/-! ## The turns of a key and of a directory -/

variable {lower : WChar → WChar} {ns : Namespace} {attr : Attributes}
  {turns count : Nat} {obj : Obj} {d : DirectoryId} {k p found : KeyId} {name path : Name}

theorem moveOn_next (rest : Name) : ∃ k, moveOn lower ns attr found rest =
      .next (.key k) (restName rest) ∧ (attr.wow64 = false → k = found) := by
  rw [moveOn, restName]
  by_cases last : rest = []
  · rw [if_neg (not_not_intro last), if_pos last]
    exact ⟨found, rfl, fun _ => rfl⟩
  · rw [if_pos last, if_neg last]
    split
    · split <;> simp_all
    · exact ⟨found, rfl, fun _ => rfl⟩

theorem moveOn_of_not_wow64 (plain : attr.wow64 = false) (rest : Name) :
    moveOn lower ns attr found rest = .next (.key found) (restName rest) := by
  rcases moveOn_next rest with ⟨k, next, same⟩
  rw [next, same plain]

theorem elementLookup_long (long : (element name).length > maxNameLen) :
    elementLookup lower ns k (some name) attr = .failed .invalidParameter := by
  simp only [elementLookup, if_pos long]

section

variable (short : (element name).length ≤ maxNameLen)
include short

theorem elementLookup_found (present : child lower ns k (element name) = some found) :
    elementLookup lower ns k (some name) attr =
      moveOn lower ns attr found (behindElement name) := by
  simp only [elementLookup, if_neg (Nat.not_lt.mpr short), present]

theorem elementLookup_missing (absent : child lower ns k (element name) = none)
    (stays : ¬ (ns.reflected k = true ∧ attr.wow64 = true)) :
    elementLookup lower ns k (some name) attr =
      if behindElement name ≠ [] then .failed .objectNameNotFound
      else .stop (some (element name)) := by
  simp only [elementLookup, if_neg (Nat.not_lt.mpr short), absent, if_neg stays]

/-- At a reflected key the lookup turns to the parent. -/
theorem elementLookup_up (absent : child lower ns k (element name) = none)
    (reflected : ns.reflected k = true) (wow64 : attr.wow64 = true)
    (parent : (ns.reg.key k).parent = some p) :
    elementLookup lower ns k (some name) attr =
      match child lower ns p (element name) with
      | some found => moveOn lower ns attr found (behindElement name)
      | none => .next (.key p) (some name) := by
  have goesUp : ns.reflected k = true ∧ attr.wow64 = true := ⟨reflected, wow64⟩
  cases present : child lower ns p (element name) <;>
    simp only [elementLookup, if_neg (Nat.not_lt.mpr short), absent, if_pos goesUp, parent, present]

end

/-- The path behind an entry of a directory. -/
def belowEntry (name : Name) : Option Name :=
  if (element name).length < name.length then some (name.drop ((element name).length + 1))
  else none

theorem directoryLookupName_entry {entry : Entry}
    (present : findObject lower ns attr d (element name) = some entry) :
    directoryLookupName lower ns d (some name) attr =
      .next (ns.obj entry) (belowEntry name) := by
  simp only [directoryLookupName, present]
  rfl

theorem directoryLookupName_absent
    (absent : findObject lower ns attr d (element name) = none) :
    directoryLookupName lower ns d (some name) attr =
      if element name = [] then .failed .objectNameInvalid
      else if (element name).length < name.length then .failed .objectPathNotFound
      else .stop (some name) := by
  simp only [directoryLookupName, absent]

theorem weight_belowEntry_lt : weight (belowEntry name) < weight (some name) := by
  rw [belowEntry]
  split
  · show (name.drop _).length + 1 < name.length + 1
    rw [length_drop]
    omega
  · exact Nat.succ_pos _

theorem element_eq_self (whole : ¬ (element name).length < name.length) : element name = name := by
  have isPrefix : element name <+: name := take_prefix _ _
  exact isPrefix.eq_of_length (le_antisymm isPrefix.length_le (Nat.not_lt.mp whole))

/-! ## The rules -/

/-- Where a path leads from an object, with at most so many links inside each
other: the last object, and the element that it does not have. -/
inductive Leads (lower : WChar → WChar) (ns : Namespace) :
    Nat → Obj → Option Name → Found → Prop where
  | directory {depth : Nat} {d : DirectoryId} :
      Leads lower ns depth (.directory d) none (.directory d, none)
  | unknown {depth : Nat} {d : DirectoryId} {name : Name} (single : element name = name)
      (named : name ≠ []) (absent : findObject lower ns linkAttributes d name = none) :
      Leads lower ns depth (.directory d) (some name) (.directory d, some name)
  | entry {depth : Nat} {d : DirectoryId} {name : Name} {e : Entry} {found : Found}
      (present : findObject lower ns linkAttributes d (element name) = some e)
      (further : Leads lower ns depth (ns.obj e) (belowEntry name) found) :
      Leads lower ns depth (.directory d) (some name) found
  | whole {depth : Nat} {k : KeyId} (plain : Plain ns k) :
      Leads lower ns depth (.key k) none (.key k, none)
  | missing {depth : Nat} {k : KeyId} {name : Name} (plain : Plain ns k)
      (short : (element name).length ≤ maxNameLen)
      (absent : child lower ns k (element name) = none)
      (last : behindElement name = []) :
      Leads lower ns depth (.key k) (some name) (.key k, some (element name))
  | down {depth : Nat} {k c : KeyId} {name : Name} {found : Found}
      (plain : Plain ns k) (short : (element name).length ≤ maxNameLen)
      (present : child lower ns k (element name) = some c)
      (further : Leads lower ns depth (.key c) (restName (behindElement name)) found) :
      Leads lower ns depth (.key k) (some name) found
  | linkEnd {depth : Nat} {k : KeyId} {name : Option Name} {path : Name}
      {target found : Found} (link : LinksTo lower ns k path)
      (ends : nameLen name = 0)
      (resolved : Leads lower ns depth (.directory ns.rootDirectory) (some path) target)
      (further : Leads lower ns (depth + 1) target.1 target.2 found) :
      Leads lower ns (depth + 1) (.key k) name found
  | linkOn {depth : Nat} {k : KeyId} {name path : Name} {target found : Found}
      (link : LinksTo lower ns k path) (more : name ≠ [])
      (resolved : Leads lower ns depth (.directory ns.rootDirectory) (some path) target)
      (complete : nameLen target.2 = 0)
      (further : Leads lower ns (depth + 1) target.1 (some name) found) :
      Leads lower ns (depth + 1) (.key k) (some name) found
  | linkRoot {depth : Nat} {k : KeyId} {name : Name} {found : Found}
      (link : LinksTo lower ns k []) (more : name ≠ [])
      (further : Leads lower ns (depth + 1) (.directory ns.rootDirectory) (some name) found) :
      Leads lower ns (depth + 1) (.key k) (some name) found
  | symlinkEmpty {depth : Nat} {s : SymlinkId} {name : Option Name} {found : Found}
      (empty : ns.target s = [])
      (further : Leads lower ns depth (.directory ns.rootDirectory) name found) :
      Leads lower ns depth (.symlink s) name found
  | symlink {depth : Nat} {s : SymlinkId} {name : Option Name} {path : Name}
      {target found : Found} (link : ns.target s = backslash :: path)
      (resolved : Leads lower ns depth (.directory ns.rootDirectory) (some path) target)
      (complete : nameLen target.2 = 0)
      (further : Leads lower ns (depth + 1) target.1 name found) :
      Leads lower ns (depth + 1) (.symlink s) name found
  | symlinkRoot {depth : Nat} {s : SymlinkId} {name : Option Name} {found : Found}
      (link : ns.target s = [backslash])
      (further : Leads lower ns (depth + 1) (.directory ns.rootDirectory) name found) :
      Leads lower ns (depth + 1) (.symlink s) name found
  | other {depth : Nat} {o : OtherId} {name : Option Name} {found : OtherId × Option Name}
      (ended : ns.otherLookup o name linkAttributes = .ok found) :
      Leads lower ns depth (.other o) name (.other found.1, found.2)

theorem findObject_nil : findObject lower ns attr d [] = none := if_pos rfl

/-- An empty path is none of a directory. -/
theorem Leads.path_ne_nil {depth : Nat} {target : Found}
    (leads : Leads lower ns depth (.directory d) (some path) target) : path ≠ [] := by
  cases leads with
  | unknown _ named _ => exact named
  | entry present _ =>
    rintro rfl
    cases findObject_nil.symm.trans present

theorem nameLen_some_ne_zero {name : Name} (more : name ≠ []) : nameLen (some name) ≠ 0 := by
  rw [nameLen]
  exact fun zero => more (length_eq_zero_iff.mp zero)

theorem followLink_linkEnd {name : Option Name} (ends : nameLen name = 0) (target : Found) :
    followLink ns linkAttributes name target = .next target.1 target.2 := by
  rcases target with ⟨obj, _ | left⟩
  · cases obj <;> simp [followLink, ends, linkAttributes]
  · simp only [followLink, ends, if_true]

theorem followLink_linkOn {name : Option Name} (more : nameLen name ≠ 0) (target : Found) :
    followLink ns attr name target =
      if nameLen target.2 ≠ 0 then .failed .objectNameNotFound
      else .next target.1 name := by
  simp only [followLink, if_neg more]

theorem follows_link (name : Option Name) : ¬ (nameLen name = 0 ∧ linkAttributes.openLink = true) :=
  fun both => Bool.false_ne_true both.2

/-! ## The loop and the rules -/

/-- What a loop finds is where the path leads. -/
def Sound (lower : WChar → WChar) (ns : Namespace)
    (loop : Nat → Obj → Option Name → Option Result) : Prop :=
  ∀ count obj name found count', loop count obj name = some (.ok found, count') →
    Leads lower ns (maxRecursion + 1 - count) obj name found

variable {loop : Nat → Obj → Option Name → Option Result} {result : Found}
  {count' : Nat}

theorem found_of_afterTurn_stop {left : Option Name}
    (done : afterTurn loop obj (.stop left) count = some (.ok result, count')) :
    result = (obj, left) := by
  simp only [afterTurn, some.injEq, Prod.mk.injEq, Except.ok.injEq] at done
  exact done.1.symm

theorem not_afterTurn_failed {status : Status} :
    afterTurn loop obj (.failed status) count ≠ some (.ok result, count') := by
  simp [afterTurn]

section

variable (sound : Sound lower ns loop)
include sound

theorem Sound.directory {name : Option Name} (done : afterTurn loop (.directory d)
      (directoryLookupName lower ns d name linkAttributes) count = some (.ok result, count')) :
    Leads lower ns (maxRecursion + 1 - count) (.directory d) name result := by
  cases name with
  | none =>
    rw [found_of_afterTurn_stop done]
    exact Leads.directory
  | some name =>
    cases present : findObject lower ns linkAttributes d (element name) with
    | some entry =>
      rw [directoryLookupName_entry present] at done
      exact Leads.entry present (sound _ _ _ _ _ done)
    | none =>
      rw [directoryLookupName_absent present] at done
      split_ifs at done with unnamed longer
      · exact absurd done not_afterTurn_failed
      · exact absurd done not_afterTurn_failed
      · have single := element_eq_self longer
        rw [single] at unnamed present
        rw [found_of_afterTurn_stop done]
        exact Leads.unknown single unnamed present

theorem Sound.plain (plain : Plain ns k) {name : Option Name}
    (done : afterTurn loop (.key k) (elementLookup lower ns k name linkAttributes)
      count = some (.ok result, count')) :
    Leads lower ns (maxRecursion + 1 - count) (.key k) name result := by
  cases name with
  | none =>
    rw [found_of_afterTurn_stop done]
    exact Leads.whole plain
  | some name =>
    by_cases short : (element name).length ≤ maxNameLen
    · cases present : child lower ns k (element name) with
      | some c =>
        rw [elementLookup_found short present, moveOn_of_not_wow64 rfl] at done
        exact Leads.down plain short present (sound _ _ _ _ _ done)
      | none =>
        rw [elementLookup_missing short present (fun both => Bool.false_ne_true both.2)] at done
        split_ifs at done with last
        · exact absurd done not_afterTurn_failed
        · rw [found_of_afterTurn_stop done]
          exact Leads.missing plain short present (not_not.mp last)
    · rw [elementLookup_long (Nat.lt_of_not_le short)] at done
      exact absurd done not_afterTurn_failed

/-- What the lookup of a target finds. -/
theorem Sound.target
    (done : lookupNamedObject ns loop count none (backslash :: path) = some (.ok result, count')) :
    count ≤ maxRecursion ∧ (path = [] ∧ result = (.directory ns.rootDirectory, some []) ∨
        Leads lower ns (maxRecursion - count) (.directory ns.rootDirectory) (some path)
          result) := by
  rw [lookupNamedObject_target] at done
  split_ifs at done with many empty
  · exact absurd done (by simp)
  · simp only [some.injEq, Prod.mk.injEq, Except.ok.injEq] at done
    exact ⟨Nat.not_lt.mp many, .inl ⟨empty, done.1.symm⟩⟩
  · rcases map_eq_some_iff.mp done with ⟨⟨inner, count''⟩, looped, eq⟩
    simp only [Prod.mk.injEq] at eq
    rw [eq.1] at looped
    have leads := sound _ _ _ _ _ looped
    rw [Nat.add_sub_add_right] at leads
    exact ⟨Nat.not_lt.mp many, .inr leads⟩

/-- A target was found, and the loop goes on behind the link. -/
theorem Sound.follow (restores : Restores loop) {next : Found → Turn}
    (done : (lookupNamedObject ns loop count none (backslash :: path)).bind
      (afterTarget loop obj next) = some (.ok result, count')) :
    count ≤ maxRecursion ∧ ∃ target,
      (path = [] ∧ target = (.directory ns.rootDirectory, some []) ∨
        Leads lower ns (maxRecursion - count) (.directory ns.rootDirectory) (some path) target) ∧
      afterTurn loop obj (next target) count = some (.ok result, count') := by
  rcases bind_eq_some_iff.mp done with ⟨⟨status | target, inner⟩, looked, after⟩
  · exact absurd after (by simp [afterTarget])
  · have same := restores.lookupNamedObject looked
    subst same
    rcases sound.target looked with ⟨few, resolved⟩
    exact ⟨few, target, resolved, after⟩

theorem Sound.link (restores : Restores loop) (link : LinksTo lower ns k path) {name : Option Name}
    (done : (lookupNamedObject ns loop count none (backslash :: path)).bind
      (afterTarget loop (.key k) (followLink ns linkAttributes name)) =
        some (.ok result, count')) :
    Leads lower ns (maxRecursion + 1 - count) (.key k) name result := by
  rcases sound.follow restores done with ⟨few, target, resolved, after⟩
  rw [Nat.sub_add_comm few]
  by_cases ends : nameLen name = 0
  · rw [followLink_linkEnd ends] at after
    have further := sound _ _ _ _ _ after
    rw [Nat.sub_add_comm few] at further
    rcases resolved with ⟨-, rfl⟩ | resolved
    · exact absurd rfl further.path_ne_nil
    · exact Leads.linkEnd link ends resolved further
  · rw [followLink_linkOn ends] at after
    split_ifs at after with complete
    · exact absurd after not_afterTurn_failed
    · have further := sound _ _ _ _ _ after
      rw [Nat.sub_add_comm few] at further
      cases name with
      | none => exact absurd rfl ends
      | some name =>
        have more : name ≠ [] := fun nil => ends (by rw [nil]; rfl)
        rcases resolved with ⟨rfl, rfl⟩ | resolved
        · exact Leads.linkRoot link more further
        · exact Leads.linkOn link more resolved (not_not.mp complete) further

theorem Sound.symlink (restores : Restores loop) {s : SymlinkId} {name : Option Name}
    (done : (lookupNamedObject ns loop count none (ns.target s)).bind
      (afterTarget loop (.symlink s) (followSymlink name)) = some (.ok result, count')) :
    Leads lower ns (maxRecursion + 1 - count) (.symlink s) name result := by
  by_cases absolute : (ns.target s).head? = some backslash
  · rcases head?_eq_some_iff.mp absolute with ⟨path, target_eq⟩
    rw [target_eq] at done
    rcases sound.follow restores done with ⟨few, target, resolved, after⟩
    rw [Nat.sub_add_comm few]
    rw [followSymlink] at after
    split_ifs at after with complete
    · exact absurd after not_afterTurn_failed
    · have further := sound _ _ _ _ _ after
      rw [Nat.sub_add_comm few] at further
      rcases resolved with ⟨rfl, rfl⟩ | resolved
      · exact Leads.symlinkRoot target_eq further
      · exact Leads.symlink target_eq resolved (not_not.mp complete) further
  · rw [lookupNamedObject_relative absolute] at done
    cases done

end

/-- A lookup ends where the path leads. -/
theorem lookupLoop_sound (lower : WChar → WChar) (ns : Namespace) (turns : Nat) :
    Sound lower ns (lookupLoop lower ns turns linkAttributes) := by
  induction turns with
  | zero => exact fun _ _ _ _ _ done => absurd done (by simp [lookupLoop])
  | succ turns ih =>
    intro count obj name found count' done
    have restores := (lookupLoop_steady lower ns turns linkAttributes).1
    cases obj with
    | directory d => exact ih.directory done
    | key k =>
      rcases key_cases lower ns linkAttributes k name with
        plain | ⟨path, link, follows⟩ | ⟨_, ⟨-, opens⟩ | ⟨status, -, rfl⟩, here⟩
      · rw [lookupLoop_turn (lookupName_plain plain)] at done
        exact ih.plain plain done
      · rw [lookupLoop_follow (lookupName_link link follows)] at done
        exact ih.link restores link done
      · cases opens
      · rw [lookupLoop_turn here] at done
        cases done
    | symlink s =>
      rcases symlink_cases lower ns linkAttributes s name with
        ⟨opens, -⟩ | ⟨empty, -, here⟩ | ⟨-, -, here⟩
      · cases opens
      · rw [lookupLoop_turn here] at done
        exact Leads.symlinkEmpty empty (ih _ _ _ _ _ done)
      · rw [lookupLoop_follow here] at done
        exact ih.symlink restores done
    | other o =>
      rw [lookupLoop_ended rfl, some.injEq, Prod.mk.injEq] at done
      cases ended : ns.otherLookup o name linkAttributes with
      | error status =>
        rw [ended] at done
        cases done.1
      | ok found =>
        rw [ended] at done
        cases done.1
        exact Leads.other ended

theorem lookupNamedObject_of_leads {depth : Nat}
    (leads : Leads lower ns depth (.directory ns.rootDirectory) (some path) result)
    (level : count + depth = maxRecursion)
    (done : lookupLoop lower ns turns linkAttributes (count + 1) (.directory ns.rootDirectory)
      (some path) = some (.ok result, count + 1)) :
    lookupNamedObject ns (lookupLoop lower ns turns linkAttributes) count none
      (backslash :: path) = some (.ok result, count) := by
  rw [lookupNamedObject_target, if_neg (by omega), if_neg leads.path_ne_nil, done]
  rfl

/-- The target that is the root directory. -/
theorem lookupNamedObject_root (few : count ≤ maxRecursion) :
    lookupNamedObject ns loop count none [backslash] =
      some (.ok (.directory ns.rootDirectory, some []), count) := by
  rw [lookupNamedObject_target, if_neg (Nat.not_lt.mpr few), if_pos rfl]

theorem followSymlink_complete {target : Found} (complete : nameLen target.2 = 0)
    (name : Option Name) : followSymlink name target = .next target.1 name := by
  rw [followSymlink, if_neg (not_not_intro complete)]

/-- What the rules derive is looked up. -/
theorem Leads.lookupLoop {depth : Nat} {name : Option Name}
    (leads : Leads lower ns depth obj name result) (level : count + depth = maxRecursion + 1) :
    ∃ turns, lookupLoop lower ns turns linkAttributes count obj name =
      some (.ok result, count) := by
  induction leads generalizing count with
  | directory => exact ⟨1, rfl⟩
  | @unknown depth d name single named absent =>
    refine ⟨1, ?_⟩
    rw [← single] at absent
    rw [lookupLoop_turn rfl, directoryLookupName_absent absent, single,
      if_neg named, if_neg (lt_irrefl _)]
    rfl
  | entry present _ ih =>
    rcases ih level with ⟨turns, done⟩
    refine ⟨turns + 1, ?_⟩
    rw [lookupLoop_turn rfl, directoryLookupName_entry present]
    exact done
  | whole plain =>
    refine ⟨1, ?_⟩
    rw [lookupLoop_turn (lookupName_plain plain)]
    rfl
  | missing plain short absent last =>
    refine ⟨1, ?_⟩
    rw [lookupLoop_turn (lookupName_plain plain), elementLookup_missing short absent
      (fun both => Bool.false_ne_true both.2), if_neg (not_not_intro last)]
    rfl
  | down plain short present _ ih =>
    rcases ih level with ⟨turns, done⟩
    refine ⟨turns + 1, ?_⟩
    rw [lookupLoop_turn (lookupName_plain plain), elementLookup_found short present,
      moveOn_of_not_wow64 rfl]
    exact done
  | @linkEnd depth k name path target found link ends resolved _ first second =>
    rcases @first (count + 1) (by omega) with ⟨turns, looked⟩
    rcases second level with ⟨turns', done⟩
    refine lookupLoop_through turns' (lookupName_link link (follows_link name))
      (lookupNamedObject_of_leads resolved (by omega) looked) ?_
    rw [followLink_linkEnd ends]
    exact done
  | @linkOn depth k name path target found link more resolved complete _ first second =>
    rcases @first (count + 1) (by omega) with ⟨turns, looked⟩
    rcases second level with ⟨turns', done⟩
    refine lookupLoop_through turns' (lookupName_link link (follows_link _))
      (lookupNamedObject_of_leads resolved (by omega) looked) ?_
    rw [followLink_linkOn (nameLen_some_ne_zero more), if_neg (not_not_intro complete)]
    exact done
  | @linkRoot depth k name found link more _ ih =>
    rcases ih level with ⟨turns, done⟩
    have looked := @lookupNamedObject_root ns count (Lookup.lookupLoop lower ns 0 linkAttributes)
      (by omega)
    refine lookupLoop_through turns (lookupName_link link (follows_link _)) looked ?_
    rw [followLink_linkOn (nameLen_some_ne_zero more), if_neg (by simp [nameLen])]
    exact done
  | symlinkEmpty empty _ ih =>
    rcases ih level with ⟨turns, done⟩
    refine ⟨turns + 1, ?_⟩
    rw [lookupLoop_turn (lookupName_symlink_empty (follows_link _) empty)]
    exact done
  | @symlink depth s name path target found link resolved complete _ first second =>
    rcases @first (count + 1) (by omega) with ⟨turns, looked⟩
    rcases second level with ⟨turns', done⟩
    refine lookupLoop_through turns'
      (lookupName_symlink (follows_link name) link (cons_ne_nil _ _))
      (lookupNamedObject_of_leads resolved (by omega) looked) ?_
    rw [followSymlink_complete complete]
    exact done
  | @symlinkRoot depth s name found link _ ih =>
    rcases ih level with ⟨turns, done⟩
    have looked := @lookupNamedObject_root ns count (Lookup.lookupLoop lower ns 0 linkAttributes)
      (by omega)
    refine lookupLoop_through turns
      (lookupName_symlink (follows_link name) link (cons_ne_nil _ _)) looked ?_
    rw [followSymlink_complete (by rfl)]
    exact done
  | other ended =>
    refine ⟨1, ?_⟩
    rw [lookupLoop_ended rfl, ended]
    rfl

/-- The target of a link is found exactly where the rules lead. -/
theorem target_found_iff (path : Name) (found : Found) :
    (∃ turns, lookupNamedObject ns (lookupLoop lower ns turns linkAttributes) count none
      (backslash :: path) = some (.ok found, count)) ↔
    count ≤ maxRecursion ∧ (path = [] ∧ found = (.directory ns.rootDirectory, some []) ∨
      Leads lower ns (maxRecursion - count) (.directory ns.rootDirectory) (some path) found) := by
  constructor
  · rintro ⟨turns, looked⟩
    exact (lookupLoop_sound lower ns turns).target looked
  · rintro ⟨few, ⟨rfl, rfl⟩ | leads⟩
    · exact ⟨0, lookupNamedObject_root few⟩
    · have level : count + 1 + (maxRecursion - count) = maxRecursion + 1 := by omega
      rcases leads.lookupLoop level with ⟨turns, done⟩
      exact ⟨turns, lookupNamedObject_of_leads leads (by omega) done⟩

end WineRedRose.Lookup
