import WineRedRose.Lookup.Model

/-!
# One turn of a lookup

What one turn of the loop does at each kind of object.  More turns do not change
the result of a lookup, and whatever the result is, `recursion_count` is again
what it was.
-/

namespace WineRedRose.Lookup

open Registry Library.Loops Option

variable {lower : WChar → WChar} {ns : Namespace} {attr : Attributes}
  {turns count : Nat} {obj : Obj} {k : KeyId} {name : Option Name}

/-! ## Kinds of keys -/

/-- A key that is neither deleted nor a link. -/
structure Plain (ns : Namespace) (k : KeyId) : Prop where
  live : (ns.reg.key k).deleted = false
  noLink : (ns.reg.key k).symlink = false

/-- A link with its target, the path behind the first backslash. -/
structure LinksTo (lower : WChar → WChar) (ns : Namespace) (k : KeyId)
    (path : Name) : Prop where
  live : (ns.reg.key k).deleted = false
  link : (ns.reg.key k).symlink = true
  target : linkTarget lower (ns.reg.key k) = some (backslash :: path)

/-- A key is plain, or a link that is followed to its target, or the loop stops
there. -/
theorem key_cases (lower : WChar → WChar) (ns : Namespace) (attr : Attributes) (k : KeyId)
    (name : Option Name) :
    Plain ns k ∨ (∃ path, LinksTo lower ns k path ∧ ¬ (nameLen name = 0 ∧ attr.openLink = true)) ∨
      ∃ turn, (turn = .stop name ∧ attr.openLink = true ∨
          ∃ status, status ≠ .fault ∧ turn = .failed status) ∧
        lookupName lower ns attr (.key k) name = .turn turn := by
  simp only [lookupName, keyLookupName]
  cases deleted : (ns.reg.key k).deleted with
  | true => exact .inr (.inr ⟨_, .inr ⟨.keyDeleted, nofun, rfl⟩, rfl⟩)
  | false =>
    cases link : (ns.reg.key k).symlink with
    | false => exact .inl ⟨deleted, link⟩
    | true =>
      right
      by_cases stops : nameLen name = 0 ∧ attr.openLink = true
      · simp only [if_pos stops]
        exact .inr ⟨_, .inl ⟨rfl, stops.2⟩, rfl⟩
      · simp only [if_neg stops]
        cases target : linkTarget lower (ns.reg.key k) with
        | none => exact .inr ⟨_, .inr ⟨.objectNameNotFound, nofun, rfl⟩, rfl⟩
        | some units =>
          have head : units.head? = some backslash := by
            simp only [linkTarget] at target
            split at target
            · cases target
            · split at target
              · next head =>
                  cases target
                  exact head
              · cases target
          rcases List.head?_eq_some_iff.mp head with ⟨path, rfl⟩
          exact .inl ⟨path, ⟨deleted, link, target⟩, stops⟩

/-! ## One turn -/

theorem lookupName_plain (plain : Plain ns k) :
    lookupName lower ns attr (.key k) name = .turn (elementLookup lower ns k name attr) := by
  simp only [lookupName, keyLookupName, plain.live, plain.noLink, Bool.false_eq_true, if_false]

variable {path target : Name} {loop : Nat → Obj → Option Name → Option Result} {result : Result}

theorem lookupName_link (link : LinksTo lower ns k path)
    (follows : ¬ (nameLen name = 0 ∧ attr.openLink = true)) :
    lookupName lower ns attr (.key k) name =
      .follow linkAttributes (backslash :: path) (followLink ns attr name) := by
  simp only [lookupName, keyLookupName, link.live, link.link, link.target, if_neg follows,
    Bool.false_eq_true, if_false, if_true]

/-- The loop goes on behind a symbolic link if nothing of its target is left. -/
def followSymlink (name : Option Name) (found : Found) : Turn :=
  if nameLen found.2 ≠ 0 then .failed .objectPathNotFound else .next found.1 name

section

variable {s : SymlinkId} (follows : ¬ (nameLen name = 0 ∧ attr.openLink = true))
include follows

theorem lookupName_symlink_empty (empty : ns.target s = []) :
    lookupName lower ns attr (.symlink s) name =
      .turn (.next (.directory ns.rootDirectory) name) := by
  rw [lookupName, symlinkLookupName, if_neg follows, if_pos empty]

theorem lookupName_symlink (link : ns.target s = target) (some : target ≠ []) :
    lookupName lower ns attr (.symlink s) name = .follow attr target (followSymlink name) := by
  subst link
  rw [lookupName, symlinkLookupName, if_neg follows, if_neg some]
  rfl

end

/-- A symbolic link is opened itself, or it is the root directory, or its target
is looked up. -/
theorem symlink_cases (lower : WChar → WChar) (ns : Namespace) (attr : Attributes)
    (s : SymlinkId) (name : Option Name) :
    (attr.openLink = true ∧ nameLen name = 0 ∧
        lookupName lower ns attr (.symlink s) name = .turn (.stop name)) ∨
      (ns.target s = [] ∧ ¬ (nameLen name = 0 ∧ attr.openLink = true) ∧
        lookupName lower ns attr (.symlink s) name =
          .turn (.next (.directory ns.rootDirectory) name)) ∨
      (ns.target s ≠ [] ∧ ¬ (nameLen name = 0 ∧ attr.openLink = true) ∧
        lookupName lower ns attr (.symlink s) name =
          .follow attr (ns.target s) (followSymlink name)) := by
  by_cases stops : nameLen name = 0 ∧ attr.openLink = true
  · refine .inl ⟨stops.2, stops.1, ?_⟩
    rw [lookupName, symlinkLookupName, if_pos stops]
  · by_cases empty : ns.target s = []
    · exact .inr (.inl ⟨empty, stops, lookupName_symlink_empty stops empty⟩)
    · exact .inr (.inr ⟨empty, stops, lookupName_symlink stops rfl empty⟩)

section

variable {turn : Turn} {linkAttr : Attributes} {next : Found → Turn}

theorem lookupLoop_turn (here : lookupName lower ns attr obj name = .turn turn) :
    lookupLoop lower ns (turns + 1) attr count obj name =
      afterTurn (lookupLoop lower ns turns attr) obj turn count := by
  rw [lookupLoop, here]

theorem lookupLoop_ended {end_ : Except Status Found}
    (here : lookupName lower ns attr obj name = .ended end_) :
    lookupLoop lower ns (turns + 1) attr count obj name = some (end_, count) := by
  rw [lookupLoop, here]

theorem lookupLoop_follow
    (here : lookupName lower ns attr obj name = .follow linkAttr target next) :
    lookupLoop lower ns (turns + 1) attr count obj name =
      (lookupNamedObject ns (lookupLoop lower ns turns linkAttr) count none target).bind
        (afterTarget (lookupLoop lower ns turns attr) obj next) := by
  rw [lookupLoop, here]

end

/-- The lookup of a target. -/
theorem lookupNamedObject_target : lookupNamedObject ns loop count none (backslash :: path) =
      if count > maxRecursion then some (.error .invalidParameter, count)
      else if path = [] then some (.ok (.directory ns.rootDirectory, some []), count)
      else
        (loop (count + 1) (.directory ns.rootDirectory) (some path)).map
          fun result => (result.1, result.2 - 1) := by
  simp only [lookupNamedObject, startAt, List.head?_cons, if_true, List.tail_cons]
  split
  · rfl
  · split
    · rfl
    · cases loop (count + 1) (.directory ns.rootDirectory) (some path) with
      | none => rfl
      | some result => rfl

/-- A target that is no absolute path is refused. -/
theorem lookupNamedObject_relative (relative : target.head? ≠ some backslash) :
    lookupNamedObject ns loop count none target = some (.error .objectPathSyntaxBad, count) := by
  simp only [lookupNamedObject, startAt, if_neg relative]

/-! ## The count -/

/-- A loop gives back the count with which it is called. -/
def Restores (loop : Nat → Obj → Option Name → Option Result) : Prop :=
  ∀ count obj name result, loop count obj name = some result → result.2 = count

theorem Restores.lookupNamedObject (restores : Restores loop) {root : Option KeyId}
    (done : lookupNamedObject ns loop count root path = some result) :
    result.2 = count := by
  unfold Lookup.lookupNamedObject at done
  split at done
  · rw [← some.inj done]
  · split at done
    · rw [← some.inj done]
    · split at done
      · rw [← some.inj done]
      · split at done
        · exact absurd done (by simp)
        · next result' count' looped =>
            have same := restores _ _ _ _ looped
            dsimp only at same
            rw [← some.inj done, same]
            rfl

variable {turn : Turn} {more : Nat → Obj → Option Name → Option Result}

theorem Restores.afterTurn (restores : Restores loop)
    (done : afterTurn loop obj turn count = some result) : result.2 = count := by
  cases turn with
  | stop name => rw [← some.inj done]
  | failed status => rw [← some.inj done]
  | next obj name => exact restores count obj name result done

/-! ## More turns -/

/-- Another loop has the results of a loop. -/
def Extends (more loop : Nat → Obj → Option Name → Option Result) : Prop :=
  ∀ count obj name result, loop count obj name = some result → more count obj name = some result

theorem Extends.lookupNamedObject (wider : Extends more loop) {root : Option KeyId}
    (done : lookupNamedObject ns loop count root path = some result) :
    lookupNamedObject ns more count root path = some result := by
  unfold Lookup.lookupNamedObject at done ⊢
  split
  · next start => rwa [start] at done
  · next start =>
      rw [start] at done
      dsimp only at done
      split_ifs at done ⊢ with many empty
      · exact done
      · exact done
      · split at done
        · cases done
        · next looped =>
            rw [wider _ _ _ _ looped]
            exact done

theorem Extends.afterTurn (wider : Extends more loop)
    (done : afterTurn loop obj turn count = some result) :
    afterTurn more obj turn count = some result := by
  cases turn with
  | stop name => exact done
  | failed status => exact done
  | next obj name => exact wider count obj name result done

/-- `recursion_count` is restored, however a lookup ends, and one more turn does
not change how. -/
theorem lookupLoop_steady (lower : WChar → WChar) (ns : Namespace) (turns : Nat)
    (attr : Attributes) : Restores (lookupLoop lower ns turns attr) ∧
      Extends (lookupLoop lower ns (turns + 1) attr) (lookupLoop lower ns turns attr) := by
  induction turns generalizing attr with
  | zero => simp [Restores, Extends, lookupLoop]
  | succ turns ih =>
    obtain ⟨restores, wider⟩ := ih attr
    simp only [Restores, Extends, ← forall_and]
    intro count obj name result done
    cases here : lookupName lower ns attr obj name with
    | turn turn =>
      rw [lookupLoop_turn here] at done ⊢
      exact ⟨restores.afterTurn done, wider.afterTurn done⟩
    | ended end_ =>
      rw [lookupLoop_ended here] at done ⊢
      refine ⟨?_, done⟩
      rw [← some.inj done]
    | follow linkAttr target next =>
      rw [lookupLoop_follow here] at done ⊢
      rcases bind_eq_some_iff.mp done with ⟨nested, looked, after⟩
      have same := (ih linkAttr).1.lookupNamedObject looked
      rw [(ih linkAttr).2.lookupNamedObject looked, bind_some]
      rcases nested with ⟨_ | found, count'⟩
      · rw [← some.inj after]
        exact ⟨same, rfl⟩
      · exact ⟨(restores.afterTurn after).trans same, wider.afterTurn after⟩

/-- The loop as a function of the turns and of where it stands. -/
def loopFrom (lower : WChar → WChar) (ns : Namespace) (attr : Attributes)
    (turns : Nat) (start : Nat × Obj × Option Name) : Option Result :=
  lookupLoop lower ns turns attr start.1 start.2.1 start.2.2

theorem loopFrom_monotone : Monotone (loopFrom lower ns attr) :=
  fun turns _ result => (lookupLoop_steady lower ns turns attr).2 _ _ _ result

theorem lookupLoop_extends_of_le (lower : WChar → WChar) (ns : Namespace) {more : Nat}
    (le : turns ≤ more) (attr : Attributes) :
    Extends (lookupLoop lower ns more attr) (lookupLoop lower ns turns attr) := by
  intro count obj name result done
  have start : loopFrom lower ns attr turns (count, obj, name) = some result := done
  exact loopFrom_monotone.of_le le start

/-- With enough turns a loop goes on behind a link whose target was found. -/
theorem lookupLoop_through (more : Nat) {found : Found} {final : Result} {linkAttr : Attributes}
    {next : Found → Turn} {count' : Nat}
    (here : lookupName lower ns attr obj name = .follow linkAttr target next)
    (looked : lookupNamedObject ns (lookupLoop lower ns turns linkAttr) count none target =
      some (.ok found, count'))
    (further : afterTurn (lookupLoop lower ns more attr) obj (next found) count' = some final) :
    ∃ turns, lookupLoop lower ns turns attr count obj name = some final := by
  refine ⟨max turns more + 1, ?_⟩
  have wider := lookupLoop_extends_of_le lower ns (le_max_left turns more) linkAttr
  rw [lookupLoop_follow here, wider.lookupNamedObject looked, bind_some]
  exact (lookupLoop_extends_of_le lower ns (le_max_right turns more) attr).afterTurn further

end WineRedRose.Lookup
