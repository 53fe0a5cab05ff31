import WineRedRose.Lookup.Termination

/-!
# Lookups that finish

A cycle of links whose targets are missing below reflected keys keeps a lookup
for a 32-bit program going for ever.  Without such a cycle every lookup that
starts at a key and follows all links finishes, and `recursion_count` is again
what it was.  A lookup that opens links itself finishes if the targets of
symbolic links do not lead to each other.
-/

namespace WineRedRose.Lookup

open Registry Library.Loops Option

variable {lower : WChar → WChar} {ns : Namespace} {attr : Attributes}
  {turns count depth : Nat} {obj : Obj} {k p : KeyId}

/-! ## No null pointer is followed -/

/-- No result of a loop is a fault. -/
def NoFault (loop : Nat → Obj → Option Name → Option Result) : Prop :=
  ∀ count obj name count', loop count obj name ≠ some (.error .fault, count')

variable {loop : Nat → Obj → Option Name → Option Result}

theorem NoFault.afterTurn (noFault : NoFault loop) {turn : Turn} (ne : turn ≠ .failed .fault)
    (obj : Obj) (count count' : Nat) :
    afterTurn loop obj turn count ≠ some (.error .fault, count') := by
  cases turn with
  | stop name => exact nofun
  | failed status =>
    rintro ⟨rfl, -⟩
    exact ne rfl
  | next obj name => exact noFault count obj name count'

theorem NoFault.lookupNamedObject (noFault : NoFault loop) (root : Option KeyId) (name : Name)
    (count count' : Nat) :
    lookupNamedObject ns loop count root name ≠ some (.error .fault, count') := by
  unfold Lookup.lookupNamedObject
  split
  · next status eq =>
      have syntaxBad : status = .objectPathSyntaxBad := by
        unfold startAt at eq
        split at eq <;> split at eq <;> cases eq <;> rfl
      rw [syntaxBad]
      exact nofun
  · split
    · exact nofun
    · split
      · exact nofun
      · split
        · exact nofun
        · next result count'' looped =>
            intro eq
            simp only [some.injEq, Prod.mk.injEq] at eq
            rw [eq.1] at looped
            exact noFault _ _ _ _ looped

/-- The loop behind a link whose target is looked up by another loop. -/
theorem NoFault.follow (noFault : NoFault loop) {nested : Nat → Obj → Option Name → Option Result}
    (inner : NoFault nested) {target : Name} {next : Found → Turn}
    (goes : ∀ found count', Lookup.lookupNamedObject ns nested count none target =
      some (.ok found, count') → next found ≠ .failed .fault) (obj : Obj) (count' : Nat) :
    (Lookup.lookupNamedObject ns nested count none target).bind (afterTarget loop obj next) ≠
      some (.error .fault, count') := by
  intro done
  rcases bind_eq_some_iff.mp done with ⟨⟨status | found, count''⟩, looked, after⟩
  · simp only [afterTarget, some.injEq, Prod.mk.injEq, Except.error.injEq] at after
    rw [after.1] at looked
    exact inner.lookupNamedObject _ _ _ _ looked
  · exact noFault.afterTurn (goes found _ looked) _ _ _ after

variable {name : Name} {link : KeyId}

/-- The loop climbs from a reflected key to a subkey of a key above it. -/
theorem Climbs.lookupLoop {c : KeyId} {result : Result} (climbs : Climbs lower ns name k c)
    (wow64 : attr.wow64 = true) (plain : Plain ns k) (short : (element name).length ≤ maxNameLen)
    (single : element name = name) (absent : child lower ns k (element name) = none)
    (done : lookupLoop lower ns turns attr count (.key k) (some name) = some result) :
    ∃ fewer, fewer < turns ∧ lookupLoop lower ns fewer attr count (.key c) none = some result := by
  have last := behindElement_of_single single
  induction climbs generalizing turns with
  | parent reflected parent present =>
    cases turns with
    | zero => exact absurd done (by simp [lookupLoop])
    | succ turns =>
      rw [← single] at present
      rw [lookupLoop_turn (lookupName_plain plain),
        elementLookup_up short absent reflected wow64 parent, present, last] at done
      exact ⟨turns, Nat.lt_succ_self turns, done⟩
  | above reflected parent missing plain' _ ih =>
    cases turns with
    | zero => exact absurd done (by simp [lookupLoop])
    | succ turns =>
      rw [← single] at missing
      rw [lookupLoop_turn (lookupName_plain plain),
        elementLookup_up short absent reflected wow64 parent, missing] at done
      rcases ih plain' missing done with ⟨fewer, less, done⟩
      exact ⟨fewer, less.trans (Nat.lt_succ_self turns), done⟩

/-- The loop goes from a link to the next. -/
theorem Refill.lookupLoop (tree : Tree lower ns) {next : KeyId} {result : Result}
    (refill : Refill lower ns depth link next) (level : count + depth = maxRecursion)
    (wow64 : attr.wow64 = true) (follows : attr.openLink = false)
    (done : lookupLoop lower ns turns attr count (.key link) none = some result) :
    ∃ fewer, fewer < turns ∧
      lookupLoop lower ns fewer attr count (.key next) none = some result := by
  rcases refill with ⟨path, k, name, linksTo, leads, climbs⟩
  have noStop : ¬ (nameLen none = 0 ∧ attr.openLink = true) :=
    fun both => absurd (follows.symm.trans both.2) Bool.false_ne_true
  have below : count + 1 + depth = maxRecursion + 1 := by omega
  rcases leads.lookupLoop below with ⟨more, found⟩
  cases turns with
  | zero => exact absurd done (by simp [lookupLoop])
  | succ turns =>
    rw [lookupLoop_follow (lookupName_link linksTo noStop)] at done
    rcases bind_eq_some_iff.mp done with ⟨nested, looked, after⟩
    have resolved := lookupNamedObject_of_leads leads level found
    have nested_eq : nested = (.ok (.key k, some name), count) := by
      have one := (lookupLoop_extends_of_le lower ns (le_max_left turns more)
        linkAttributes).lookupNamedObject looked
      have other := (lookupLoop_extends_of_le lower ns (le_max_right turns more)
        linkAttributes).lookupNamedObject resolved
      exact some.inj (one.symm.trans other)
    subst nested_eq
    have settled := leads.settled tree trivial
    cases settled with
    | missing plain clean short absent single =>
      rw [← single] at short absent
      rcases climbs.lookupLoop wow64 plain short single absent after with ⟨fewer, less, done⟩
      exact ⟨fewer, less.trans (Nat.lt_succ_self turns), done⟩

end WineRedRose.Lookup
