import Mathlib.Data.BitVec
import WineRedRose.Fsync.WaitAll

/-!
# A wait for all objects that comes too late

The third step of a wait for all objects while other threads take steps: one
of the objects may be taken away after the second step has found it signaled.
Then the objects before it are put back.  A compare-and-swap that fails counts
as a load that finds the word taken.
-/

namespace WineRedRose.Fsync

open List Function Object
open Waits (ObjectId)

/-- What other threads do to the memory before each access of this one. -/
abbrev Others := Nat → Memory → Memory

/-- The loop after `tooslow`, which puts back the object grabbed last first. -/
def tooslow (others : Others) : Nat → List ObjectId → Memory → Memory
  | _, [], memory => memory
  | n, o :: grabbed, memory =>
    tooslow others (n + 1) grabbed (update (others n memory) o (putBack (others n memory o)))

/--
The third step, with the objects grabbed so far.  If it fails, the objects are
put back; returned are the memory and the objects before the one that failed.
-/
def grabRound (t : Tid) (others : Others) :
    Nat → List ObjectId → List ObjectId → Memory → Option (Memory × List ObjectId)
  | _, _, [], _ => none
  | n, grabbed, o :: objects, memory =>
    match grab t (others n memory o) with
    | none => some (tooslow others (n + 1) grabbed (others n memory), grabbed)
    | some (object, _) =>
      grabRound t others (n + 1) (o :: grabbed) objects (update (others n memory) o object)

/-- A semaphore with a count raised by this amount. -/
def Object.raised (amount : Word) : Object → Object
  | .semaphore sem => .semaphore { sem with count := sem.count + amount }
  | object => object

/-- The sum of the amounts of so many steps. -/
def added (amount : Nat → Word) (n : Nat) : Nat → Word
  | 0 => 0#32
  | steps + 1 => amount n + added amount (n + 1) steps

/-- What an object is taken for when it is put back. -/
def Object.settled : Object → Object
  | .mutex m => .mutex { m with tid := 0#32 }
  | .event type signaled => .event type (if type.auto then 1#32 else signaled)
  | .semaphore sem => .semaphore sem

/-- A mutex that the thread owns, or whose owner has died. -/
def Object.Held (t : Tid) : Object → Prop
  | .mutex m => m.tid = t.word ∨ m.tid = abandonedTid
  | _ => False

variable {t : Tid} {others : Others} {object object' : Object} {o : ObjectId}
variable {amount : Nat → Word} {memory : Memory}

/-! ## One object -/

theorem Object.raised_raised (first second : Word) :
    (object.raised first).raised second = object.raised (first + second) := by
  cases object <;> simp [raised, add_assoc]

theorem Object.raised_zero : object.raised 0#32 = object := by cases object <;> simp [raised]

theorem Object.settled_raised (amount : Word) :
    (object.raised amount).settled = object.settled.raised amount := by
  cases object <;> rfl

theorem putBack_eq : putBack object = object.settled.raised 1 := by cases object <;> rfl

theorem settled_putBack : (putBack object).settled = putBack object := by
  rcases object with _ | _ | ⟨type, signaled⟩
  · rfl
  · rfl
  · cases auto : type.auto <;> simp [putBack, Object.settled, auto]

/-- To grab an object changes the count of a semaphore only, as far as it is put back. -/
theorem settled_of_grab {abandoned : Bool} (taken : grab t object = some (object', abandoned)) :
    object'.settled = object.settled.raised (-1) := by
  cases object with
  | mutex m =>
    rw [grab] at taken
    split_ifs at taken <;> cases taken <;> rfl
  | semaphore sem =>
    rw [grab] at taken
    split_ifs at taken
    cases taken
    simp [Object.settled, Object.raised, sub_eq_add_neg]
  | event type signaled =>
    rw [grab] at taken
    split_ifs at taken with auto <;> cases taken <;> simp [Object.settled, Object.raised, auto]

theorem Object.plain_raised (amount : Word) : (object.raised amount).Plain ↔ object.Plain := by
  cases object <;> rfl

theorem Object.held_raised (amount : Word) : (object.raised amount).Held t ↔ object.Held t := by
  cases object <;> rfl

/-- An object that is put back is what it was, unless it is an event with another
word than the one that is stored, or a mutex that was held. -/
theorem settled_eq_iff {amount : Word} (taken : (grab t (object.raised amount)).isSome) :
    object.settled = object ↔ object.Plain ∧ ¬ object.Held t := by
  cases object with
  | semaphore sem => exact iff_of_true rfl ⟨trivial, id⟩
  | event type signaled =>
    cases auto : type.auto
    · simp [Object.settled, Object.Plain, Object.Held, auto]
    · simp [Object.settled, Object.Plain, Object.Held, auto, eq_comm]
  | mutex m =>
    have free : (Object.mutex m).settled = .mutex m ↔ m.tid = 0#32 := by
      rw [Object.settled, Object.mutex.injEq, eq_comm]
      exact ⟨fun same => congrArg Mutex.tid same, fun zero => by rw [← zero]⟩
    rw [free, Object.Held]
    constructor
    · rintro zero
      rw [zero]
      exact ⟨trivial, not_or.mpr ⟨t.notFree.symm, by decide⟩⟩
    · rintro ⟨-, apart⟩
      obtain ⟨mine, dead⟩ := not_or.mp apart
      by_contra other
      simp [grab, mine, other, dead, Object.raised] at taken

/-! ## The whole round -/

section Round

variable (alone : ∀ n memory, others n memory o = (memory o).raised (amount n))

include alone

theorem settled_update_others (n : Nat) (p : ObjectId) {change : Word}
    (changed : object.settled = (others n memory p).settled.raised change) :
    (update (others n memory) p object o).settled =
      (memory o).settled.raised (amount n + if p = o then change else 0) := by
  by_cases same : p = o
  · subst same
    rw [update_self, changed, alone, settled_raised, raised_raised, if_pos rfl]
  · rw [update_of_ne (Ne.symm same), alone, settled_raised, if_neg same, add_zero]

variable {grabbed : List ObjectId}

omit alone in
theorem cast_count_cons (p : ObjectId) :
    ((p :: grabbed).count o : Word) = (if p = o then 1 else 0) + grabbed.count o := by
  by_cases same : p = o <;> simp [same, add_comm]

theorem tooslow_settled (n : Nat) : (tooslow others n grabbed memory o).settled =
      (memory o).settled.raised (added amount n grabbed.length + (grabbed.count o : Word)) := by
  induction grabbed generalizing n memory with
  | nil => exact raised_zero.symm
  | cons p grabbed ih =>
    have put := settled_putBack.trans (@putBack_eq (others n memory p))
    rw [tooslow, ih, settled_update_others alone n p put, raised_raised, length_cons, added]
    rw [cast_count_cons]
    congr 1
    ring

variable {n : Nat}

/-- What was put back last is settled. -/
theorem settled_tooslow {grabbed : List ObjectId}
    (before : o ∈ grabbed ∨ (memory o).settled = memory o) :
    (tooslow others n grabbed memory o).settled = tooslow others n grabbed memory o := by
  induction grabbed generalizing n memory with
  | nil => exact before.resolve_left not_mem_nil
  | cons p grabbed ih =>
    refine ih ?_
    by_cases same : p = o
    · subst same
      rw [update_self]
      exact .inr settled_putBack
    · rw [update_of_ne (Ne.symm same), alone, settled_raised]
      refine before.imp (fun member => ?_) (congrArg _)
      exact (mem_cons.mp member).resolve_left (Ne.symm same)

/-- The steps that come after `grabbed` take as much as they put back. -/
theorem grabRound_settled {grabbed objects before : List ObjectId} {memory' : Memory}
    (fails : grabRound t others n grabbed objects memory = some (memory', before)) :
    ∃ count, before.length = count + grabbed.length ∧
      (memory' o).settled = (memory o).settled.raised
        (added amount n (count + 1 + before.length) + (grabbed.count o : Word)) ∧
      (o ∈ before → (memory' o).settled = memory' o ∧
        (o ∈ grabbed ∨ ∃ total, (grab t ((memory o).raised total)).isSome)) := by
  induction objects generalizing n grabbed memory with
  | nil => cases fails
  | cons p objects ih =>
    rw [grabRound] at fails
    cases taken : grab t (others n memory p) with
    | none =>
      rw [taken] at fails
      cases fails
      refine ⟨0, (Nat.zero_add _).symm, ?_, fun member =>
        ⟨settled_tooslow alone (.inl member), .inl member⟩⟩
      rw [tooslow_settled alone, alone, settled_raised, raised_raised,
        show 0 + 1 + before.length = before.length + 1 by omega, added, add_assoc]
    | some result =>
      rw [taken] at fails
      rcases ih fails with ⟨count, length, settled, kept⟩
      have changed := settled_of_grab taken
      refine ⟨count + 1, by rw [length, length_cons]; omega, ?_, fun member => ?_⟩
      · rw [settled, settled_update_others alone n p changed, raised_raised,
          show count + 1 + 1 + before.length = count + 1 + before.length + 1 by omega, added]
        rw [cast_count_cons]
        congr 1
        split_ifs <;> ring
      · refine ⟨(kept member).1, ?_⟩
        by_cases same : p = o
        · subst same
          refine .inr ⟨amount n, ?_⟩
          rw [← alone, taken]
          rfl
        · refine (kept member).2.imp (fun among => ?_) fun ⟨total, grabs⟩ => ?_
          · exact (mem_cons.mp among).resolve_left (Ne.symm same)
          · rw [update_of_ne (Ne.symm same), alone, raised_raised] at grabs
            exact ⟨_, grabs⟩

end Round

/--
When a round fails, the words of the objects before the one that failed are what
they were, apart from what other threads have added to semaphores, exactly if no
mutex among them was abandoned or owned by the thread and no automatic event was
signaled by another word than one.
-/
theorem failed_grab_undone_iff {objects before : List ObjectId} {memory' : Memory}
    {amount : ObjectId → Nat → Word}
    (alone : ∀ o ∈ before, ∀ n memory, others n memory o = (memory o).raised (amount o n))
    (fails : grabRound t others 0 [] objects memory = some (memory', before)) :
    (∀ o ∈ before, memory' o = (memory o).raised
      (added (amount o) 0 (2 * before.length + 1))) ↔
    ∀ o ∈ before, (memory o).Plain ∧ ¬ (memory o).Held t := by
  refine forall₂_congr fun o member => ?_
  rcases grabRound_settled (alone o member) fails with ⟨count, length, settled, kept⟩
  rcases kept member with ⟨same, none | ⟨total, grabs⟩⟩
  · cases none
  have steps : count + 1 + before.length = 2 * before.length + 1 := by
    rw [length, length_nil]
    omega
  rw [steps, count_nil, Nat.cast_zero, add_zero, ← settled_raised, same] at settled
  rw [← plain_raised (added (amount o) 0 (2 * before.length + 1)),
    ← held_raised (added (amount o) 0 (2 * before.length + 1)), settled]
  refine @settled_eq_iff t _ (total - added (amount o) 0 (2 * before.length + 1)) ?_
  rwa [raised_raised, add_sub_cancel]

/-- A mutex and a semaphore. -/
def mutexFirst (tid count : Word) : Memory :=
  update (fun _ => .semaphore ⟨1, 1⟩) 0 (.mutex ⟨tid, count⟩)

/-- The semaphore is taken away before the second access. -/
def takeSecond : Others := fun n memory =>
  if n = 1 then update memory 1 (.semaphore ⟨0, 1⟩) else memory

theorem failed_grab_undone_free_mutex :
    ∃ memory', grabRound firstTid takeSecond 0 [] [0, 1] (mutexFirst 0 0) = some (memory', [0]) ∧
      ∀ o ∈ [0], memory' o = (mutexFirst 0 0 o).raised (added (fun _ => 0#32) 0 3) := by
  refine ⟨_, rfl, (@failed_grab_undone_iff firstTid takeSecond (mutexFirst 0 0) [0, 1] [0] _
    (fun _ _ => 0#32) ?_ rfl).mpr ?_⟩
  · intro o member n memory
    rw [mem_singleton.mp member, raised_zero, takeSecond]
    split_ifs <;> rfl
  · intro o member
    rw [mem_singleton.mp member]
    exact ⟨trivial, not_or.mpr ⟨by decide, by decide⟩⟩

/-- A mutex that the thread owned is free after a wait that comes too late. -/
theorem failed_grab_frees_owned_mutex : ∃ memory',
    grabRound firstTid takeSecond 0 [] [0, 1] (mutexFirst firstTid.word 1) = some (memory', [0]) ∧
      memory' 0 ≠ mutexFirst firstTid.word 1 0 :=
  ⟨_, rfl, by decide⟩

end WineRedRose.Fsync
