import WineRedRose.Library.Runs

/-!
# Deleting a timer queue

A model of the timer queues of `dlls/ntdll/threadpool.c` and of the loop of
`RtlDeleteTimerQueueEx`.  A timer is known by its address.  The loop goes from
a timer to the one that followed it before its turn; running timers are moved
to the end of the list that is being walked, so the loop meets them again.  An
assertion that fails and an access to a timer that is not in the list are
recorded in `fault`.
-/

namespace WineRedRose.TimerQueues

open List Library.Runs

/-- `EXPIRE_NEVER` -/
def expireNever : Nat := 2 ^ 64 - 1

/-- `struct queue_timer`, without its callback and the event of its removal. -/
structure Timer where
  address : Nat
  runcount : Nat
  expire : Nat
  destroy : Bool
deriving DecidableEq, Repr

/-- `struct timer_queue`, with the timers that were freed and the number of
times that its event was set. -/
structure TimerQueue where
  timers : List Timer
  quit : Bool
  freed : List Nat
  signals : Nat
  fault : Bool
deriving DecidableEq, Repr

/-! ## The functions of a queue -/

/-- `list_remove` -/
def listRemove (t : Timer) (timers : List Timer) : List Timer :=
  timers.eraseP fun other => other.address = t.address

def queueRemoveTimer (q : TimerQueue) (t : Timer) : TimerQueue :=
  let timers := listRemove t q.timers
  { q with
    timers := timers
    freed := q.freed ++ [t.address]
    signals := if q.quit ∧ timers = [] then q.signals + 1 else q.signals
    fault := q.fault || t.runcount ≠ 0 || !t.destroy }

def queueAddTimer (q : TimerQueue) (t : Timer) (time : Nat) (setEvent : Bool) : TimerQueue :=
  let before :=
    if time = expireNever then q.timers else q.timers.takeWhile fun cur => cur.expire ≤ time
  { q with
    timers := before ++ { t with expire := time } :: q.timers.drop before.length
    signals := if setEvent ∧ before = [] then q.signals + 1 else q.signals
    fault := q.fault || q.quit && !(t.destroy && time = expireNever) }

def queueMoveTimer (q : TimerQueue) (t : Timer) (time : Nat) (setEvent : Bool) : TimerQueue :=
  queueAddTimer { q with timers := listRemove t q.timers } t time setEvent

def queueDestroyTimer (q : TimerQueue) (t : Timer) : TimerQueue :=
  if t.runcount = 0 then queueRemoveTimer q { t with destroy := true }
  else queueMoveTimer q { t with destroy := true } expireNever false

def timerCleanupCallback (q : TimerQueue) (address : Nat) : TimerQueue :=
  match q.timers.find? fun t => t.address = address with
  | none => { q with fault := true }
  | some t =>
    let ended := { t with runcount := t.runcount - 1 }
    if t.runcount = 0 then { q with fault := true }
    else if t.destroy ∧ ended.runcount = 0 then queueRemoveTimer q ended
    else { q with timers :=
      q.timers.map fun other => if other.address = address then ended else other }

/-- The loop of `RtlDeleteTimerQueueEx` from the timer at an address on, or at
the end of the list. -/
def deleteLoop : Nat → Option Nat → TimerQueue → Option TimerQueue
  | 0, _, _ => none
  | _ + 1, none, q => some q
  | turns + 1, some cursor, q =>
    match q.timers.dropWhile fun t => t.address ≠ cursor with
    | [] => some { q with fault := true }
    | t :: rest => deleteLoop turns (rest.head?.map Timer.address) (queueDestroyTimer q t)

/-- `RtlDeleteTimerQueueEx`, while it holds the lock. -/
def rtlDeleteTimerQueueEx (turns : Nat) (q : TimerQueue) : Option TimerQueue :=
  let q := { q with quit := true }
  if q.timers = [] then some { q with signals := q.signals + 1 }
  else deleteLoop turns (q.timers.head?.map Timer.address) q

/-! ## What a deletion should do -/

/-- Callbacks of the timer are queued or running. -/
def Timer.runs (t : Timer) : Bool := t.runcount ≠ 0

/--
All timers are destroyed, those that do not run are freed, once, and the others
are left.  Whatever callbacks end later, the event is set, once, when no timer
is left.
-/
structure Deletes (timers : List Timer) (q : TimerQueue) : Prop where
  sound : q.fault = false
  destroyed : ∀ t ∈ q.timers, t.destroy = true
  freed : q.freed = (timers.filter fun t => !t.runs).map Timer.address
  left : q.timers.map Timer.address = (timers.filter Timer.runs).map Timer.address
  signaled : ∀ callbacks, Visits timerCleanupCallback
    (fun q => q.signals = if q.timers = [] then 1 else 0) q callbacks

/-! ## One turn -/

/-- What is left of a timer that runs. -/
def Timer.destroyed (t : Timer) : Timer := { t with destroy := true, expire := expireNever }

variable {timers rest : List Timer} {freed : List Nat} {signals turns : Nat} {t : Timer}

@[simp]
theorem Timer.runs_destroyed : t.destroyed.runs = t.runs := rfl

@[simp]
theorem Timer.destroyed_destroyed : t.destroyed.destroyed = t.destroyed := rfl

theorem deleteLoop_of_idle (idle : t.runs = false) :
    deleteLoop (turns + 1) (some t.address) ⟨t :: rest, true, freed, signals, false⟩ =
      deleteLoop turns (rest.head?.map Timer.address)
        ⟨rest, true, freed ++ [t.address], signals + if rest = [] then 1 else 0, false⟩ := by
  have none : t.runcount = 0 := by simpa [Timer.runs] using idle
  by_cases last : rest = [] <;>
    simp [deleteLoop, queueDestroyTimer, queueRemoveTimer, listRemove, none, last]

theorem deleteLoop_of_runs (runs : t.runs = true) :
    deleteLoop (turns + 1) (some t.address) ⟨t :: rest, true, freed, signals, false⟩ =
      deleteLoop turns (rest.head?.map Timer.address)
        ⟨rest ++ [t.destroyed], true, freed, signals, false⟩ := by
  have some : t.runcount ≠ 0 := by simpa [Timer.runs] using runs
  simp [deleteLoop, queueDestroyTimer, queueMoveTimer, queueAddTimer, listRemove, some,
    Timer.destroyed]

/-! ## The loop -/

/-- Two running timers pass the end of the list to each other for ever. -/
theorem deleteLoop_eq_none (two : 2 ≤ timers.countP Timer.runs) (turns : Nat) :
    deleteLoop turns (timers.head?.map Timer.address) ⟨timers, true, freed, signals, false⟩ =
      none := by
  induction turns generalizing timers freed signals with
  | zero => rfl
  | succ turns ih =>
    cases timers with
    | nil => simp at two
    | cons t rest =>
      rw [countP_cons] at two
      rw [head?_cons, Option.map_some]
      cases runs : t.runs with
      | false =>
        rw [deleteLoop_of_idle runs]
        exact ih (by simpa [runs] using two)
      | true =>
        have more : rest ≠ [] := by
          rintro rfl
          simp [runs] at two
        rw [deleteLoop_of_runs runs, ← head?_append_of_ne_nil _ more]
        exact ih (by simpa [countP_append, runs] using two)

/-- With one running timer at most the loop goes on as long as others are left. -/
theorem deleteLoop_ends (nonempty : timers ≠ []) (few : timers.countP Timer.runs ≤ 1) :
    ∃ turns, deleteLoop turns (timers.head?.map Timer.address)
        ⟨timers, true, freed, signals, false⟩ =
      some ⟨(timers.filter Timer.runs).map Timer.destroyed, true,
        freed ++ (timers.filter fun t => !t.runs).map Timer.address,
        signals + if timers.filter Timer.runs = [] then 1 else 0, false⟩ := by
  generalize size : timers.countP (fun t => !t.runs) = n
  -- every second turn at least frees a timer that does not run
  induction n generalizing timers freed signals with
  | zero =>
    obtain ⟨t, rest, rfl⟩ := exists_cons_of_ne_nil nonempty
    have all : t.runs = true ∧ ∀ t ∈ rest, t.runs = true := by simpa using countP_eq_zero.mp size
    rw [countP_eq_length.mpr (forall_mem_cons.mpr all), length_cons] at few
    obtain rfl : rest = [] := length_eq_zero_iff.mp (by omega)
    refine ⟨2, ?_⟩
    rw [head?_cons, Option.map_some, deleteLoop_of_runs all.1]
    simp [deleteLoop, all.1]
  | succ n ih =>
    obtain ⟨t, rest, rfl⟩ := exists_cons_of_ne_nil nonempty
    rw [countP_cons] at few size
    rw [head?_cons, Option.map_some]
    cases runs : t.runs with
    | false =>
      by_cases last : rest = []
      · refine ⟨2, ?_⟩
        rw [deleteLoop_of_idle runs]
        simp [deleteLoop, last, runs]
      · obtain ⟨turns, ends⟩ := @ih rest (freed ++ [t.address]) signals last
          (by simpa [runs] using few) (by simpa [runs] using size)
        refine ⟨turns + 1, ?_⟩
        rw [deleteLoop_of_idle runs, if_neg last, Nat.add_zero, ends]
        simp [runs]
    | true =>
      have none : ∀ t ∈ rest, t.runs = false := by simpa [runs] using few
      obtain ⟨i, rest, rfl⟩ : ∃ i rest', rest = i :: rest' := by
        refine exists_cons_of_ne_nil ?_
        rintro rfl
        simp [runs] at size
      rw [forall_mem_cons] at none
      have left : rest.filter Timer.runs = [] := by simpa using none.2
      obtain ⟨turns, ends⟩ := @ih (rest ++ [t.destroyed]) (freed ++ [i.address]) signals (by simp)
        (by simp [countP_eq_length_filter, left, runs]) (by simpa [runs, none.1] using size)
      refine ⟨turns + 1 + 1, ?_⟩
      rw [deleteLoop_of_runs runs, head?_cons, Option.map_some, cons_append,
        deleteLoop_of_idle none.1, if_neg (by simp), Nat.add_zero, ends]
      simp [runs, none.1, left]

/-- No callback that ends later sets the event too early, too late or twice. -/
theorem signaled_later {q : TimerQueue} (quit : q.quit = true)
    (signals : q.signals = if q.timers = [] then 1 else 0) (callbacks : List Nat) :
    Visits timerCleanupCallback (fun q => q.signals = if q.timers = [] then 1 else 0) q
      callbacks := by
  have keeps (q : TimerQueue) (address : Nat)
      (inv : q.quit = true ∧ q.signals = if q.timers = [] then 1 else 0) :
      (timerCleanupCallback q address).quit = true ∧ (timerCleanupCallback q address).signals =
        if (timerCleanupCallback q address).timers = [] then 1 else 0 := by
    unfold timerCleanupCallback
    cases found : q.timers.find? fun t => t.address = address with
    | none => exact inv
    | some t =>
      have some : q.timers ≠ [] := ne_nil_of_mem (mem_of_find?_eq_some found)
      rw [if_neg some] at inv
      dsimp only
      split_ifs <;> simp_all [queueRemoveTimer]
  exact (visits_of_step keeps ⟨quit, signals⟩).mono fun _ inv => inv.2

/--
The deletion of a queue ends, and does what it should, exactly if at most one
timer has callbacks that are queued or running.
-/
theorem deletion_ends_iff (timers : List Timer) :
    (∃ turns q, rtlDeleteTimerQueueEx turns ⟨timers, false, [], 0, false⟩ = some q ∧
        Deletes timers q) ↔
      timers.countP Timer.runs ≤ 1 := by
  by_cases none : timers = []
  · subst none
    exact iff_of_true ⟨0, _, rfl, rfl, nofun, rfl, rfl, signaled_later rfl rfl⟩ (Nat.zero_le 1)
  constructor
  · rintro ⟨turns, q, done, -⟩
    by_contra many
    rw [rtlDeleteTimerQueueEx, if_neg none, deleteLoop_eq_none (not_le.mp many)] at done
    cases done
  · intro few
    obtain ⟨turns, ends⟩ := @deleteLoop_ends _ [] 0 none few
    refine ⟨turns, _, (if_neg none).trans ends, rfl, ?_, rfl, ?_, signaled_later rfl ?_⟩
    · rw [forall_mem_map]
      exact fun _ _ => rfl
    · rw [map_map]
      rfl
    · simp

/-- Two timers whose callbacks run keep the loop going for ever. -/
theorem two_running_timers_never_end : ¬ ∃ turns, (rtlDeleteTimerQueueEx turns
    ⟨[⟨0, 1, 5, false⟩, ⟨1, 1, 7, false⟩], false, [], 0, false⟩).isSome := by
  rintro ⟨turns, ends⟩
  rw [rtlDeleteTimerQueueEx, deleteLoop_eq_none (by decide) turns] at ends
  cases ends

end WineRedRose.TimerQueues
