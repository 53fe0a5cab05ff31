import WineRedRose.Waits.Waking

/-!
# Signaling an object

An operation that signals an object changes the object and calls `wake_up`.
`Signals` says what holds afterwards; one thread may be exempt, because it has
just entered a wait that it has not checked yet.
-/

namespace WineRedRose.Waits

open Sync Server Object

/-! ## `wake_up` as a whole -/

variable {server : Server} {obj : ObjectId} {max : Int} {t : ThreadId} {exempt : ThreadId → Prop}

section WakeUp

variable {allowed : ObjectId → Prop}

section

variable (wellFormed : WellFormed server)
include wellFormed

theorem wakeUp_drains (obj : ObjectId) (max : Int) :
    WellFormed (wakeUp server obj max) ∧ Drains server (wakeUp server obj max) := by
  apply wakeUp_keeps wellFormed (Drains.refl server)
  intro _ _ _ _ drains woken
  exact drains.trans woken.drains

theorem wakeUp_quiet (quiet : Quiet allowed server t) (obj : ObjectId) (max : Int) :
    Quiet allowed (wakeUp server obj max) t := by
  have keeps := @wakeUp_keeps server wellFormed (fun later => Quiet allowed later t)
  apply (keeps quiet _ obj max).2
  intro _ _ _ _ quiet woken
  exact woken.quiet quiet

/-- A thread keeps its waits, or it was woken and now has to go on waiting. -/
theorem wakeUp_touched (obj : ObjectId) (max : Int) (t : ThreadId) :
    ((wakeUp server obj max).thread t).wait = (server.thread t).wait ∨
      checkWait (wakeUp server obj max) t = none := by
  have keeps := @wakeUp_keeps server wellFormed fun later =>
    (later.thread t).wait = (server.thread t).wait ∨ checkWait later t = none
  apply (keeps (.inl rfl) _ obj max).2
  intro later later' u count touched woken
  rcases eq_or_ne t u with rfl | other
  · exact .inr woken.settled
  · have same := woken.others t other
    rcases touched with kept | settled
    · exact .inl (same.trans kept)
    · exact .inr (settled_of_drains settled woken.drains same)

/-- Threads that only the object could wake are quiet after the scan. -/
theorem quiet_of_served (quiet : Quiet (· ≠ obj) server t)
    (served : Scanned obj server ∨ UsedUp obj server) :
    Quiet (fun _ => True) server t := by
  intro wait rest current running ready
  refine quiet wait rest current running (ready.mono fun o inside holds => ?_)
  refine ⟨?_, holds.2⟩
  rintro rfl
  rcases served with scanned | used
  · have isWait : wait ∈ (server.thread t).wait := by
      rw [current]
      exact List.mem_cons_self
    have entry := wellFormed.entered t wait isWait o inside
    have settled := scanned _ entry
    refine ((checkWait_eq_none_iff current running).mp settled).1 ?_
    exact ready.mono fun _ _ sig => sig.2
  · have dry := used t
    rw [holds.2] at dry
    cases dry

end

end WakeUp

/-! ## Signals -/

/--
After an operation that signals an object, no thread but an exempt one is
blocked in a wait that is over.
-/
structure Signals (obj : ObjectId) (exempt : ThreadId → Prop)
    (server server' : Server) : Prop where
  wellFormed : WellFormed server'
  suspended : ∀ t, suspended server' t = suspended server t
  signals : ∀ o t, o ≠ obj → (server'.object o).signaled t = true →
    (server.object o).signaled t = true
  quiet : ∀ t, ¬ exempt t → Quiet (fun _ => True) server' t
  touched : ∀ t, (server'.thread t).wait = (server.thread t).wait ∨ checkWait server' t = none
  /-- Nothing is signaled that was not, or the queue was looked at. -/
  dealt : ∀ t, exempt t → (∀ o, (server'.object o).signaled t = true →
      (server.object o).signaled t = true) ∨
    ((∃ wait ∈ (server.thread t).wait, obj ∈ wait.objects) → checkWait server' t = none)

/-- An object was replaced before `wake_up` is called. -/
structure Replaces (obj : ObjectId) (server server' : Server) : Prop where
  keeps : Keeps server server'
  objects : ∀ o, o ≠ obj → server'.object o = server.object o
  room : (server'.object obj).Room (server.queue obj).length

/-- A signal to the object wakes a limited number of threads. -/
def Dormant (server : Server) (obj : ObjectId) : Prop :=
  (server.object obj).Limited ∧ (server.object obj).supply = 0

/-- No thread in the queue has a current wait whose deadline has passed, unless
the wait takes the object. -/
def Punctual (server : Server) (obj : ObjectId) : Prop := ∀ entry ∈ server.queue obj, ∀ wait rest,
    (server.thread entry.thread).wait = wait :: rest →
    suspended server entry.thread = false → expired server wait = false ∨ wait.Takes obj

instance (server : Server) (obj : ObjectId) :
    Decidable (Punctual server obj) :=
  decidable_of_iff (∀ entry ∈ server.queue obj, ∀ wait ∈ (server.thread entry.thread).wait.head?,
      suspended server entry.thread = false → expired server wait = false ∨ wait.Takes obj) <| by
    refine forall₂_congr fun entry _ => ⟨fun holds wait rest current => ?_,
      fun holds wait member => ?_⟩
    · exact holds wait (by rw [current]; rfl)
    · exact holds wait _ (List.eq_cons_of_mem_head? member)

section Signals

variable {server' : Server}
section

variable (replaces : Replaces obj server server')
include replaces

theorem Replaces.wellFormed (wellFormed : WellFormed server) : WellFormed server' := by
  have keeps := replaces.keeps
  refine ⟨fun t wait member o inside => ?_, fun t => ?_, fun t wait member => ?_, fun o => ?_⟩
  · rw [keeps.wait t] at member
    rw [keeps.queue]
    exact wellFormed.entered t wait member o inside
  · rw [keeps.wait t]
    exact wellFormed.ids t
  · rw [keeps.wait t] at member
    rw [keeps.nextWait]
    exact wellFormed.fresh t wait member
  · rw [keeps.queue]
    rcases eq_or_ne o obj with rfl | other
    · exact replaces.room
    · rw [replaces.objects o other]
      exact wellFormed.room o

/-- Only the replaced object can end more waits than before. -/
theorem Replaces.quiet (quiet : Quiet (fun _ => True) server t) : Quiet (· ≠ obj) server' t := by
  intro wait rest current running ready
  rw [replaces.keeps.wait t] at current
  rw [replaces.keeps.suspended t] at running
  refine quiet wait rest current running (ready.mono fun o _ holds => ?_)
  rw [replaces.objects o holds.1] at holds
  exact ⟨trivial, holds.2⟩

/-- An object that is as little signaled as before can be scanned freely. -/
theorem Replaces.signals_of_weaker (calm : ∀ t, ¬ exempt t → Quiet (fun _ => True) server t)
    (weaker : ∀ t, (server'.object obj).signaled t = true → (server.object obj).signaled t = true) :
    ∀ {later : Server}, Drains server' later → WellFormed later →
      (∀ t, (later.thread t).wait = (server'.thread t).wait ∨ checkWait later t = none) →
      Signals obj exempt server later := by
  intro later drains wellFormed' touched
  have weakest : ∀ o t, (later.object o).signaled t = true →
      (server.object o).signaled t = true := by
    intro o t sig
    have before := drains.signals o t sig
    rcases eq_or_ne o obj with rfl | other
    · exact weaker t before
    · rw [replaces.objects o other] at before
      exact before
  refine ⟨wellFormed', fun t => ?_, fun o t _ => weakest o t,
    fun t regular => ?_, fun t => ?_, fun t _ => .inl fun o => weakest o t⟩
  · exact (drains.suspended t).trans (replaces.keeps.suspended t)
  · rcases touched t with same | settled
    · intro wait rest current running ready
      rw [same, replaces.keeps.wait t] at current
      rw [drains.suspended t, replaces.keeps.suspended t] at running
      exact calm t regular wait rest current running
        (ready.mono fun o _ holds => ⟨trivial, weakest o t holds.2⟩)
    · exact quiet_of_settled settled
  · rcases touched t with same | settled
    · exact .inl (same.trans (replaces.keeps.wait t))
    · exact .inr settled

section

variable (wellFormed : WellFormed server) (calm : ∀ t, ¬ exempt t → Quiet (fun _ => True) server t)
include wellFormed calm

/-- `wake_up` after an object became signaled. -/
theorem Replaces.signals (bounded : 0 < max → (server'.object obj).Limited ∧
      ((server'.object obj).supply : Int) ≤ max ∧ Punctual server obj ∧
      ∀ entry ∈ server.queue obj, ¬ exempt entry.thread) :
    Signals obj exempt server (wakeUp server' obj max) := by
  have wellFormed' := replaces.wellFormed wellFormed
  rcases wakeUp_drains wellFormed' obj max with ⟨after, drains⟩
  have keeps := replaces.keeps
  have rationed : 0 < max → Rationed obj server' max := by
    intro positive
    rcases bounded positive with ⟨limited, supply, punctual, regular⟩
    refine ⟨wellFormed', limited, supply, fun entry member => ?_,
      fun entry member wait rest current running => ?_⟩
    · rw [keeps.queue] at member
      exact replaces.quiet (calm _ (regular entry member))
    · rw [keeps.queue] at member
      rw [keeps.wait] at current
      rw [keeps.suspended] at running
      rw [keeps.expired]
      exact punctual entry member wait rest current running
  have served := wakeUpLoop_served wellFormed' (Nat.lt_succ_self _) rationed
  have touched : ∀ t, ((wakeUp server' obj max).thread t).wait =
      (server.thread t).wait ∨ checkWait (wakeUp server' obj max) t = none := by
    intro t
    rcases wakeUp_touched wellFormed' obj max t with same | settled
    · exact .inl (same.trans (keeps.wait t))
    · exact .inr settled
  refine ⟨after, fun t => ?_, fun o t other sig => ?_, fun t regular => ?_,
    touched, fun t isExempt => .inr ?_⟩
  · exact (drains.suspended t).trans (keeps.suspended t)
  · have before := drains.signals o t sig
    rw [replaces.objects o other] at before
    exact before
  · refine quiet_of_served after (wakeUp_quiet wellFormed'
      (replaces.quiet (calm t regular)) obj max) ?_
    exact served.imp_right And.right
  · -- an exempt thread is only queued here when the scan is complete
    rintro ⟨wait, isWait, inside⟩
    rcases served with scanned | ⟨positive, _⟩
    · rcases touched t with same | settled
      · rw [← same] at isWait
        exact scanned _ (after.entered t wait isWait obj inside)
      · exact settled
    · have entry := wellFormed.entered t wait isWait obj inside
      exact ((bounded positive).2.2.2 _ entry isExempt).elim

/-- An object is replaced by one that is not signaled for more threads. -/
theorem Replaces.signals_of_weaker_object
    (weaker : ∀ t, (server'.object obj).signaled t = true → (server.object obj).signaled t = true) :
    Signals obj exempt server server' :=
  replaces.signals_of_weaker calm weaker (.refl server')
    (replaces.wellFormed wellFormed) fun _ => .inl rfl

end

end

theorem Signals.refl (wellFormed : WellFormed server)
    (calm : ∀ t, ¬ exempt t → Quiet (fun _ => True) server t) (obj : ObjectId) :
    Signals obj exempt server server := by
  have same : Replaces obj server server := ⟨.refl server, fun _ _ => rfl, wellFormed.room obj⟩
  exact same.signals_of_weaker_object wellFormed calm fun _ => id

theorem replaces_setObject {object : Object} (room : object.Room (server.queue obj).length) :
    Replaces obj server (server.setObject obj object) := by
  refine ⟨keeps_setObject .., fun o other => ?_, ?_⟩
  · exact object_setObject_of_ne _ other _
  · rw [object_setObject_self]
    exact room

theorem replaces_setEvent (server : Server) (obj : ObjectId) (event : Event) :
    Replaces obj server (server.setObject obj (.event event)) :=
  replaces_setObject trivial

end Signals

/-! ## The operations -/

section Operations

variable {later : Server}
section

variable (wellFormed : WellFormed server) (calm : ∀ t, ¬ exempt t → Quiet (fun _ => True) server t)
include wellFormed calm

theorem setEvent_signals (fair : Dormant server obj → Punctual server obj ∧
      ∀ entry ∈ server.queue obj, ¬ exempt entry.thread) :
    Signals obj exempt server (setEvent server obj) := by
  rw [setEvent]
  split
  swap
  · exact .refl wellFormed calm obj
  next event is =>
  have replaces := replaces_setEvent server obj
    { event with signaled := true }
  have wellFormed' := replaces.wellFormed wellFormed
  rcases was : event.signaled with _ | _
  · apply replaces.signals wellFormed calm
    split_ifs with manual
    · exact fun positive => (lt_irrefl 0 positive).elim
    · intro _
      have auto := Bool.eq_false_of_not_eq_true manual
      have dormant : Dormant server obj := by
        rw [Dormant, is]
        exact ⟨auto, by simp [supply, was]⟩
      refine ⟨?_, ?_, fair dormant⟩
      · rw [object_setObject_self]
        exact auto
      · simp [supply]
  · -- the event was signaled, so nobody is waiting for it alone
    rcases wakeUp_drains wellFormed' obj (if event.manualReset then 0 else 1) with ⟨after, drains⟩
    refine replaces.signals_of_weaker calm (fun t _ => ?_) drains after
      (wakeUp_touched wellFormed' obj _)
    rw [is]
    exact was

theorem releaseSemaphoreObject_signals {count : BitVec 32}
    (fair : Dormant server obj → count ≠ 0 → Punctual server obj ∧
      ∀ entry ∈ server.queue obj, ¬ exempt entry.thread)
    (released : releaseSemaphoreObject server obj count = .ok later) :
    Signals obj exempt server later := by
  rw [releaseSemaphoreObject] at released
  split at released
  swap
  · cases released
  next sem is =>
  have replaces : ∀ sem', Replaces obj server (server.setObject obj (.semaphore sem')) :=
    fun sem' => replaces_setObject trivial
  rw [releaseSemaphore] at released
  split_ifs at released with exceeded positive
  · cases released
    apply (replaces _).signals_of_weaker_object wellFormed calm
    intro t _
    rw [is]
    exact (semaphoreSignaled_iff sem).mpr (by bv_omega)
  · cases released
    apply (replaces _).signals wellFormed calm
    intro some
    rw [object_setObject_self]
    refine ⟨trivial, ?_, fair ?_ ?_⟩
    · simp only [supply, BitVec.toInt] at some ⊢
      split_ifs at some ⊢ <;> omega
    · rw [Dormant, is]
      rw [not_not] at positive
      exact ⟨trivial, by simp [supply, positive]⟩
    · rintro rfl
      exact lt_irrefl 0 some

theorem doRelease_signals {mutex : Mutex}
    (room : (Object.mutex mutex).Room (server.queue obj).length) :
    Signals obj exempt server (doRelease server obj mutex) := by
  unfold doRelease
  refine Replaces.signals ⟨?_, fun o other => ?_, ?_⟩ wellFormed calm
    fun positive => (lt_irrefl 0 positive).elim
  · split
    · exact (keeps_mutexList server _ (·.erase obj)).trans (keeps_setObject ..)
    · exact keeps_setObject ..
  · rw [object_setObject_of_ne _ other]
    split <;> rfl
  · rw [object_setObject_self]
    exact room

theorem releaseMutex_signals (released : releaseMutex server t obj = .ok later) :
    Signals obj exempt server later := by
  rw [releaseMutex] at released
  split at released
  swap
  · cases released
  next mutex is =>
  have room := wellFormed.room obj
  rw [is] at room
  by_cases notOwned : mutex.count = 0 ∨ mutex.owner ≠ some t
  · rw [if_pos notOwned] at released
    cases released
  have room' : (Object.mutex { mutex with count := mutex.count - 1 }).Room
      (server.queue obj).length := by
    simp only [Object.Room] at room ⊢
    bv_omega
  dsimp only at released
  split_ifs at released with last
  · cases released
    exact doRelease_signals wellFormed calm room'
  · cases released
    have replaces : Replaces obj server (server.setObject obj
        (.mutex { mutex with count := mutex.count - 1 })) :=
      replaces_setObject room'
    apply replaces.signals_of_weaker_object wellFormed calm
    intro u sig
    rw [object_setObject_self] at sig
    rw [is]
    simp only [Object.signaled, Bool.or_eq_true, decide_eq_true_eq] at sig ⊢
    exact .inr (sig.resolve_left last)

end

end Operations

end WineRedRose.Waits
