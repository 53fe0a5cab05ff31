import WineRedRose.Asyncs.Model

/-!
# Live asyncs have a file descriptor

An async that is not terminated has a file descriptor in every run, exactly
as long as nobody reports `STATUS_PENDING` for an alerted async that has lost
its descriptor: that report restarts it.
-/

namespace WineRedRose.Asyncs

open Library.Runs Function Async Server Option

/-! ## One async -/

/--
The async, if it is not terminated, has a descriptor; it is terminated for
good once its queue was freed; and no `NULL` pointer was followed for it.
-/
structure Async.Safe (async : Async) : Prop where
  live : async.terminated = false → async.fd.isSome
  freed : async.queueFreed = true → async.terminated = true
  sound : async.fault = false

/-- What holds of an async in a run without late restarts. -/
structure Async.Ok (async : Async) : Prop extends Async.Safe async where
  calm : async.terminated = false → async.alerted = false
  lost : async.queueFreed = true → async.fd = none
  answered : async.alerted = true → ∀ iosb ∈ async.iosb, iosb.status ≠ statusPending

/-- A result of `STATUS_PENDING` for the async would restart it. -/
def Async.Restarts (async : Async) (status : Status) : Prop :=
  async.terminated = true ∧ async.alerted = true ∧ status = statusPending

variable {async : Async} {status : Status} {server : Server} {id : Nat} {change : Async → Async}

/-- A terminated async that answered its alert is fine. -/
theorem Async.Ok.of_terminated (terminated : async.terminated = true) (sound : async.fault = false)
    (lost : async.queueFreed = true → async.fd = none)
    (answered : async.alerted = true → ∀ iosb ∈ async.iosb, iosb.status ≠ statusPending) :
    async.Ok where
  live alive := absurd (terminated.symm.trans alive) (by decide)
  freed _ := terminated
  sound := sound
  calm alive := absurd (terminated.symm.trans alive) (by decide)
  lost := lost
  answered := answered

theorem Async.Ok.learnStatus (ok : async.Ok) (status : Status) : (async.learnStatus status).Ok := by
  unfold Async.learnStatus
  split
  · exact { ok with }
  · exact ok

@[simp]
theorem Async.fd_learnStatus (async : Async) : (async.learnStatus status).fd = async.fd := by
  unfold learnStatus
  split <;> rfl

@[simp]
theorem Async.alerted_learnStatus (async : Async) :
    (async.learnStatus status).alerted = async.alerted := by
  unfold learnStatus
  split <;> rfl

/-- An async that still has its descriptor can wait again. -/
theorem Async.Ok.restart (ok : async.Ok) (descriptor : async.fd.isSome) :
    async.restart.Ok := by
  have notFreed : ¬ async.queueFreed = true := by
    intro freed
    rw [ok.lost freed] at descriptor
    contradiction
  exact ⟨⟨fun _ => descriptor, fun freed => absurd freed notFreed, ok.sound⟩, fun _ => rfl,
    ok.lost, nofun⟩

theorem Async.Ok.finish (ok : async.Ok) (answers : async.alerted = true → status ≠ statusPending) :
    (async.finish status).Ok := by
  refine .of_terminated rfl ok.sound ?_ ?_
  · intro freed
    show (if async.queue.isSome then none else async.fd) = none
    rw [ok.lost freed, ite_self]
  · intro alerted iosb member
    rcases mem_map.mp member with ⟨before, _, rfl⟩
    exact answers alerted

/-- A result restarts an async or ends it. -/
theorem Async.Ok.setResult (ok : async.Ok) (keeps : async.Restarts status → async.fd.isSome) :
    (async.setResult status).Ok := by
  unfold Async.setResult
  split
  · exact ok
  · rename_i woken
    have terminated : async.terminated = true := by simpa using woken
    split
    · rename_i restarts
      refine (ok.learnStatus status).restart ?_
      rw [Async.fd_learnStatus]
      exact keeps ⟨terminated, restarts⟩
    · rename_i ends
      refine (ok.learnStatus status).finish ?_
      rw [Async.alerted_learnStatus]
      exact fun alerted pending => ends ⟨alerted, pending⟩

/-- Terminating asks for the descriptor only to report an error. -/
theorem Async.ok_markTerminated (sound : async.fault = false)
    (lost : async.queueFreed = true → async.fd = none) (calm : async.alerted = false)
    (descriptor : ntError status = true → async.fd.isSome) :
    (async.markTerminated status).Ok := by
  refine .of_terminated rfl ?_ lost ?_
  · show (async.fault || async.asksNull status) = false
    rw [sound, Bool.false_or, asksNull]
    cases failed : ntError status with
    | false => simp
    | true => simp [descriptor failed]
  · intro alerted iosb member
    have isAlert : status = statusAlerted := by simpa [markTerminated, calm] using alerted
    rcases mem_map.mp member with ⟨before, _, rfl⟩
    split
    · rw [isAlert]
      exact (by decide : statusAlerted ≠ statusPending)
    · assumption

/-- The result of a dropped APC does not restart the async. -/
theorem Async.not_restarts_callStatus (calm : async.alerted = false) :
    ¬ (async.markTerminated status).Restarts ((async.markTerminated status).callStatus status) := by
  rintro ⟨_, alerted, pending⟩
  have isAlert : status = statusAlerted := by simpa [markTerminated, calm] using alerted
  unfold callStatus at pending
  split at pending
  · exact absurd pending (by decide)
  · rw [isAlert] at pending
    exact absurd pending (by decide)

theorem Async.ok_terminate (sound : async.fault = false)
    (lost : async.queueFreed = true → async.fd = none) (calm : async.alerted = false)
    (descriptor : ntError status = true → async.fd.isSome) (alive : async.terminated = false)
    (apcQueued : Bool) :
    (async.terminate apcQueued status).Ok := by
  have marked := ok_markTerminated sound lost calm descriptor
  rw [terminate, if_neg (by simp [alive])]
  split
  · exact marked
  · refine marked.setResult fun restarts => ?_
    exact absurd restarts (not_restarts_callStatus calm)

theorem Async.Ok.terminate (ok : async.Ok) (apcQueued : Bool) (status : Status) :
    (async.terminate apcQueued status).Ok := by
  cases alive : async.terminated with
  | true =>
    rw [Async.terminate, if_pos alive]
    exact ok
  | false =>
    exact Async.ok_terminate ok.sound ok.lost (ok.calm alive)
      (fun _ => ok.live alive) alive apcQueued

theorem Async.Ok.requestComplete (ok : async.Ok) (apcQueued : Bool) (status : Status)
    (outData : Bool) :
    (async.requestComplete apcQueued status outData).Ok := by
  unfold Async.requestComplete
  split
  · exact ok
  · rename_i iosb same
    split
    · exact ok
    · rename_i waits
      refine Async.Ok.terminate ?_ apcQueued status
      exact { ok with answered := fun alerted => absurd (ok.answered alerted iosb same) waits }

theorem Async.Ok.returnStatus (ok : async.Ok) : async.returnStatus.Ok := by
  unfold Async.returnStatus
  simp only
  split
  · exact { ok with }
  · exact { ok with }

theorem Async.Ok.handoff (ok : async.Ok) (apcQueued : Bool) (error : Status)
    (forceBlocking : Bool) :
    (async.handoff apcQueued error forceBlocking).Ok := by
  unfold Async.handoff
  split
  · exact ok
  · simp only
    split_ifs with unknown alert failed complete
    · exact { ok with }
    · refine Async.Ok.terminate ?_ apcQueued _
      exact { ok with }
    · refine { ok with answered := ?_ }
      rintro _ _ ⟨⟩ rfl
      simp [ntError, statusPending] at failed
    · refine (Async.Ok.terminate ?_ apcQueued _).returnStatus
      exact { ok with }
    · refine Async.Ok.returnStatus ?_
      exact { ok with }

theorem Async.setResult_of_lost (terminated : async.terminated = true)
    (ends : ¬ async.Restarts status) (lost : async.fd = none) :
    (async.setResult status).terminated = true ∧ (async.setResult status).fd = none := by
  rw [setResult, if_neg (by simp [terminated]), if_neg fun restarts => ends ⟨terminated, restarts⟩]
  refine ⟨rfl, ?_⟩
  show (if _ then none else (async.learnStatus status).fd) = none
  rw [fd_learnStatus, lost, ite_self]

theorem Async.terminate_of_lost (calm : async.terminated = false → async.alerted = false)
    (lost : async.fd = none) (apcQueued : Bool) (status : Status) :
    (async.terminate apcQueued status).terminated = true ∧
      (async.terminate apcQueued status).fd = none := by
  unfold terminate
  split
  · next terminated => exact ⟨terminated, lost⟩
  · next alive =>
    split
    · exact ⟨rfl, lost⟩
    · exact setResult_of_lost rfl (not_restarts_callStatus (calm (by simpa using alive))) lost

/-- A freed async has no descriptor and does not need one. -/
theorem Async.Ok.free (ok : async.Ok) (apcQueued : Bool) : (async.free apcQueued).Ok := by
  let bare : Async :=
    { async with
      completion := async.completion || async.fd.any Fd.completion
      fd := none }
  rcases bare.terminate_of_lost ok.calm rfl apcQueued statusHandlesClosed with ⟨terminated, lost⟩
  have terminates : (bare.terminate apcQueued statusHandlesClosed).Ok := by
    cases alive : bare.terminated with
    | true =>
      rw [Async.terminate, if_pos alive]
      exact .of_terminated alive ok.sound (fun _ => rfl) ok.answered
    | false =>
      -- closed handles are a warning, so the descriptor is not asked for
      exact @Async.ok_terminate bare statusHandlesClosed ok.sound (fun _ => rfl) (ok.calm alive)
        (fun failed => absurd failed (by decide)) alive apcQueued
  exact .of_terminated terminated terminates.sound (fun _ => lost) terminates.answered

theorem Async.Ok.enqueue (ok : async.Ok) (queue : Nat) : (async.enqueue queue).Ok := by
  unfold Async.enqueue
  split
  · exact { ok with }
  · exact ok

/-- The client reports a direct result that restarts the async. -/
def Async.RestartsDirectly (async : Async) (status : Status) : Prop :=
  async.unknownStatus = true ∧ async.Restarts status

theorem Async.Ok.setDirectResult (ok : async.Ok)
    (keeps : async.RestartsDirectly status → async.fd.isSome) (markPending : Bool) :
    (async.setDirectResult status markPending).Ok := by
  unfold Async.setDirectResult
  split
  · exact ok
  · rename_i allowed
    have unknown : async.unknownStatus = true := by
      simp only [Bool.or_eq_true, Bool.not_eq_true', not_or, Bool.not_eq_false] at allowed
      exact allowed.1.1
    split_ifs
    all_goals
      refine Async.Ok.setResult ?_ fun restarts => keeps ⟨unknown, restarts⟩
    · exact { ok with }
    · exact { ok with }
    · exact ok

/-- A wait that is satisfied reports a status other than `STATUS_PENDING`. -/
theorem Async.Ok.satisfied (ok : async.Ok) : async.satisfied.Ok := by
  unfold Async.satisfied
  split
  · exact ok
  · rename_i iosb same
    split
    · have result : (async.setResult iosb.status).Ok := by
        refine ok.setResult fun restarts => ?_
        exact absurd restarts.2.2 (ok.answered restarts.2.1 iosb same)
      exact { result with }
    · exact ok

theorem Async.ok_createAsync (data : AsyncData) (request isSystem : Bool) :
    (createAsync data request isSystem).Ok where
  live _ := rfl
  freed := nofun
  sound := rfl
  calm _ := rfl
  lost := nofun
  answered := nofun

/-! ## The server -/

def Server.Ok (server : Server) : Prop := ∀ id, ∀ async ∈ server.asyncs id, async.Ok

theorem Server.Ok.replace {slot : Option Async} (ok : server.Ok) (fine : ∀ async ∈ slot, async.Ok) :
    ∀ id', ∀ async ∈ Function.update server.asyncs id slot id', async.Ok :=
  (forall_update_iff _ fun _ (slot : Option Async) => ∀ async ∈ slot, async.Ok).mpr
    ⟨fine, fun id' _ => ok id'⟩

theorem Server.Ok.onAsync (ok : server.Ok)
    (keeps : ∀ async ∈ server.asyncs id, async.Ok → (change async).Ok) :
    (server.onAsync id change).Ok := by
  refine ok.replace fun async member => ?_
  rcases mem_map.mp member with ⟨before, among, rfl⟩
  exact keeps before among (ok id before among)

variable {reselects : Async → Bool} {action : Env × Step}

section

variable (ok : server.Ok) (env : Env)
include ok env

theorem Server.Ok.reselect (id : Nat) : (server.reselect env id).Ok := by
  unfold Server.reselect
  induction env.reselected id generalizing server with
  | nil => exact ok
  | cons completion completions ih =>
    exact ih (ok.onAsync fun _ _ fine => fine.requestComplete _ _ _)

theorem Server.Ok.changeAsync (keeps : ∀ async ∈ server.asyncs id, async.Ok → (change async).Ok) :
    (server.changeAsync env id change reselects).Ok := by
  unfold Server.changeAsync
  split
  · exact (ok.onAsync keeps).reselect env id
  · exact ok.onAsync keeps

theorem Server.Ok.asyncTerminate (id : Nat) (status : Status) :
    (server.asyncTerminate env id status).Ok :=
  ok.changeAsync env fun _ _ fine => fine.terminate _ _

theorem Server.Ok.asyncWakeUp (queue : Nat) (status : Status) :
    (server.asyncWakeUp env queue status).Ok := by
  unfold Server.asyncWakeUp
  simp only
  generalize (if status = statusAlerted then _ else _) = woken
  induction woken generalizing server with
  | nil => exact ok
  | cons id woken ih => exact ih (ok.asyncTerminate env id status)

end

/-! ## The cancel functions -/

/-- The check gives an answer, and selects only asyncs that are alive. -/
def Answers (check : Async → Option Bool) : Prop := ∀ async : Async, async.Ok →
    check async = some false ∨ (check async = some true ∧ async.terminated = false)

theorem Server.Ok.cancelWhere {check : Async → Option Bool} (answers : Answers check) (env : Env)
    (fuel : Nat) (ok : server.Ok) :
    (server.cancelWhere env check fuel).Ok := by
  induction fuel generalizing server with
  | zero => exact ok
  | succ fuel ih =>
    unfold cancelWhere
    split
    · exact ok
    · rename_i id found
      have among := List.find?_some found
      rw [any_eq_true] at among
      rcases among with ⟨async, same, selected⟩
      have fine := ok id async same
      rcases (answers async fine).resolve_left (by simpa using selected) with ⟨yes, alive⟩
      have marked : (server.onAsync id fun async =>
          { async with canceled := true }).Ok :=
        ok.onAsync fun _ _ other => { other with }
      rw [if_pos (by simp [same, yes, fine.live alive])]
      refine ih ?_
      split
      · exact marked.asyncTerminate env _ _
      · exact marked

theorem Async.Ok.hasUser (ok : async.Ok) (alive : async.terminated = false) (obj : Nat) :
    ∃ user, async.hasUser obj = some user := by
  rcases isSome_iff_exists.mp (ok.live alive) with ⟨fd, same⟩
  exact ⟨_, by rw [Async.hasUser, same]; rfl⟩

/-- Any answer about an async that is alive will do. -/
theorem answer_of_alive (alive : async.terminated = false) (answer : Bool) :
    some answer = some false ∨ (some answer = some true ∧ async.terminated = false) := by
  cases answer with
  | false => exact .inl rfl
  | true => exact .inr ⟨rfl, alive⟩

variable {process : Nat}

theorem answers_checkCancel (obj thread iosb : Option Nat) :
    Answers (Async.checkCancel process obj thread iosb) := by
  intro async ok
  unfold checkCancel
  split
  · exact .inl rfl
  · rename_i among
    have alive : async.terminated = false := by
      simp only [Bool.or_eq_true, not_or, Bool.not_eq_true] at among
      exact among.1.1.2
    cases obj with
    | none => exact answer_of_alive alive _
    | some obj =>
      rcases ok.hasUser alive obj with ⟨user, same⟩
      rw [elim_some, same]
      exact answer_of_alive alive _

theorem answers_checkCancelBlocking (thread : Nat) (iosb : Option Nat) :
    Answers (Async.checkCancelBlocking process thread iosb) := by
  intro async _
  unfold checkCancelBlocking
  split
  · exact .inl rfl
  · rename_i among
    refine answer_of_alive ?_ _
    simp only [Bool.or_eq_true, not_or, Bool.not_eq_true] at among
    exact among.1.2

theorem answers_checkCancelProcess : Answers (Async.checkCancelProcess process) := by
  intro async _
  unfold checkCancelProcess
  by_cases alive : async.terminated = false
  · exact answer_of_alive alive _
  · simp [alive]

theorem answers_checkCloseHandle (obj : Nat) : Answers (Async.checkCloseHandle process obj) := by
  intro async ok
  unfold checkCloseHandle
  split
  · exact .inl rfl
  · rename_i among
    have alive : async.terminated = false := by
      simp only [Bool.or_eq_true, not_or, Bool.not_eq_true] at among
      exact among.1.2
    rcases ok.hasUser alive obj with ⟨user, same⟩
    rw [same]
    exact answer_of_alive alive _

theorem answers_checkTerminatingThread (thread : Nat) :
    Answers (Async.checkTerminatingThread thread) := by
  intro async _
  unfold checkTerminatingThread
  by_cases alive : async.terminated = false
  · exact answer_of_alive alive _
  · simp [alive]

/-! ## Runs -/

/-- Every async is safe. -/
def Server.Safe (server : Server) : Prop := ∀ id, ∀ async ∈ server.asyncs id, async.Safe

/--
No result of `STATUS_PENDING` is accepted for an alerted async that has lost
its file descriptor; other steps are free.
-/
def Server.NoLateRestart (server : Server) : Env × Step → Prop
  | (_, .apcResult id status) => ∀ async ∈ server.asyncs id, async.Restarts status → async.fd.isSome
  | (_, .setAsyncDirectResult id status _) =>
    ∀ async ∈ server.asyncs id, async.RestartsDirectly status → async.fd.isSome
  | _ => True

theorem Server.Ok.safe (ok : server.Ok) : server.Safe :=
  fun id async member => (ok id async member).toSafe

/-- One step keeps the asyncs in order, unless it is a late restart. -/
theorem Server.Ok.step (ok : server.Ok) (timely : server.NoLateRestart action) :
    (server.step action).Ok := by
  rcases action with ⟨env, step⟩
  cases step with
  | createAsync data request isSystem =>
    refine ok.replace fun async member => ?_
    rw [← some.inj member]
    exact ok_createAsync data request isSystem
  | queueAsync id queue => exact ok.onAsync fun _ _ fine => fine.enqueue queue
  | asyncHandoff id error forceBlocking =>
    exact ok.changeAsync env fun _ _ fine => fine.handoff _ _ _
  | asyncTerminate id status => exact ok.asyncTerminate env id status
  | asyncRequestComplete id status outData =>
    exact ok.changeAsync env fun _ _ fine => fine.requestComplete _ _ _
  | asyncWakeUp queue status => exact ok.asyncWakeUp env queue status
  | asyncSetUnknownStatus id => exact ok.onAsync fun _ _ fine => { fine with }
  | asyncSetTimeout id timeout => exact ok.onAsync fun _ _ fine => { fine with }
  | asyncTimeout id =>
    refine ok.changeAsync env fun async _ fine => ?_
    split
    · exact fine
    · refine Async.Ok.terminate ?_ _ _
      exact { fine with }
  | apcResult id status =>
    exact ok.changeAsync env fun async member fine => fine.setResult (timely async member)
  | setAsyncDirectResult id status markPending =>
    exact ok.changeAsync env fun async member fine =>
      fine.setDirectResult (timely async member) markPending
  | asyncSatisfied id => exact ok.changeAsync env fun _ _ fine => fine.satisfied
  | cancelAsync process obj thread iosb => exact .cancelWhere (answers_checkCancel _ _ _) env _ ok
  | cancelBlocking process thread iosb =>
    exact .cancelWhere (answers_checkCancelBlocking _ _) env _ ok
  | cancelProcessAsyncs process => exact .cancelWhere answers_checkCancelProcess env _ ok
  | asyncCloseObjHandle process obj => exact .cancelWhere (answers_checkCloseHandle _) env _ ok
  | cancelTerminatingThreadAsyncs thread =>
    exact .cancelWhere (answers_checkTerminatingThread thread) env _ ok
  | freeAsyncQueue queue =>
    intro id async member
    rcases mem_map.mp member with ⟨before, among, rfl⟩
    split
    · exact (ok id before among).free _
    · exact ok id before among
  | asyncDestroy id =>
    have fewer : Server.Ok { server with
        asyncs := update server.asyncs id none } :=
  ok.replace fun _ member => absurd member (not_mem_none _)
    simp only [Server.step]
    split
    · exact fewer.reselect env id
    · exact fewer

/-! ## Late restarts -/

/-- A restart without a descriptor reselects nothing and is not safe. -/
theorem isSome_fd_of_restart {env : Env} (member : async ∈ server.asyncs id)
    (restarted : (change async).terminated = false ∧ (change async).fd = async.fd)
    (safe : (server.changeAsync env id change reselects).Safe) : async.fd.isSome := by
  have same : server.asyncs id = some async := member
  by_contra missing
  have lost : async.fd = none := by simpa using missing
  rw [changeAsync, if_neg (by simp [same, lost])] at safe
  have live := (safe id (change async) (by simp [onAsync, same])).live restarted.1
  rw [restarted.2, lost] at live
  contradiction

theorem Async.setResult_of_restarts (restarts : async.Restarts status) :
    (async.setResult status).terminated = false ∧ (async.setResult status).fd = async.fd := by
  rw [setResult, if_neg (by simp [restarts.1]), if_pos restarts.2]
  exact ⟨rfl, async.fd_learnStatus⟩

theorem Async.setDirectResult_of_restarts (restarts : async.RestartsDirectly status)
    (markPending : Bool) : (async.setDirectResult status markPending).terminated = false ∧
      (async.setDirectResult status markPending).fd = async.fd := by
  rcases restarts with ⟨unknown, terminated, alerted, pending⟩
  rw [setDirectResult, if_neg (by simp [unknown, terminated, alerted])]
  simp only [if_pos pending]
  exact setResult_of_restarts ⟨terminated, alerted, pending⟩

/-- A late restart leaves a live async without a descriptor. -/
theorem Server.noLateRestart_of_safe (safe : (server.step action).Safe) :
    server.NoLateRestart action := by
  rcases action with ⟨env, step⟩
  cases step with
  | apcResult id status =>
    exact fun _ member restarts => isSome_fd_of_restart member (setResult_of_restarts restarts) safe
  | setAsyncDirectResult id status markPending =>
    intro async member restarts
    exact isSome_fd_of_restart member (setDirectResult_of_restarts restarts markPending) safe
  | _ => trivial

/--
In every run of the server all asyncs are safe exactly as long as there is no
late restart.
-/
theorem asyncs_safe_iff_noLateRestart (actions : List (Env × Step)) :
    Visits Server.step Server.Safe Server.initial actions ↔
      Along Server.step Server.NoLateRestart Server.initial actions :=
  @visits_iff_along _ _ Server.step Server.Ok Server.Safe
    Server.NoLateRestart _ (fun _ => Server.Ok.safe)
    (fun _ _ ok timely => ok.step timely)
    (fun _ _ _ safe => noLateRestart_of_safe safe)
    (fun _ _ member => absurd member (not_mem_none _)) actions

/-- A socket whose reads are overlapped. -/
def aSocket : AsyncData where
  process := 0
  thread := 0
  fd := ⟨0, true, false⟩
  event := false
  iosb := 0
  apcContext := false

/-- APCs are queued, reselecting completes nothing. -/
def quietEnv : Env where
  apcQueued _ := true
  reselected _ := []
  cancels _ := true

/--
A receive is alerted for the client to try it, the socket is closed, and then
the client reports that the receive would block: the async waits again, with
no descriptor.
-/
theorem alerted_receive_restarts_without_fd : ¬ Visits Server.step Server.Safe Server.initial
      ([.createAsync aSocket true false, .queueAsync 0 7,
        .asyncHandoff 0 statusAlerted false, .freeAsyncQueue 7,
        .setAsyncDirectResult 0 statusPending false].map fun step => (quietEnv, step)) := by
  intro visits
  have timely := noLateRestart_of_safe visits.2.2.2.2.2
  have descriptor := timely _ rfl ⟨rfl, rfl, rfl, rfl⟩
  exact absurd descriptor (by decide)

end WineRedRose.Asyncs
