import WineRedRose.Completions.Moves

/-!
# Completion ports deliver in order

In every run in which threads fetch their packets, packets leave a port in
the order they were added, each goes to one thread and is returned by it, and
no thread sleeps next to a packet, exactly as long as no port holds 2^32
packets: then its depth starts again at zero.
-/

namespace WineRedRose.Completions

open Library.Runs List Server Thread Port Option

/-! ## Requests -/

/-- The thread runs, and its wait object is ready for the port. -/
structure Server.Ready (server : Server) (thread port : Nat) : Prop where
  inv : server.Inv
  waits : (server.threads thread).waitsOn port
  runs : (server.threads thread).blocked = false
  nothing : (server.threads thread).held = []

/-- The wait object that `remove_completion` uses. -/
def Server.prepareWait (server : Server) (thread port : Nat) : Server :=
  let server :=
    match (server.threads thread).wait with
    | none => server
    | some wait =>
      if wait.completion ≠ some port then server.cleanupThreadCompletion thread
      else server
  if (server.threads thread).wait.isNone then server.createCompletionWait port thread
  else server

variable {server : Server} {thread port : Nat} {handed : List Packet}

/-- A thread that runs gets a wait object for the port. -/
theorem Server.Inv.ready_create (inv : server.Inv) (alive : (server.threads thread).ended = false)
    (runs : (server.threads thread).blocked = false) (none : (server.threads thread).wait = none)
    (used : (server.ports port).handles ≠ 0) :
    (server.createCompletionWait port thread).Ready thread port where
  inv := inv.createCompletionWait alive runs none used
  waits := by simp [Server.createCompletionWait, Server.onThread, Server.onPort, waitsOn]
  runs := by simpa [Server.createCompletionWait, Server.onThread, Server.onPort]
  nothing := by simp [Server.createCompletionWait, Server.onThread, Server.onPort, held]

/-- After the cleanup the thread has no wait object, and nothing else changed. -/
theorem cleanup_frame {wait : Wait} (same : (server.threads thread).wait = some wait) :
    (server.cleanupThreadCompletion thread).threads thread =
        { server.threads thread with wait := none } ∧
      ((server.cleanupThreadCompletion thread).ports port).handles =
        (server.ports port).handles := by
  rw [cleanupThreadCompletion, same]
  cases completion : wait.completion with
  | none => simp [completion, onThread]
  | some other =>
    refine ⟨by simp [completion, onThread, onPort], ?_⟩
    by_cases equal : port = other
    · subst equal
      simp [completion, onThread, onPort]
    · simp [completion, onThread, onPort, equal]

section

variable (inv : server.Inv) (runs : server.runs thread = true)
  (nothing : (server.threads thread).held = []) (used : (server.ports port).handles ≠ 0)
include inv runs nothing used

theorem Server.Inv.ready_prepareWait : (server.prepareWait thread port).Ready thread port := by
  rw [Server.runs, Bool.and_eq_true, Bool.not_eq_true', Bool.not_eq_true'] at runs
  rcases runs with ⟨runs, alive⟩
  unfold Server.prepareWait
  cases same : (server.threads thread).wait with
  | none =>
    simp only [same, isNone_none, if_true]
    exact inv.ready_create alive runs same used
  | some wait =>
    by_cases here : wait.completion = some port
    · simp only [here, ne_eq, not_true_eq_false, if_false, same, isNone_some, Bool.false_eq_true]
      exact ⟨inv, (waitsOn_iff same).mpr here, runs, nothing⟩
    · rcases cleanup_frame same with ⟨thread', handles⟩
      have cleaned := inv.cleanupThreadCompletion runs nothing
      simp only [ne_eq, here, not_false_eq_true, if_true, thread', isNone_none]
      refine cleaned.ready_create ?_ ?_ ?_ (handles ▸ used)
      all_goals rw [thread']
      · exact alive
      · exact runs

theorem Server.Inv.removeCompletion (alertable : Bool) :
    (server.removeCompletion thread port alertable).Inv := by
  unfold Server.removeCompletion
  extract_lets entry cleaned alerted prepared moved
  have ready : prepared.Ready thread port := inv.ready_prepareWait runs nothing used
  split
  · exact ready.inv.moveToHead ready.waits
  · rename_i packet rest queued
    split
    · exact ready.inv.moveToHead ready.waits
    · exact ready.inv.returnPacket ready.waits ready.runs ready.nothing queued

end

/-- A thread that fetched the packet from its wait object. -/
def Thread.fetch (thread : Thread) (wait : Wait) (packet : Packet) : Thread :=
  { thread with
    wait := some { wait with msg := none }
    returned := thread.returned ++ [packet] }

theorem Thread.Ok.fetch {thread : Thread} (ok : thread.Ok handed) {wait : Wait}
    (same : thread.wait = some wait) {packet : Packet} (holds : wait.msg = some packet) :
    (thread.fetch wait packet).Ok handed := by
  have held : thread.held = [packet] := by simp [Thread.held, same, holds]
  have alive : thread.ended = false := by
    by_contra ended
    rw [Bool.not_eq_false] at ended
    rw [(ok.gone ended).1] at same
    contradiction
  have runs : thread.blocked = false := by
    by_contra blocked
    rw [Bool.not_eq_false] at blocked
    rw [(ok.blocks blocked).2] at held
    contradiction
  refine .of_running alive runs ?_
  rw [ok.returned alive, held]
  simp [Thread.held, Thread.fetch]

theorem Server.Inv.getThreadCompletion (inv : server.Inv)
    (runs : (server.threads thread).blocked = false) : (server.getThreadCompletion thread).Inv := by
  unfold Server.getThreadCompletion
  split
  · exact inv
  · rename_i wait same
    split
    · exact inv
    · rename_i packet holds
      have fetched : (server.onThread thread (Thread.fetch · wait packet)).Inv := by
        refine inv.onThread ((inv.threads thread).fetch same holds) (fun port => ?_)
          (fun blocked => absurd (runs.symm.trans blocked) Bool.false_ne_true)
        rw [waitsOn_iff same]
        exact Iff.rfl
      split
      · refine fetched.cleanupThreadCompletion ?_ ?_
        · simpa [Server.onThread, fetch] using runs
        · simp [Server.onThread, held, fetch]
      · exact fetched

/-- A thread that waits on its wait object. -/
theorem Thread.Ok.block {thread : Thread} (ok : thread.Ok handed) (waits : thread.waitsOn port)
    (nothing : thread.held = []) (alertable : Bool) :
    Thread.Ok { thread with blocked := true, alertable := alertable } handed where
  returned := ok.returned
  lost := ok.lost
  gone ended := absurd ((ok.alive_of_waitsOn waits).symm.trans ended) Bool.false_ne_true
  blocks _ := ⟨⟨port, waits⟩, nothing⟩

section

variable (inv : server.Inv)
include inv

theorem Server.Inv.select (runs : (server.threads thread).blocked = false)
    (nothing : (server.threads thread).held = []) (alertable : Bool) :
    (server.select thread alertable).Inv := by
  unfold Server.select
  cases same : (server.threads thread).wait with
  | none => exact inv
  | some wait =>
    rcases wait with ⟨_ | port, msg⟩
    · exact inv
    · have waits : (server.threads thread).waitsOn port := by rw [waitsOn_iff same]
      have signaled : server.completionWaitSignaled ⟨some port, msg⟩ = true ↔
          (server.ports port).queue ≠ [] :=
        depth_ne_zero_iff (inv.ports port)
      simp only
      cases queued : (server.ports port).queue with
      | cons packet rest =>
        have satisfied : server.completionWaitSatisfied thread ⟨some port, msg⟩ =
            server.deliver port thread packet rest := by
          simp [Server.completionWaitSatisfied, queued, Server.onThread,
            Server.takePacket, Server.onPort, Server.deliver,
            Server.change, Port.take, satisfied, runs]
        rw [queued] at signaled
        rw [if_pos (signaled.mpr (cons_ne_nil packet rest)), satisfied]
        exact inv.deliver waits nothing queued
      | nil =>
        rw [queued] at signaled
        rw [if_neg fun loud => signaled.mp loud rfl]
        split
        · exact inv
        · refine inv.onThread ((inv.threads thread).block waits nothing alertable)
            (fun _ => Iff.rfl) fun _ other elsewhere => ?_
          have here : other = port := some.inj (elsewhere.symm.trans waits)
          rw [here, queued]

/-- A thread that ended. -/
def Thread.end (thread : Thread) : Thread :=
  { thread with wait := none, blocked := false, ended := true }

omit inv in
/-- It loses at most the packet it held. -/
theorem Thread.Ok.end {thread : Thread} (ok : thread.Ok handed) : thread.end.Ok handed where
  returned alive := absurd alive.symm Bool.false_ne_true
  lost _ := by
    cases ended : thread.ended with
    | true => exact ok.lost ended
    | false =>
      refine ⟨thread.held, ?_, ok.returned ended⟩
      rw [held]
      cases thread.wait.bind Wait.msg with
      | none => exact Nat.zero_le 1
      | some packet => exact Nat.le_refl 1
  gone _ := ⟨rfl, rfl⟩
  blocks := nofun

theorem Server.Inv.endThread : (server.step (.endThread thread)).Inv := by
  have ok := (inv.threads thread).end
  have leaves (nowhere : ∀ port, ¬ (server.threads thread).waitsOn port) :
      (server.onThread thread Thread.end).Inv :=
    inv.onThread ok (fun port => iff_of_false nofun (nowhere port)) nofun
  simp only [Server.step, Server.cleanupThreadCompletion]
  cases same : (server.threads thread).wait with
  | none =>
    have ends := leaves fun port => by simp [Thread.waitsOn, same]
    simpa [Server.onThread, Thread.end, same] using ends
  | some wait =>
    cases completion : wait.completion with
    | none =>
      have ends := leaves fun port => by simp [Thread.waitsOn, same, completion]
      simpa [Server.onThread, Thread.end, completion] using ends
    | some port =>
      have waits : (server.threads thread).waitsOn port := by
        rw [Thread.waitsOn_iff same, completion]
      have ends := inv.leave waits ok (fun _ => nofun) rfl
      simpa [Server.onThread, Server.onPort, Server.change, Thread.end, completion] using ends

/-! ## Runs -/

/-- What is claimed of the ports and threads in a state. -/
structure Server.Orderly (server : Server) : Prop where
  /-- The depth of a port is the length of its queue. -/
  depth : ∀ port, (server.ports port).depth.toNat = (server.ports port).queue.length
  /-- Packets leave a port in the order they were added. -/
  inOrder : ∀ port, (server.ports port).lives = true → (server.ports port).added =
      server.handedFrom port ++ (server.ports port).queue
  /-- A port that was destroyed drops the packets that had not left it. -/
  dropped : ∀ port, server.handedFrom port <+: (server.ports port).added
  /-- A thread returns all packets it gets, or holds the last one. -/
  returned : ∀ thread, (server.threads thread).ended = false → server.handedTo thread =
      (server.threads thread).returned ++ (server.threads thread).held
  /-- A thread that ended drops at most the packet it held. -/
  ended : ∀ thread, (server.threads thread).ended = true → ∃ held : List Packet, held.length ≤ 1 ∧
      server.handedTo thread = (server.threads thread).returned ++ held
  /-- A wait object is in the queue of its port once, and nowhere else. -/
  queued : ∀ port thread, (server.ports port).waitQueue.count thread =
      if (server.threads thread).waitsOn port then 1 else 0
  /-- No thread is blocked on a port that has packets. -/
  awake : ∀ port thread, (server.threads thread).blocked = true →
    (server.threads thread).waitsOn port → (server.ports port).queue = []
  /-- No assertion failed. -/
  sound : server.fault = false

theorem Server.Inv.orderly : server.Orderly where
  depth port := (inv.ports port).depth
  inOrder port := (inv.ports port).inOrder
  dropped port := (inv.ports port).dropped
  returned thread := (inv.threads thread).returned
  ended thread := (inv.threads thread).lost
  queued := inv.queued
  awake := inv.awake
  sound := inv.sound

/--
A thread fetches the packet of a satisfied wait before it waits again or
removes another packet.
-/
def Server.Fetched (server : Server) : Request → Prop
  | .removeCompletion thread _ _ => (server.threads thread).held = []
  | .select thread _ => (server.threads thread).held = []
  | _ => True

/-- A port that gets a packet has fewer than 2^32 - 1 of them. -/
def Server.HasRoom (server : Server) : Request → Prop
  | .addCompletion port _ => (server.ports port).lives = true → (server.ports port).hasRoom
  | _ => True

omit inv in
theorem inv_initial : Server.initial.Inv where
  ports _ := ⟨rfl, fun _ => rfl, prefix_refl _, fun _ => rfl, fun _ => ⟨rfl, rfl, rfl⟩⟩
  threads _ := .of_running rfl rfl rfl
  queued _ _ := rfl
  sound := rfl
  awake _ _ := nofun

/-- A request that is refused changes nothing. -/
theorem Server.Inv.ite {allowed : Prop} [Decidable allowed] {server' : Server}
    (does : allowed → server'.Inv) : (if allowed then server' else server).Inv := by
  split
  · rename_i yes
    exact does yes
  · exact inv

theorem Server.Inv.closeHandle (port : Nat) : (server.step (.closeHandle port)).Inv := by
  rw [step, ← ite_not]
  refine inv.ite fun some => ?_
  rcases inv.completionCloseHandle port with ⟨closed, handles, waiters⟩
  refine closed.onPort ?_ (fun thread => ?_) fun empty => ?_
  · refine (closed.ports port).release ?_ fun last => ?_
    · simp [lives, handles, some]
    · exact waiters (by omega)
  · rw [waitQueue_release]
  · exact queue_release empty

theorem Server.Inv.createCompletion : (server.step (.createCompletion port)).Inv := by
  rw [step, ← ite_not]
  refine inv.ite fun new => ?_
  have before := inv.ports port
  rcases before.fresh (by simpa using new) with ⟨queue, added, _⟩
  have none : server.handedFrom port = [] := by
    rw [← prefix_nil, ← added]
    exact before.dropped
  refine inv.onPort ⟨before.depth, fun _ => ?_, before.dropped, nofun, nofun⟩ (fun _ => rfl) id
  rw [added, none, queue]
  rfl

/-- One request keeps the invariant. -/
theorem Server.Inv.step {request : Request} (fetched : server.Fetched request)
    (room : server.HasRoom request) :
    (server.step request).Inv := by
  cases request with
  | createCompletion port => exact inv.createCompletion
  | duplicateHandle port =>
    rw [Server.step, ← ite_not]
    refine inv.ite fun some => ?_
    have lives : (server.ports port).lives = true := by simp [lives, some]
    exact inv.onPort ((inv.ports port).refer lives (by simp)) (fun _ => rfl) id
  | closeHandle port => exact inv.closeHandle port
  | grabObject port =>
    have before := inv.ports port
    exact inv.ite fun lives => inv.onPort (before.refer lives before.unused) (fun _ => rfl) id
  | releaseObject port =>
    rw [Server.step, ← ite_not]
    refine inv.ite fun some => inv.onPort ?_ (fun _ => ?_) fun empty => ?_
    · refine (inv.ports port).release ?_ (inv.ports port).unused
      simp [lives, some]
    · rw [waitQueue_release]
    · exact queue_release empty
  | addCompletion port packet => exact inv.ite fun lives => inv.addCompletion lives (room lives)
  | removeCompletion thread port alertable =>
    refine inv.ite fun allowed => ?_
    rw [Bool.and_eq_true, bne_iff_ne] at allowed
    exact inv.removeCompletion allowed.1 fetched allowed.2 alertable
  | select thread alertable =>
    refine inv.ite fun runs => ?_
    exact inv.select (by simpa using (Bool.and_eq_true_iff.mp runs).1) fetched alertable
  | waitTimeout thread =>
    have before := inv.threads thread
    rw [Server.step]
    refine inv.onThread ?_ (fun _ => Iff.rfl) (by simp)
    exact ⟨before.returned, before.lost, fun ended => ⟨(before.gone ended).1, rfl⟩, by simp⟩
  | getThreadCompletion thread =>
    refine inv.ite fun runs => ?_
    exact inv.getThreadCompletion (by simpa using (Bool.and_eq_true_iff.mp runs).1)
  | queueApc thread =>
    have before := inv.threads thread
    have still (blocked : ((server.threads thread).blocked &&
        !(server.threads thread).alertable) = true) :
        (server.threads thread).blocked = true :=
      (Bool.and_eq_true_iff.mp blocked).1
    rw [Server.step]
    refine inv.onThread ?_ (fun _ => Iff.rfl) fun blocked port waits => ?_
    · refine ⟨before.returned, before.lost, fun ended => ?_,
        fun blocked => before.blocks (still blocked)⟩
      exact ⟨(before.gone ended).1, by simp [(before.gone ended).2]⟩
    · exact inv.awake port thread (still blocked) waits
  | dequeueApc thread =>
    rw [Server.step]
    exact inv.onThread { inv.threads thread with } (fun _ => Iff.rfl) fun blocked port waits =>
      inv.awake port thread blocked waits
  | endThread thread => exact inv.endThread

end

/-- Waking up threads that are not blocked does nothing. -/
theorem wakeWaiters_of_running {threads : List Nat}
    (running : ∀ thread ∈ threads, (server.threads thread).blocked = false) :
    server.wakeWaiters port threads = server := by
  induction threads with
  | nil => rfl
  | cons thread threads ih =>
    have quiet : server.wakeUp thread = server := by
      unfold wakeUp
      split
      · rfl
      · simp [running thread (mem_cons_self ..)]
    have later := ih fun other member => running other (mem_cons_of_mem _ member)
    rw [wakeWaiters, quiet, later, ite_self]

theorem step_addCompletion {packet : Packet} (lives : (server.ports port).lives = true)
    (running : ∀ thread ∈ (server.ports port).waitQueue, (server.threads thread).blocked = false) :
    server.step (.addCompletion port packet) = server.onPort port (Port.add · packet) := by
  simp only [step, lives, if_true, addCompletion]
  refine wakeWaiters_of_running fun thread member => running thread ?_
  simpa [onPort] using member

/-- A packet too many takes the depth back to zero. -/
theorem Server.Inv.hasRoom_of_orderly (inv : server.Inv) {request : Request}
    (orderly : (server.step request).Orderly) : server.HasRoom request := by
  cases request with
  | addCompletion port packet =>
    intro lives
    by_contra full
    rw [hasRoom, Nat.not_lt] at full
    have running : ∀ thread ∈ (server.ports port).waitQueue,
        (server.threads thread).blocked = false := by
      intro thread member
      by_contra blocked
      rw [Bool.not_eq_false] at blocked
      have empty := inv.awake port thread blocked (inv.mem_waitQueue_iff.mp member)
      rw [empty, length_nil] at full
      exact absurd full (by decide)
    have now := orderly.depth port
    simp only [step_addCompletion lives running, Server.onPort, Function.update_self, add,
      length_append, length_singleton] at now
    bv_omega
  | _ => trivial

/--
In every run in which threads fetch their packets, the ports are orderly in
every state exactly as long as no port gets a packet when it has 2^32 - 1.
-/
theorem completions_orderly_iff_hasRoom (requests : List Request)
    (fetched : Along Server.step Server.Fetched Server.initial requests) :
    Visits Server.step Server.Orderly Server.initial requests ↔
      Along Server.step Server.HasRoom Server.initial requests :=
  @Along.visits_iff _ _ Server.step Server.Inv Server.Orderly Server.HasRoom
    _ _ Server.Fetched (fun _ => Server.Inv.orderly)
    (fun _ _ inv meets room => inv.step meets room)
    (fun _ _ inv _ orderly => inv.hasRoom_of_orderly orderly)
    fetched inv_initial

/-- Two threads wait on a port, and each gets one of two packets. -/
theorem completions_orderly_iff_hasRoom_two_waiters :
    let packet (number : Nat) : Packet := ⟨number, 0, 0, 0⟩
    let requests : List Request :=
      [.createCompletion 0, .removeCompletion 1 0 false, .select 1 false,
        .removeCompletion 2 0 true, .select 2 true,
        .addCompletion 0 (packet 1), .addCompletion 0 (packet 2),
        .getThreadCompletion 2, .getThreadCompletion 1, .closeHandle 0]
    Visits Server.step Server.Orderly Server.initial requests := by
  intro packet requests
  have fetched : Along Server.step Server.Fetched Server.initial requests :=
    ⟨trivial, rfl, rfl, rfl, rfl, trivial, trivial, trivial, trivial, trivial, trivial⟩
  refine (completions_orderly_iff_hasRoom requests fetched).mpr ?_
  exact ⟨trivial, trivial, trivial, trivial, trivial, fun _ => (by decide : 0 + 1 < 2 ^ 32),
    fun _ => (by decide : 0 + 1 < 2 ^ 32),
    trivial, trivial, trivial, trivial⟩

/-! ## Too many packets -/

/-- Packets that nobody waits for stay in the queue. -/
theorem length_queue_run_add (packet : Packet) (count : Nat)
    (lives : (server.ports port).lives = true) (alone : (server.ports port).waitQueue = []) :
    ((run Server.step server (replicate count (.addCompletion port packet))).ports
        port).queue.length =
      (server.ports port).queue.length + count := by
  induction count generalizing server with
  | zero => rfl
  | succ count ih =>
    rw [replicate_succ, run, foldl_cons, step_addCompletion lives (by simp [alone])]
    refine (ih ?_ ?_).trans ?_
    · simpa [onPort, Port.add, Port.lives] using lives
    · simpa [onPort, Port.add] using alone
    · simp [onPort, Port.add]
      omega

/-- After 2^32 packets the depth of the port is zero. -/
theorem depth_wraps : ¬ Visits Server.step Server.Orderly Server.initial (.createCompletion 0 ::
        List.replicate (2 ^ 32) (.addCompletion 0 ⟨0, 0, 0, 0⟩)) := by
  intro visits
  have depth := visits.2.last.depth 0
  rw [length_queue_run_add _ _ rfl rfl] at depth
  omega

end WineRedRose.Completions
