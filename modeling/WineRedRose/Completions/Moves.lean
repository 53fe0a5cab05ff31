import WineRedRose.Completions.Books

/-!
# Packets and wait objects on the move

Each function that moves a packet or a wait object keeps the invariant: a
packet goes to the thread that is woken up for it, a wait object enters the
list of a port or leaves it, and closing the last handle gives up all waiters
of the port.
-/

namespace WineRedRose.Completions

open List Function Server Thread Port Option

/-! ## Waiters -/

section Waiters

variable {server : Server} {port thread : Nat}

theorem Server.Books.mem_waitQueue_iff (books : server.Books) :
    thread ∈ (server.ports port).waitQueue ↔ (server.threads thread).waitsOn port := by
  rw [← count_pos_iff, books.queued port thread]
  split_ifs with waits
  · exact iff_of_true Nat.zero_lt_one waits
  · exact iff_of_false (Nat.lt_irrefl 0) waits

theorem Server.Books.nodup_waitQueue (books : server.Books) :
    (server.ports port).waitQueue.Nodup := by
  rw [nodup_iff_count_le_one]
  intro number
  rw [books.queued port number]
  split
  · exact Nat.le_refl 1
  · exact Nat.zero_le 1

/-- A port that is waited on lives. -/
theorem Server.Books.lives_of_waitsOn (books : server.Books)
    (waits : (server.threads thread).waitsOn port) :
    (server.ports port).lives = true := by
  have member := books.mem_waitQueue_iff.mpr waits
  have used : (server.ports port).handles ≠ 0 := by
    intro unused
    rw [(books.ports port).unused unused] at member
    contradiction
  simp [lives, used]

variable {state : Thread}

theorem Thread.waitsOn_iff {wait : Wait} (same : state.wait = some wait) :
    state.waitsOn port ↔ wait.completion = some port := by
  rw [waitsOn, same, bind_some]

theorem Thread.exists_wait (waits : state.waitsOn port) :
    ∃ msg, state.wait = some ⟨some port, msg⟩ := by
  cases same : state.wait with
  | none => simp [waitsOn, same] at waits
  | some wait =>
    rw [waitsOn_iff same] at waits
    exact ⟨wait.msg, by rw [← waits]⟩

theorem Thread.Ok.alive_of_waitsOn {handed : List Packet} (ok : state.Ok handed)
    (waits : state.waitsOn port) : state.ended = false := by
  by_contra ended
  rw [Bool.not_eq_false] at ended
  rw [waitsOn, (ok.gone ended).1] at waits
  contradiction

end Waiters

/-! ## Packets -/

/-- A port without its first packet. -/
def Port.take (port : Port) (rest : List Packet) : Port :=
  { port with queue := rest, depth := port.depth - 1 }

variable {handed rest : List Packet} {packet : Packet} {port thread : Nat} {server : Server}
variable {threads : List Nat}

theorem Port.Ok.take {port : Port} (ok : port.Ok handed) (lives : port.lives = true)
    (queued : port.queue = packet :: rest) :
    (port.take rest).Ok (handed ++ [packet]) := by
  have order := ok.inOrder lives
  have depth := ok.depth
  rw [queued] at order depth
  rw [length_cons] at depth
  refine ⟨?_, fun _ => ?_, ?_, ok.unused, fun new => ?_⟩
  · show (port.depth - 1).toNat = rest.length
    bv_omega
  · rw [append_assoc, singleton_append]
    exact order
  · refine ⟨rest, ?_⟩
    rw [append_assoc, singleton_append]
    exact order.symm
  · exact absurd ((ok.created_of_lives lives).symm.trans new) (by decide)

/-- A thread whose wait was satisfied with a packet. -/
def Thread.satisfied (thread : Thread) (port : Nat) (packet : Packet) :
    Thread :=
  { thread with wait := some ⟨some port, some packet⟩, blocked := false }

theorem Thread.Ok.satisfied {thread : Thread} (ok : thread.Ok handed) (waits : thread.waitsOn port)
    (nothing : thread.held = []) (packet : Packet) :
    (thread.satisfied port packet).Ok (handed ++ [packet]) := by
  have alive := ok.alive_of_waitsOn waits
  refine .of_running alive rfl ?_
  rw [ok.returned alive, nothing, append_nil]
  rfl

/-- The first packet of a port is attached to the wait object of a thread. -/
def Server.deliver (server : Server) (port thread : Nat) (packet : Packet)
    (rest : List Packet) : Server :=
  server.change port ((server.ports port).take rest) thread
    ((server.threads thread).satisfied port packet) [⟨port, thread, packet⟩]

theorem Server.Books.deliver (books : server.Books) (waits : (server.threads thread).waitsOn port)
    (nothing : (server.threads thread).held = [])
    (queued : (server.ports port).queue = packet :: rest) :
    (server.deliver port thread packet rest).Books := by
  refine books.change
    { fromPort := by simp
      toThread := by simp
      portOk := (books.ports port).take (books.lives_of_waitsOn waits) queued
      threadOk := (books.threads thread).satisfied waits nothing packet
      queued := ?_
      others := fun _ _ => rfl
      elsewhere := ?_ }
  · have before := books.queued port thread
    rw [Queued, if_pos waits] at before
    have now : ((server.threads thread).satisfied port packet).waitsOn port := rfl
    rw [Queued, if_pos now]
    exact before
  · intro other apart
    rcases exists_wait waits with ⟨msg, same⟩
    rw [waitsOn_iff same]
    exact Iff.rfl

/-! ## Waking up -/

theorem depth_ne_zero_iff {port : Port} (ok : port.Ok handed) :
    (port.depth != 0) = true ↔ port.queue ≠ [] := by
  have depth := ok.depth
  have zero : port.depth = 0 ↔ port.depth.toNat = 0 := BitVec.toNat_inj.symm
  rw [bne_iff_ne, ne_eq, zero, depth, length_eq_zero_iff]

/--
Waking up a wait object does nothing, if its thread is not blocked or there
is no packet, or delivers one packet.
-/
theorem Server.Books.wakeUp_cases (books : server.Books) :
    (server.wakeUp thread = server ∧ ((server.threads thread).blocked = true →
          ∀ port, (server.threads thread).waitsOn port → (server.ports port).queue = [])) ∨
      ∃ port packet rest, (server.threads thread).blocked = true ∧
          (server.threads thread).waitsOn port ∧
          (server.threads thread).held = [] ∧
          (server.ports port).queue = packet :: rest ∧
          server.wakeUp thread = server.deliver port thread packet rest := by
  have ok := books.threads thread
  by_cases blocked : (server.threads thread).blocked = true
  · rcases ok.blocks blocked with ⟨⟨port, waits⟩, nothing⟩
    rcases exists_wait waits with ⟨msg, same⟩
    have signaled := depth_ne_zero_iff (books.ports port)
    cases queued : (server.ports port).queue with
    | nil =>
      left
      constructor
      · have quiet : ((server.ports port).depth != 0) = false := by
          rw [← Bool.not_eq_true, signaled, queued]
          exact not_not.mpr rfl
        simp only [wakeUp, same, completionWaitSignaled,
          quiet, Bool.and_false, Bool.false_eq_true, if_false]
      · intro _ other elsewhere
        rw [waitsOn_iff same] at elsewhere
        rw [← some.inj elsewhere]
        exact queued
    | cons packet rest =>
      right
      refine ⟨port, packet, rest, blocked, waits, nothing, queued, ?_⟩
      have loud : ((server.ports port).depth != 0) = true := by
        rw [signaled, queued]
        exact cons_ne_nil packet rest
      simp only [wakeUp, same, completionWaitSignaled, blocked, loud, Bool.and_self, if_true,
        completionWaitSatisfied, queued]
      simp [Server.onThread, takePacket, Server.onPort, Server.deliver, Server.change, Port.take,
        satisfied]
  · left
    refine ⟨?_, fun yes => absurd yes blocked⟩
    unfold wakeUp
    split
    · rfl
    · simp [blocked]

/-! ## Adding a packet -/

/-- The threads that may be blocked next to a packet of the port. -/
def Server.AwakeExcept (server : Server) (port : Nat) (threads : List Nat) :
    Prop :=
  (∀ other ≠ port, server.Awake other) ∧ ∀ thread, (server.threads thread).blocked = true →
      (server.threads thread).waitsOn port → (server.ports port).queue = [] ∨ thread ∈ threads

/-- A thread that gets a packet is not blocked. -/
theorem ne_of_blocked_deliver {number : Nat}
    (blocked : ((server.deliver port thread packet rest).threads number).blocked = true) :
    number ≠ thread := by
  rintro rfl
  simp [deliver, change, satisfied] at blocked

theorem Server.AwakeExcept.wakeUp (books : server.Books)
    (awake : server.AwakeExcept port (thread :: threads)) :
    (server.wakeUp thread).Books ∧ (server.wakeUp thread).AwakeExcept port threads := by
  rcases books.wakeUp_cases with
    ⟨same, idle⟩ | ⟨other, packet, rest, blocked, waits, nothing, queued, same⟩
  · rw [same]
    refine ⟨books, awake.1, fun number blocked waits => ?_⟩
    rcases awake.2 number blocked waits with empty | member
    · exact .inl empty
    · rcases mem_cons.mp member with rfl | later
      · exact .inl (idle blocked port waits)
      · exact .inr later
  · -- only the port that got the packet can have one for a blocked thread
    obtain rfl : other = port := by
      by_contra apart
      rw [awake.1 other apart thread blocked waits] at queued
      contradiction
    rw [same]
    refine ⟨books.deliver waits nothing queued, fun other' apart => ?_,
      fun number asleep waits' => .inr ?_⟩
    · intro number asleep waits'
      have apart' := ne_of_blocked_deliver asleep
      simp only [deliver, change, update_of_ne apart', update_of_ne apart] at asleep waits' ⊢
      exact awake.1 other' apart number asleep waits'
    · have apart' := ne_of_blocked_deliver asleep
      simp only [deliver, change, update_of_ne apart'] at asleep waits'
      rcases awake.2 number asleep waits' with empty | member
      · rw [queued] at empty
        contradiction
      · exact (mem_cons.mp member).resolve_left apart'

/-- The loop leaves no thread blocked next to a packet. -/
theorem Server.AwakeExcept.wakeWaiters (books : server.Books)
    (awake : server.AwakeExcept port threads) : (server.wakeWaiters port threads).Inv := by
  induction threads generalizing server with
  | nil =>
    refine ⟨books, fun other => ?_⟩
    by_cases same : other = port
    · subst same
      intro thread blocked waits
      exact (awake.2 thread blocked waits).resolve_right not_mem_nil
    · exact awake.1 other same
  | cons thread threads ih =>
    rcases awake.wakeUp books with ⟨books', awake'⟩
    rw [wakeWaiters]
    split
    · rename_i empty
      rw [List.isEmpty_iff] at empty
      refine ⟨books', fun other => ?_⟩
      by_cases same : other = port
      · subst same
        exact fun _ _ _ => empty
      · exact awake'.1 other same
    · exact ih books' awake'

/-- The port has room for one more packet in its depth. -/
def Port.hasRoom (port : Port) : Prop := port.queue.length + 1 < 2 ^ 32

/-- A port with one more packet. -/
def Port.add (port : Port) (packet : Packet) : Port :=
  { port with
    queue := port.queue ++ [packet]
    depth := port.depth + 1
    added := port.added ++ [packet] }

theorem Port.Ok.add {port : Port} (ok : port.Ok handed) (lives : port.lives = true)
    (room : port.hasRoom) (packet : Packet) :
    (port.add packet).Ok handed := by
  have depth := ok.depth
  unfold hasRoom at room
  refine ⟨?_, fun _ => ?_, ?_, ok.unused, fun new => ?_⟩
  · show (port.depth + 1).toNat = (port.queue ++ [packet]).length
    rw [length_append, length_singleton]
    bv_omega
  · show port.added ++ [packet] = handed ++ (port.queue ++ [packet])
    rw [ok.inOrder lives, append_assoc]
  · exact ok.dropped.trans (prefix_append _ _)
  · exact absurd ((ok.created_of_lives lives).symm.trans new) (by decide)

theorem Server.Inv.addCompletion (inv : server.Inv) (lives : (server.ports port).lives = true)
    (room : (server.ports port).hasRoom) :
    (server.addCompletion port packet).Inv := by
  have books : (server.onPort port (Port.add · packet)).Books :=
    inv.toBooks.onPort ((inv.ports port).add lives room packet) fun _ => rfl
  refine Server.AwakeExcept.wakeWaiters books ⟨fun other apart => ?_, ?_⟩
  · intro thread blocked waits
    simp only [Server.onPort, update_of_ne apart]
    exact inv.awake other thread blocked waits
  · intro thread blocked waits
    exact .inr (books.mem_waitQueue_iff.mpr waits)

/-! ## Leaving a port -/

/-- The wait object of a thread leaves the port. -/
theorem Server.Inv.leave (inv : server.Inv) {newThread : Thread}
    (waits : (server.threads thread).waitsOn port) (ok : newThread.Ok (server.handedTo thread))
    (nowhere : ∀ other, ¬ newThread.waitsOn other) (awake : newThread.blocked = false) :
    (server.change port
      { server.ports port with
        waitQueue := (server.ports port).waitQueue.erase thread }
      thread newThread []).Inv where
  toBooks := by
    have before := inv.ports port
    have count := inv.queued port thread
    rw [Queued, if_pos waits] at count
    refine inv.toBooks.change
      { fromPort := by simp
        toThread := by simp
        portOk := ?_
        threadOk := by simpa using ok
        queued := ?_
        others := fun other apart => count_erase_of_ne apart
        elsewhere := fun other apart => ?_ }
    · rw [map_nil, append_nil]
      refine { before with unused := fun unused => ?_ }
      rw [before.unused unused, erase_nil]
    · rw [Queued, if_neg (nowhere port), count_erase_self, count]
    · refine iff_of_false (nowhere other) fun elsewhere => apart ?_
      exact some.inj (elsewhere.symm.trans waits)
  awake := awake_change inv.awake id fun blocked =>
    absurd (awake.symm.trans blocked) Bool.false_ne_true

/-- A thread that is not blocked gives up a wait object without a packet. -/
theorem Thread.Ok.withoutWait {thread : Thread} (ok : thread.Ok handed)
    (nothing : thread.held = []) :
    Thread.Ok { thread with wait := none, blocked := false } handed where
  returned alive := by
    rw [ok.returned alive, nothing]
    rfl
  lost := ok.lost
  gone _ := ⟨rfl, rfl⟩
  blocks := nofun

/-- `cleanup_thread_completion` by a thread that runs. -/
theorem Server.Inv.cleanupThreadCompletion (inv : server.Inv)
    (runs : (server.threads thread).blocked = false) (nothing : (server.threads thread).held = []) :
    (server.cleanupThreadCompletion thread).Inv := by
  have ok := (inv.threads thread).withoutWait nothing
  rw [← runs] at ok
  cases same : (server.threads thread).wait with
  | none =>
    rw [Server.cleanupThreadCompletion, same]
    exact inv
  | some wait =>
    cases completion : wait.completion with
    | none =>
      simp only [Server.cleanupThreadCompletion, same, completion]
      refine inv.onThread ok (fun port => ?_) fun blocked => ?_
      · rw [waitsOn_iff same, completion]
        exact iff_of_false nofun nofun
      · exact absurd (runs.symm.trans blocked) Bool.false_ne_true
    | some port =>
      have waits : (server.threads thread).waitsOn port := by rw [waitsOn_iff same, completion]
      have left := inv.leave waits ok (fun _ => nofun) runs
      simpa [Server.cleanupThreadCompletion, same, completion, Server.onThread, Server.onPort,
        Server.change] using left

/-! ## Closing the last handle -/

/-- What `completion_close_handle` makes of a thread that waits. -/
def Thread.abandoned (thread : Thread) : Thread :=
  if thread.held = [] then { thread with wait := none, blocked := false }
  else
    { thread with
      wait := thread.wait.map fun wait => { wait with completion := none } }

theorem Thread.Ok.abandoned {thread : Thread} (ok : thread.Ok handed)
    (waits : thread.waitsOn port) : thread.abandoned.Ok handed ∧
      (∀ other, ¬ thread.abandoned.waitsOn other) ∧ thread.abandoned.blocked = false := by
  rcases Thread.exists_wait waits with ⟨msg, same⟩
  unfold Thread.abandoned
  split
  · rename_i nothing
    exact ⟨ok.withoutWait nothing, fun _ => nofun, rfl⟩
  · rename_i holds
    have runs : thread.blocked = false := by
      by_contra blocked
      rw [Bool.not_eq_false] at blocked
      exact holds (ok.blocks blocked).2
    have alive := ok.alive_of_waitsOn waits
    refine ⟨.of_running alive runs ?_, fun other => ?_, runs⟩
    · rw [ok.returned alive]
      simp [Thread.held, same]
    · simp [Thread.waitsOn, same]

/-- The state after the port has given up one of its waiters. -/
def Server.abandon (server : Server) (port thread : Nat) : Server := server.change port
    { server.ports port with
      waitQueue := (server.ports port).waitQueue.erase thread }
    thread (server.threads thread).abandoned []

theorem abandonWaiters_cons (waits : (server.threads thread).waitsOn port) :
    server.abandonWaiters port (thread :: threads) =
      (server.abandon port thread).abandonWaiters port threads := by
  rcases exists_wait waits with ⟨msg, same⟩
  rw [abandonWaiters]
  congr 1
  cases msg with
  | some packet => simp [abandon, change, onThread, onPort, abandoned, held, same]
  | none =>
    cases blocked : (server.threads thread).blocked <;>
      simp [abandon, change, onThread, onPort, abandoned, held, same, wakeUp, blocked,
        completionWaitSignaled, completionWaitSatisfied,
        cleanupThreadCompletion]

theorem Server.Inv.abandon (inv : server.Inv) (waits : (server.threads thread).waitsOn port) :
    (server.abandon port thread).Inv := by
  rcases (inv.threads thread).abandoned waits with ⟨ok, nowhere, awake⟩
  exact inv.leave waits ok nowhere awake

/-- The loop gives up all waiters of the port and changes nothing else. -/
theorem Server.Inv.abandonWaiters (inv : server.Inv)
    (waiters : ∀ thread, (server.threads thread).waitsOn port ↔ thread ∈ threads)
    (distinct : threads.Nodup) : (server.abandonWaiters port threads).Inv ∧
      (∀ thread, ¬ ((server.abandonWaiters port threads).threads thread).waitsOn port) ∧
      ((server.abandonWaiters port threads).ports port).handles = (server.ports port).handles := by
  induction threads generalizing server with
  | nil =>
    refine ⟨inv, fun thread waits => ?_, rfl⟩
    exact not_mem_nil ((waiters thread).mp waits)
  | cons thread threads ih =>
    rw [nodup_cons] at distinct
    have waits := (waiters thread).mpr (mem_cons_self ..)
    have nowhere := ((inv.threads thread).abandoned waits).2.1
    rw [abandonWaiters_cons waits]
    have later := ih (inv.abandon waits) (fun other => ?_) distinct.2
    · refine ⟨later.1, later.2.1, later.2.2.trans ?_⟩
      simp [Server.abandon, Server.change]
    · by_cases same : other = thread
      · subst same
        refine iff_of_false ?_ distinct.1
        simpa [Server.abandon, Server.change] using nowhere port
      · have before := waiters other
        simpa [Server.abandon, Server.change, same] using before

theorem Server.Inv.completionCloseHandle (inv : server.Inv) (port : Nat) :
    (server.completionCloseHandle port).Inv ∧
      ((server.completionCloseHandle port).ports port).handles = (server.ports port).handles ∧
      ((server.ports port).handles = 1 →
        ((server.completionCloseHandle port).ports port).waitQueue = []) := by
  unfold Server.completionCloseHandle
  split
  · rename_i several
    exact ⟨inv, rfl, fun last => absurd last several⟩
  · rcases inv.abandonWaiters (fun thread => inv.mem_waitQueue_iff.symm)
      inv.nodup_waitQueue with ⟨left, nobody, handles⟩
    refine ⟨left.onPort { left.ports port with } (fun _ => rfl) id, ?_, fun _ => ?_⟩
    · simpa [Server.onPort] using handles
    · have empty : ((server.abandonWaiters port
          (server.ports port).waitQueue).ports port).waitQueue = [] := by
        rw [eq_nil_iff_forall_not_mem]
        exact fun thread member => nobody thread (left.mem_waitQueue_iff.mp member)
      simpa [Server.onPort] using empty

/-- Handles of a port and references to it come and go. -/
theorem Port.Ok.refer {port : Port} (ok : port.Ok handed) (lives : port.lives = true)
    {handles refs : Nat} (unused : handles = 0 → port.waitQueue = []) :
    Port.Ok { port with handles := handles, refs := refs } handed where
  depth := ok.depth
  inOrder _ := ok.inOrder lives
  dropped := ok.dropped
  unused := unused
  fresh new := absurd (new.symm.trans (ok.created_of_lives lives)) Bool.false_ne_true

/-- A port of which a handle or a reference is given back. -/
theorem Port.Ok.release {port : Port} (ok : port.Ok handed) (lives : port.lives = true)
    {handles refs : Nat} (unused : handles = 0 → port.waitQueue = []) :
    (Port.release { port with handles := handles, refs := refs }).Ok
      handed := by
  have kept : Port.Ok { port with handles := handles, refs := refs } handed := ok.refer lives unused
  unfold Port.release
  split
  · rename_i zero
    have last : handles = 0 ∧ refs = 0 := zero
    refine ⟨rfl, fun still => ?_, kept.dropped, unused, fun new => ?_⟩
    · simp [Port.lives, last] at still
    · exact ⟨rfl, (kept.fresh new).2⟩
  · exact kept

theorem waitQueue_release (port : Port) : port.release.waitQueue = port.waitQueue := by
  unfold release
  split <;> rfl

theorem queue_release {port : Port} (empty : port.queue = []) : port.release.queue = [] := by
  unfold release
  split
  · rfl
  · exact empty

/-! ## Taking a packet -/

section

variable (inv : server.Inv) (waits : (server.threads thread).waitsOn port)
include inv waits

/-- A packet goes to a thread that runs and holds none. -/
theorem Server.Inv.deliver (nothing : (server.threads thread).held = [])
    (queued : (server.ports port).queue = packet :: rest) :
    (server.deliver port thread packet rest).Inv where
  toBooks := inv.toBooks.deliver waits nothing queued
  awake := by
    refine awake_change inv.awake (fun empty => ?_) nofun
    rw [queued] at empty
    contradiction

/-- A thread whose request returned a packet. -/
def Thread.return (thread : Thread) (packet : Packet) : Thread :=
  { thread with returned := thread.returned ++ [packet] }

/-- `remove_completion` returns the first packet. -/
theorem Server.Inv.returnPacket (runs : (server.threads thread).blocked = false)
    (nothing : (server.threads thread).held = [])
    (queued : (server.ports port).queue = packet :: rest) :
    ((server.takePacket port thread packet rest).onThread thread (Thread.return · packet)).Inv := by
  have ok := inv.threads thread
  have alive := ok.alive_of_waitsOn waits
  have same : (server.takePacket port thread packet rest).onThread thread (Thread.return · packet) =
      server.change port ((server.ports port).take rest) thread
        ((server.threads thread).return packet) [⟨port, thread, packet⟩] :=
    rfl
  rw [same]
  refine ⟨inv.toBooks.change
    { fromPort := by simp
      toThread := by simp
      portOk := (inv.ports port).take (inv.lives_of_waitsOn waits) queued
      threadOk := ?_
      queued := inv.queued port thread
      others := fun _ _ => rfl
      elsewhere := fun _ _ => Iff.rfl },
    awake_change inv.awake (fun empty => ?_) fun blocked => ?_⟩
  · refine .of_running alive runs ?_
    show server.handedTo thread ++ [packet] = ((server.threads thread).returned ++ [packet]) ++
        (server.threads thread).held
    rw [ok.returned alive, nothing, append_nil, append_nil]
  · rw [queued] at empty
    contradiction
  · exact absurd (runs.symm.trans blocked) Bool.false_ne_true

/-! ## Removing a packet -/

omit inv waits in
theorem Server.Inv.createCompletionWait (inv : server.Inv)
    (alive : (server.threads thread).ended = false) (runs : (server.threads thread).blocked = false)
    (none : (server.threads thread).wait = none) (used : (server.ports port).handles ≠ 0) :
    (server.createCompletionWait port thread).Inv := by
  let newThread : Thread :=
    { server.threads thread with wait := some ⟨some port, Option.none⟩ }
  have ok := inv.threads thread
  have nowhere (other : Nat) : ¬ (server.threads thread).waitsOn other := by simp [waitsOn, none]
  have waits : newThread.waitsOn port := rfl
  have same : server.createCompletionWait port thread = server.change port
        { server.ports port with
          waitQueue := thread :: (server.ports port).waitQueue }
        thread newThread [] := by
    simp [Server.createCompletionWait, Server.onThread, Server.onPort, Server.change, newThread]
  have before := inv.ports port
  have count := inv.queued port thread
  rw [Queued, if_neg (nowhere port)] at count
  rw [same]
  refine ⟨inv.toBooks.change
    { fromPort := by simp
      toThread := by simp
      portOk := ?_
      threadOk := ?_
      queued := ?_
      others := fun other apart => count_cons_of_ne apart.symm
      elsewhere := fun other apart => ?_ },
    Server.awake_change inv.awake id fun blocked => ?_⟩
  · rw [map_nil, append_nil]
    exact { before with unused := fun unused => absurd unused used }
  · rw [map_nil, append_nil]
    refine .of_running alive runs ?_
    rw [ok.returned alive]
    simp [held, none, newThread]
  · rw [Queued, if_pos waits, count_cons_self, count]
  · refine iff_of_false (fun elsewhere => apart ?_) (nowhere other)
    exact (some.inj (elsewhere.symm.trans waits))
  · exact absurd (runs.symm.trans blocked) Bool.false_ne_true

/-- The wait object of a waiter goes to the head of the queue. -/
theorem Server.Inv.moveToHead : (server.onPort port fun state =>
      { state with
        waitQueue := thread :: state.waitQueue.erase thread }).Inv := by
  have before := inv.ports port
  have member := inv.mem_waitQueue_iff.mpr waits
  refine inv.onPort { before with unused := fun unused => ?_ } ?_ id
  · rw [before.unused unused] at member
    contradiction
  · exact fun other => (perm_cons_erase member).symm.count_eq other

end

end WineRedRose.Completions
