import WineRedRose.Completions.Model

/-!
# What the functions of a completion port change

Every function of the model changes one port and one thread at a time.  The
invariant is stated per port and per thread, so that such a change has to be
checked at these two only.
-/

namespace WineRedRose.Completions

open List Function Server

/-! ## The invariant -/

/-- The packets of the deliveries with a given key, in order. -/
def packetsBy (key : Delivery → Nat) (number : Nat) (handed : List Delivery) : List Packet :=
  (handed.filter fun delivery => key delivery = number).map Delivery.packet

/-- Deliveries with one key are in the packets of that key only. -/
theorem packetsBy_append {key : Delivery → Nat} {number : Nat} {more : List Delivery}
    (own : ∀ delivery ∈ more, key delivery = number) (other : Nat) (handed : List Delivery) :
    packetsBy key other (handed ++ more) =
      packetsBy key other handed ++ if other = number then more.map Delivery.packet else [] := by
  rw [packetsBy, filter_append, map_append, packetsBy]
  congr 1
  split_ifs with same
  · rw [filter_eq_self.mpr fun delivery member =>
      decide_eq_true ((own delivery member).trans same.symm)]
  · rw [map_eq_nil_iff, filter_eq_nil_iff]
    intro delivery member
    simpa [own delivery member] using Ne.symm same

/-- The packets that left the queue of a port. -/
def Server.handedFrom (server : Server) (port : Nat) : List Packet :=
  packetsBy Delivery.port port server.handed

/-- The packets that were handed to a thread. -/
def Server.handedTo (server : Server) (thread : Nat) : List Packet :=
  packetsBy Delivery.thread thread server.handed

/-- The packet attached to the wait object of the thread. -/
def Thread.held (thread : Thread) : List Packet := (thread.wait.bind Wait.msg).toList

/-- The wait object of the thread belongs to the port. -/
def Thread.waitsOn (thread : Thread) (port : Nat) : Prop :=
  thread.wait.bind Wait.completion = some port

instance (thread : Thread) (port : Nat) : Decidable (thread.waitsOn port) :=
  inferInstanceAs (Decidable (_ = _))

/--
A port of which these packets were handed out: nothing is lost or changes its
place while the port lives.
-/
structure Port.Ok (port : Port) (handed : List Packet) : Prop where
  depth : port.depth.toNat = port.queue.length
  inOrder : port.lives = true → port.added = handed ++ port.queue
  dropped : handed <+: port.added
  unused : port.handles = 0 → port.waitQueue = []
  fresh : port.created = false → port.queue = [] ∧ port.added = [] ∧ port.lives = false

theorem Port.Ok.created_of_lives {port : Port} {handed : List Packet} (ok : port.Ok handed)
    (lives : port.lives = true) : port.created = true := by
  by_contra new
  rw [Bool.not_eq_true] at new
  rw [(ok.fresh new).2.2] at lives
  contradiction

/--
A thread to which these packets were handed: it returned them, except one
that it holds, or held when it ended.
-/
structure Thread.Ok (thread : Thread) (handed : List Packet) : Prop where
  returned : thread.ended = false → handed = thread.returned ++ thread.held
  lost : thread.ended = true →
    ∃ held : List Packet, held.length ≤ 1 ∧ handed = thread.returned ++ held
  gone : thread.ended = true → thread.wait = none ∧ thread.blocked = false
  blocks : thread.blocked = true → (∃ port, thread.waitsOn port) ∧ thread.held = []

theorem Thread.Ok.of_running {thread : Thread} {handed : List Packet} (alive : thread.ended = false)
    (runs : thread.blocked = false) (returned : handed = thread.returned ++ thread.held) :
    thread.Ok handed := by
  refine ⟨fun _ => returned, fun ended => ?_, fun ended => ?_, fun blocked => ?_⟩
  · exact absurd (alive.symm.trans ended) Bool.false_ne_true
  · exact absurd (alive.symm.trans ended) Bool.false_ne_true
  · exact absurd (runs.symm.trans blocked) Bool.false_ne_true

/-- The wait object of the thread is queued where it belongs, once. -/
def Queued (port : Port) (id : Nat) (thread : Thread) (number : Nat) : Prop :=
  port.waitQueue.count number = if thread.waitsOn id then 1 else 0

/-- The invariant without the waiters that have to be woken up. -/
structure Server.Books (server : Server) : Prop where
  ports : ∀ port, (server.ports port).Ok (server.handedFrom port)
  threads : ∀ thread, (server.threads thread).Ok (server.handedTo thread)
  queued : ∀ port thread, Queued (server.ports port) port (server.threads thread) thread
  sound : server.fault = false

/-- No thread is blocked on a port that has packets. -/
def Server.Awake (server : Server) (port : Nat) : Prop :=
  ∀ thread, (server.threads thread).blocked = true →
    (server.threads thread).waitsOn port → (server.ports port).queue = []

structure Server.Inv (server : Server) : Prop extends Server.Books server where
  awake : ∀ port, server.Awake port

/-! ## A change of one port and one thread -/

/-- The state after one port and one thread changed. -/
def Server.change (server : Server) (port : Nat) (newPort : Port) (thread : Nat)
    (newThread : Thread) (handed : List Delivery) : Server :=
  { server with
    ports := update server.ports port newPort
    threads := update server.threads thread newThread
    handed := server.handed ++ handed }

section Change

variable {server : Server} {port thread : Nat} {newPort : Port}
  {newThread : Thread} {handed : List Delivery}

/-- What has to be checked of a change. -/
structure Checked
    (server : Server) (port : Nat) (newPort : Port) (thread : Nat)
    (newThread : Thread) (handed : List Delivery) : Prop where
  fromPort : ∀ delivery ∈ handed, delivery.port = port
  toThread : ∀ delivery ∈ handed, delivery.thread = thread
  portOk : newPort.Ok (server.handedFrom port ++ handed.map Delivery.packet)
  threadOk : newThread.Ok (server.handedTo thread ++ handed.map Delivery.packet)
  queued : Queued newPort port newThread thread
  others : ∀ other ≠ thread, newPort.waitQueue.count other =
      (server.ports port).waitQueue.count other
  elsewhere : ∀ other ≠ port, (newThread.waitsOn other ↔ (server.threads thread).waitsOn other)

theorem Server.Books.change (books : server.Books)
    (checked : Checked server port newPort thread newThread handed) :
    (server.change port newPort thread newThread handed).Books where
  ports other := by
    rw [handedFrom, Server.change, packetsBy_append checked.fromPort]
    by_cases same : other = port
    · subst same
      simpa [handedFrom] using checked.portOk
    · simpa [same, handedFrom] using books.ports other
  threads other := by
    rw [handedTo, Server.change, packetsBy_append checked.toThread]
    by_cases same : other = thread
    · subst same
      simpa [handedTo] using checked.threadOk
    · simpa [same, handedTo] using books.threads other
  queued other number := by
    have before := books.queued other number
    by_cases samePort : other = port
    · subst samePort
      by_cases same : number = thread
      · subst same
        simpa [Server.change] using checked.queued
      · simp only [Server.change, update_self, update_of_ne same, Queued]
        rw [checked.others number same]
        exact before
    · by_cases same : number = thread
      · subst same
        simp only [Server.change, update_self, update_of_ne samePort, Queued]
        rw [if_congr (checked.elsewhere other samePort) rfl rfl]
        exact before
      · simpa [Server.change, samePort, same] using before
  sound := books.sound

/--
Nobody sleeps next to a packet after a change that puts no packet into an
empty queue, if the changed thread does not.
-/
theorem Server.awake_change (awake : ∀ other, server.Awake other)
    (empty : (server.ports port).queue = [] → newPort.queue = [])
    (own : newThread.blocked = true → ∀ other, newThread.waitsOn other →
      (update server.ports port newPort other).queue = []) :
    ∀ other, (server.change port newPort thread newThread handed).Awake other := by
  intro other number blocked waits
  by_cases same : number = thread
  · subst same
    simp only [change, update_self] at blocked waits
    exact own blocked other waits
  · simp only [change, update_of_ne same] at blocked waits
    have before := awake other number blocked waits
    by_cases samePort : other = port
    · subst samePort
      simpa [change] using empty before
    · simpa [change, samePort] using before

end Change

/-! ## Changes of a port or of a thread alone -/

theorem onThread_eq_change (server : Server) (thread : Nat) (change : Thread → Thread) :
    server.onThread thread change =
      server.change 0 (server.ports 0) thread (change (server.threads thread)) [] := by
  simp [Server.onThread, Server.change]

theorem onPort_eq_change (server : Server) (port : Nat) (change : Port → Port) :
    server.onPort port change =
      server.change port (change (server.ports port)) 0 (server.threads 0) [] := by
  simp [Server.onPort, Server.change]

variable {server : Server}

/-- A thread changes, and its wait object stays where it is. -/
theorem Server.Books.onThread (books : server.Books) {thread : Nat} {change : Thread → Thread}
    (ok : (change (server.threads thread)).Ok (server.handedTo thread))
    (waits : ∀ port, (change (server.threads thread)).waitsOn port ↔
      (server.threads thread).waitsOn port) :
    (server.onThread thread change).Books := by
  rw [onThread_eq_change]
  refine books.change
    { fromPort := by simp
      toThread := by simp
      portOk := by simpa using books.ports 0
      threadOk := by simpa using ok
      queued := ?_
      others := fun _ _ => rfl
      elsewhere := fun other _ => waits other }
  have queued := books.queued 0 thread
  rw [Queued] at queued ⊢
  rw [queued, if_congr (waits 0) rfl rfl]

/-- A port changes, and its waiters at most change their places. -/
theorem Server.Books.onPort (books : server.Books) {port : Nat} {change : Port → Port}
    (ok : (change (server.ports port)).Ok (server.handedFrom port))
    (waiters : ∀ thread, (change (server.ports port)).waitQueue.count thread =
        (server.ports port).waitQueue.count thread) :
    (server.onPort port change).Books := by
  rw [onPort_eq_change]
  refine books.change
    { fromPort := by simp
      toThread := by simp
      portOk := by simpa using ok
      threadOk := by simpa using books.threads 0
      queued := ?_
      others := fun other _ => waiters other
      elsewhere := fun _ _ => Iff.rfl }
  rw [Queued, waiters 0]
  exact books.queued port 0

theorem Server.Inv.onThread (inv : server.Inv) {thread : Nat} {change : Thread → Thread}
    (ok : (change (server.threads thread)).Ok (server.handedTo thread))
    (waits : ∀ port, (change (server.threads thread)).waitsOn port ↔
      (server.threads thread).waitsOn port)
    (own : (change (server.threads thread)).blocked = true →
      ∀ port, (change (server.threads thread)).waitsOn port → (server.ports port).queue = []) :
    (server.onThread thread change).Inv where
  toBooks := inv.toBooks.onThread ok waits
  awake := by
    rw [onThread_eq_change]
    refine awake_change inv.awake id fun blocked port waiting => ?_
    rw [update_eq_self]
    exact own blocked port waiting

theorem Server.Inv.onPort (inv : server.Inv) {port : Nat} {change : Port → Port}
    (ok : (change (server.ports port)).Ok (server.handedFrom port))
    (waiters : ∀ thread, (change (server.ports port)).waitQueue.count thread =
        (server.ports port).waitQueue.count thread)
    (empty : (server.ports port).queue = [] → (change (server.ports port)).queue = []) :
    (server.onPort port change).Inv where
  toBooks := inv.toBooks.onPort ok waiters
  awake := by
    rw [onPort_eq_change]
    refine awake_change inv.awake empty fun blocked other waiting => ?_
    have before := inv.awake other 0 blocked waiting
    by_cases same : other = port
    · subst same
      rw [update_self]
      exact empty before
    · rw [update_of_ne same]
      exact before

end WineRedRose.Completions
