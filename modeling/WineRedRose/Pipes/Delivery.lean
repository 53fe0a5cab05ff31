import WineRedRose.Pipes.Serving

/-!
# Delivery through a named pipe

In every run of a connected pair the bytes that the reads of an end return
are a prefix of what was written to it, and every completed request reports
what it should, exactly as long as no read in byte mode counts past 32 bits.
-/

namespace WineRedRose.Pipes

open Library.Chunks List Message PipeEnd Pipe
open Library.Runs

/-! ## One end between requests -/

/-- What holds of an end when no request is being handled. -/
structure PipeEnd.Good (next : Nat) (pipeEnd : PipeEnd) : Prop where
  flowing : pipeEnd.Flowing
  settled : pipeEnd.Settled
  distinct : (pipeEnd.sent.map Prod.fst).Nodup
  past : ∀ id ∈ pipeEnd.sent.map Prod.fst, id < next
  right : pipeEnd.AllRight

variable {next : Nat} {pipeEnd : PipeEnd} {pipe : Pipe}

theorem PipeEnd.Good.mono {next' : Nat} (good : pipeEnd.Good next) (later : next ≤ next') :
    pipeEnd.Good next' :=
  { good with past := fun id member => (good.past id member).trans_le later }

theorem good_fresh (mode : Bool) (size : DataSize) : (PipeEnd.fresh mode size).Good 0 where
  flowing := ⟨Stream.empty, by simp [fresh], by simp [fresh],
    rfl⟩
  settled := .inl rfl
  distinct := nodup_nil
  past := by simp [fresh]
  right := by simp [PipeEnd.AllRight, fresh]

/-- A reselect that follows a change of the two queues. -/
theorem Serves.good {pipeEnd' : PipeEnd} (serves : Serves pipeEnd pipeEnd')
    (distinct : (pipeEnd.sent.map Prod.fst).Nodup)
    (past : ∀ id ∈ pipeEnd.sent.map Prod.fst, id < next) (right : pipeEnd'.AllRight) :
    pipeEnd'.Good next where
  flowing := serves.flowing
  settled := serves.settled
  distinct := by rwa [serves.sent]
  past := by rwa [serves.sent]
  right := right

/-! ## Reads -/

/-- An end with one more read request. -/
def PipeEnd.queueRead (pipeEnd : PipeEnd) (async : Async) : PipeEnd :=
  { pipeEnd with readQ := pipeEnd.readQ ++ [async] }

variable {async : Async}

theorem PipeEnd.Flowing.queueRead (flowing : pipeEnd.Flowing) (pending : async.status = .pending) :
    (pipeEnd.queueRead async).Flowing :=
  { flowing with
    reads := by
      intro other member alive
      rcases mem_append.mp member with member | member
      · exact flowing.reads other member alive
      · rwa [mem_singleton.mp member] }

/-- A new read of an end with messages is served at once, and alone. -/
theorem serveReads_queueRead (flowing : pipeEnd.Flowing) (nonempty : pipeEnd.messageQueue ≠ [])
    (served : ∀ other ∈ pipeEnd.readQ, other.terminated) (pending : async.status = .pending)
    (alive : async.terminated = false) (fuel : Nat) :
    ((pipeEnd.queueRead async).serveReads (fuel + 2)).1 =
      (pipeEnd.queueRead async).messageQueueRead async := by
  have found : findPendingAsync (pipeEnd.queueRead async).readQ = some async := by
    have none : pipeEnd.readQ.find? (fun other => !other.terminated) = none := by simpa using served
    simp [findPendingAsync, queueRead, find?_append, none, alive]
  have notEmpty : ¬ (pipeEnd.queueRead async).messageQueue.isEmpty = true := by
    rwa [List.isEmpty_iff]
  rcases (served_messageQueueRead (flowing.queueRead pending) nonempty
    pending).readQ with ⟨status, same⟩
  have settled : ((pipeEnd.queueRead async).messageQueueRead async).Settled := by
    right
    rw [same]
    intro other member
    rcases mem_map.mp member with ⟨before, queued, rfl⟩
    split_ifs with equal
    · exact Async.terminated_terminate ..
    · rcases mem_append.mp queued with old | new
      · exact served before old
      · rw [mem_singleton.mp new] at equal
        contradiction
  rw [serveReads, if_neg notEmpty, found]
  simp only
  rw [serveReads_of_settled settled]

section

variable (good : pipeEnd.Good next)
include good

variable {id : Nat}

/-- A read is right exactly if it is in message mode or fits. -/
theorem allRight_read_iff (size : DataSize) : (pipeEnd.read id size).AllRight ↔
      (pipeEnd.messageStreamRead ∨ Fits pipeEnd.messageQueue size) := by
  let async : Async := ⟨id, size, .pending, false⟩
  have flowing : (pipeEnd.queueRead async).Flowing := good.flowing.queueRead rfl
  show ((pipeEnd.queueRead async).reselectReadQueue reselectDepth false).AllRight ↔ _
  by_cases empty : pipeEnd.messageQueue = []
  · have settled : (pipeEnd.queueRead async).Settled := .inl empty
    rw [reselect_of_settled settled, empty]
    exact ⟨fun _ => .inr fits_nil, fun _ => good.right⟩
  · have served := good.settled.resolve_left empty
    have alone := serveReads_queueRead good.flowing empty served
      (show async.status = .pending from rfl) rfl pipeEnd.readQ.length
    have right := (served_messageQueueRead flowing empty
      (show async.status = .pending from rfl)).right
    have length : (pipeEnd.queueRead async).readQ.length + 1 = pipeEnd.readQ.length + 2 := by
      simp [queueRead]
    rcases reselectReadQueue_cases flowing with ⟨_, rfl, same | same⟩
    all_goals
      rw [same, length, alone]
    · exact right.trans (and_iff_right good.right)
    · rw [allRight_wakeWrites_iff]
      exact right.trans (and_iff_right good.right)

theorem PipeEnd.Good.read (id : Nat) {size : DataSize}
    (fits : pipeEnd.messageStreamRead ∨ Fits pipeEnd.messageQueue size) :
    (pipeEnd.read id size).Good next :=
  (serves_reselectReadQueue (good.flowing.queueRead rfl) false).good
    good.distinct good.past ((allRight_read_iff good size).mpr fits)

/-- The reads of an end can change as long as none begins to wait. -/
theorem PipeEnd.Good.withReads {readQ : List Async}
    (reads : ∀ async ∈ readQ, async.terminated = false → async.status = .pending)
    (served : (∀ async ∈ pipeEnd.readQ, async.terminated) → ∀ async ∈ readQ, async.terminated) :
    PipeEnd.Good next (PipeEnd.reselectReadQueue reselectDepth false
      { pipeEnd with readQ := readQ }) := by
  have settled : PipeEnd.Settled { pipeEnd with readQ := readQ } := good.settled.imp_right served
  rw [reselect_of_settled settled]
  exact ⟨⟨good.flowing.stream, good.flowing.writes, reads,
    good.flowing.sound⟩, settled, good.distinct, good.past, good.right⟩

theorem PipeEnd.Good.cancelRead (id : Nat) : (pipeEnd.cancelRead id).Good next := by
  unfold PipeEnd.cancelRead
  split
  · refine good.withReads (reads_map_terminate good.flowing.reads id _) ?_
    intro served async member
    rcases mem_map.mp member with ⟨other, queued, rfl⟩
    split
    · exact Async.terminated_terminate ..
    · exact served other queued
  · exact good

theorem PipeEnd.Good.finishRead (leaves : Async → Bool) :
    PipeEnd.Good next (PipeEnd.reselectReadQueue reselectDepth false
      { pipeEnd with readQ := pipeEnd.readQ.filter leaves }) :=
  good.withReads (fun async member => good.flowing.reads async (mem_of_mem_filter member))
    (fun served async member => served async (mem_of_mem_filter member))

/-! ## Writes -/

omit good in
theorem PipeEnd.Flowing.queueMessage (flowing : pipeEnd.Flowing) (id : Nat) (data : Buffer)
    (async : Bool) :
    (pipeEnd.queueMessage id data async).Flowing where
  stream := by
    have sent := flowing.stream.send id data.bytes
    rw [PipeEnd.queueMessage, map_append]
    exact sent
  writes := by
    intro message member waits
    rcases mem_append.mp member with member | member
    · exact flowing.writes message member waits
    · rw [mem_singleton.mp member]
  reads := flowing.reads
  sound := flowing.sound

/--
A message that arrives is alone in the queue or finds no read that waits for
it, so its length is never added to another one.
-/
theorem PipeEnd.Good.queueMessage (data : Buffer) (async reselectWrite : Bool) :
    ((pipeEnd.queueMessage next data async).reselectReadQueue reselectDepth
      reselectWrite).Good (next + 1) := by
  have flowing := good.flowing.queueMessage next data async
  have serves := serves_reselectReadQueue flowing reselectWrite
  refine serves.good ?_ ?_ ?_
  · simp only [PipeEnd.queueMessage, map_append, map_cons, map_nil]
    refine nodup_append.mpr ⟨good.distinct, nodup_singleton _, ?_⟩
    intro id member other last
    rw [mem_singleton.mp last]
    exact (good.past id member).ne
  · intro id member
    simp only [PipeEnd.queueMessage, map_append, map_cons,
      map_nil, mem_append, mem_singleton] at member
    rcases member with member | rfl
    · exact (good.past id member).trans (Nat.lt_succ_self _)
    · exact Nat.lt_succ_self _
  · rcases good.settled with empty | served
    · refine serves.right ?_ good.right
      simp [PipeEnd.queueMessage, empty]
    · exact allRight_reselect_of_settled flowing (.inr served) good.right

theorem PipeEnd.Good.write (messageMode : Bool) (data : Buffer) :
    (pipeEnd.write messageMode next data).Good (next + 1) := by
  unfold PipeEnd.write
  split
  · rename_i empty
    refine { good.mono (Nat.le_succ next) with
      flowing := { good.flowing with stream := ?_ }, right := ?_ }
    · rw [received_append]
      simpa [received] using good.flowing.stream
    · simpa [PipeEnd.AllRight, or_imp, forall_and, Event.Right, empty.2] using good.right
  · exact good.queueMessage data true true

theorem PipeEnd.Good.reselectWriteQueue :
    pipeEnd.reselectWriteQueue.Good next := by
  have flowing := flowing_wakeWrites (by rw [good.flowing.filter_stands]; exact good.flowing.stream)
    good.flowing.reads good.flowing.sound
  have settled := settled_wakeWrites good.settled
  rw [PipeEnd.reselectWriteQueue, reselect_of_settled settled]
  exact ⟨flowing, settled, good.distinct, good.past, allRight_wakeWrites_iff.mpr good.right⟩

/-- A queued message is the only one of its request. -/
theorem PipeEnd.Good.waitsFor_eq {first : Message} (queued : first ∈ pipeEnd.messageQueue)
    (waits : first.waitsFor id) {message : Message} (member : message ∈ pipeEnd.messageQueue) :
    message.waitsFor id = decide (message.id = id) := by
  have firstId : first.id = id := by
    simp only [waitsFor, Bool.and_eq_true, decide_eq_true_eq] at waits
    exact waits.1.1
  have distinct : (pipeEnd.messageQueue.map Message.id).Nodup := by
    have sublist := good.flowing.stream.ids_sublist
    rw [map_map] at sublist
    exact good.distinct.sublist sublist
  by_cases same : message.id = id
  · have equal : message = first :=
      inj_on_of_nodup_map distinct member queued (same.trans firstId.symm)
    rw [decide_eq_true same, equal, waits]
  · simp [waitsFor, same]

/-- The message of a cancelled write as the cancellation leaves it. -/
def Message.cancel (id : Nat) (message : Message) : Message :=
  if message.waitsFor id then { message with status := .cancelled }
  else message

omit good in
theorem Message.chunk_cancel (message : Message) : (message.cancel id).chunk = message.chunk := by
  unfold cancel
  split <;> rfl

/-- The messages that stand after a cancellation are those of other writes. -/
theorem PipeEnd.Good.chunks_cancel {first : Message} (queued : first ∈ pipeEnd.messageQueue)
    (waits : first.waitsFor id) :
    ((pipeEnd.messageQueue.map (Message.cancel id)).filter Message.stands).map Message.chunk =
      (pipeEnd.messageQueue.map Message.chunk).filter fun chunk => chunk.id ≠ id := by
  rw [filter_map, filter_map, map_map]
  have chunks : Message.chunk ∘ Message.cancel id = Message.chunk := funext Message.chunk_cancel
  rw [chunks]
  congr 1
  refine filter_congr fun message member => ?_
  have stands : message.stands = true := by
    have all := good.flowing.filter_stands
    exact filter_eq_self.mp all message member
  have waiting := good.waitsFor_eq queued waits member
  show (message.cancel id).stands = decide (message.id ≠ id)
  by_cases same : message.id = id
  · rw [decide_eq_true same] at waiting
    have async : message.async = true := by
      simp only [Message.waitsFor, Bool.and_eq_true] at waiting
      exact waiting.1.2
    simp [Message.cancel, waiting, Message.stands, async, same]
  · simp [Message.cancel, waiting, stands, same]

theorem PipeEnd.Good.cancelWrite (id : Nat) : (pipeEnd.cancelWrite id).Good next := by
  unfold PipeEnd.cancelWrite
  split
  · rename_i pending
    rcases any_eq_true.mp pending with ⟨first, queued, waits⟩
    let cancelled : PipeEnd :=
      { pipeEnd with
        messageQueue := pipeEnd.messageQueue.map (Message.cancel id)
        sent := leaveOut id (received pipeEnd.log).length pipeEnd.sent }
    show cancelled.reselectWriteQueue.Good next
    have sentId : id ∈ (pipeEnd.messageQueue.map Message.chunk).map Chunk.id := by
      rw [map_map]
      have same := good.waitsFor_eq queued waits queued
      rw [waits, eq_comm, decide_eq_true_eq] at same
      exact mem_map.mpr ⟨first, queued, same⟩
    have stream := good.flowing.stream.withdraw good.distinct sentId
    rw [← good.chunks_cancel queued waits] at stream
    have flowing : cancelled.wakeWrites.Flowing :=
      flowing_wakeWrites stream good.flowing.reads good.flowing.sound
    have settled : cancelled.Settled := by
      refine good.settled.imp_left fun empty => ?_
      rw [empty] at queued
      contradiction
    rw [PipeEnd.reselectWriteQueue, reselect_of_settled (settled_wakeWrites settled)]
    refine ⟨flowing, settled_wakeWrites settled, ?_, ?_, allRight_wakeWrites_iff.mpr good.right⟩
    · show ((leaveOut _ _ _).map Prod.fst).Nodup
      rw [map_fst_leaveOut]
      exact good.distinct
    · show ∀ other ∈ (leaveOut _ _ _).map Prod.fst, other < next
      rw [map_fst_leaveOut]
      exact good.past
  · exact good

end

/-! ## The pair -/

/-- Both ends are good. -/
def Pipe.Good (pipe : Pipe) : Prop := ∀ side, (pipe.ends side).Good pipe.next

/--
For both ends: the bytes returned by completed reads are a prefix of those
written, without the unread rest of cancelled writes; every completed request
reports what it should; and nothing went wrong.
-/
def Pipe.Delivers (pipe : Pipe) : Prop := ∀ side,
    received (pipe.ends side).log <+: content (pipe.ends side).sent ∧
      (pipe.ends side).AllRight ∧ (pipe.ends side).fault = false

/-- A read of an end in byte mode fits; other requests are free. -/
def Pipe.ReadFits (pipe : Pipe) : Request → Prop
  | .read side size => (pipe.ends side).messageStreamRead ∨ Fits (pipe.ends side).messageQueue size
  | _ => True

theorem Pipe.Good.delivers (good : pipe.Good) :
    pipe.Delivers := fun side =>
  ⟨⟨_, (good side).flowing.stream.append_rest⟩, (good side).right, (good side).flowing.sound⟩

variable {messageMode : Bool}

theorem good_connect (messageStreamRead : Side → Bool) (bufferSize : Side → DataSize) :
    (connect messageMode messageStreamRead bufferSize).Good := fun _ =>
  good_fresh _ _

/-- A change of one end that leaves it good. -/
theorem good_atEnd (good : ∀ side, (pipe.ends side).Good next) {side : Side}
    {change : PipeEnd → PipeEnd} (changed : (change (pipe.ends side)).Good next) :
    ∀ side', ((pipe.atEnd side change).ends side').Good next := by
  intro side'
  by_cases same : side' = side
  · subst same
    simpa [atEnd] using changed
  · simpa [atEnd, same] using good side'

theorem Pipe.Good.transceive (good : pipe.Good) (side : Side) (data : Buffer) (outSize : DataSize) :
    ∀ side', ((pipe.transceive side data outSize).ends side').Good (pipe.next + 1) := by
  have later : ∀ side', (pipe.ends side').Good (pipe.next + 1) :=
    fun side' => (good side').mono (Nat.le_succ _)
  unfold Pipe.transceive
  split
  · rename_i allowed
    have apart : side ≠ side.other := by cases side <;> decide
    refine good_atEnd (good_atEnd later ?_) ?_
    · exact (good side.other).queueMessage _ false false
    · simp only [Pipe.atEnd, Function.update_of_ne apart]
      exact (later side).read _ (.inl allowed.1)
  · exact later

/-- One request keeps a pair good, unless it is a read that does not fit. -/
theorem Pipe.Good.step (good : pipe.Good) {request : Request} (fits : pipe.ReadFits request) :
    (pipe.step request).Good := by
  have later : ∀ side', (pipe.ends side').Good (pipe.next + 1) :=
    fun side' => (good side').mono (Nat.le_succ _)
  show ∀ side, ((pipe.handle request).ends side).Good (pipe.next + 1)
  cases request with
  | write side data =>
    rw [handle]
    refine good_atEnd later ?_
    exact (good side.other).write _ data
  | read side size =>
    rw [handle]
    refine good_atEnd later ?_
    exact (later side).read _ fits
  | transceive side data outSize enough => exact good.transceive side data outSize
  | peek side replySize => exact later
  | cancel id => exact fun side => ((later side).cancelRead id).cancelWrite id
  | finishRead side id =>
    rw [handle]
    refine good_atEnd later ?_
    exact (later side).finishRead _
  | finishWrite side => exact good_atEnd later (later side).reselectWriteQueue

/-- A read that does not fit returns the wrong number of bytes. -/
theorem Pipe.Good.readFits_of_delivers (good : pipe.Good) {request : Request}
    (delivers : (pipe.step request).Delivers) : pipe.ReadFits request := by
  cases request with
  | read side size =>
    have right := (delivers side).2.1
    simp only [Pipe.step, Pipe.handle, Pipe.atEnd, Function.update_self] at right
    exact (allRight_read_iff (good side) _).mp right
  | _ => trivial

/--
A connected pair delivers in order, completely and once, exactly as long as
every read in byte mode fits.
-/
theorem pipe_delivers_iff_readFits (messageMode : Bool) (messageStreamRead : Side → Bool)
    (bufferSize : Side → DataSize) (requests : List Request) :
    Visits Pipe.step Pipe.Delivers (connect messageMode messageStreamRead bufferSize) requests ↔
      Along Pipe.step Pipe.ReadFits (connect messageMode messageStreamRead bufferSize) requests :=
  @visits_iff_along _ _ Pipe.step Pipe.Good Pipe.Delivers Pipe.ReadFits _
    (fun _ => Pipe.Good.delivers)
    (fun _ _ good fits => good.step fits)
    (fun _ _ good delivers => good.readFits_of_delivers delivers)
    (good_connect messageStreamRead bufferSize) requests

/-! ## A read that counts past 32 bits -/

/-- Without a read that waits, a written message stays in the queue. -/
theorem chunks_write (good : pipeEnd.Good next) (idle : pipeEnd.readQ = []) (messageMode : Bool)
    {data : Buffer} (some : data.size ≠ 0) :
    (pipeEnd.write messageMode next data).messageQueue.map Message.chunk =
      pipeEnd.messageQueue.map Message.chunk ++ [⟨next, data.bytes, 0⟩] ∧
      (pipeEnd.write messageMode next data).readQ = [] := by
  have flowing := good.flowing.queueMessage next data true
  have settled : (pipeEnd.queueMessage next data true).Settled := by
    right
    simp [queueMessage, idle]
  have chunks : (pipeEnd.queueMessage next data true).messageQueue.map Message.chunk =
      pipeEnd.messageQueue.map Message.chunk ++ [⟨next, data.bytes, 0⟩] :=
    map_append
  rw [write, if_neg (fun empty => some empty.2)]
  rcases reselectReadQueue_cases flowing with ⟨_, rfl, same | same⟩
  all_goals
    rw [same, serveReads_of_settled settled]
  · exact ⟨chunks, idle⟩
  · refine ⟨?_, idle⟩
    rw [(PipeEnd.wakes _).chunks, flowing.filter_stands, chunks]

theorem messageStreamRead_write (good : pipeEnd.Good next) (data : Buffer) :
    (pipeEnd.write messageMode next data).messageStreamRead = pipeEnd.messageStreamRead := by
  unfold write
  split
  · rfl
  · exact (serves_reselectReadQueue (good.flowing.queueMessage next data true) true).mode

/-- A buffer of zeros. -/
def Buffer.zeros (size : DataSize) : Buffer where
  bytes := replicate size.val 0
  small := by
    rw [length_replicate]
    exact size.isLt

theorem Buffer.size_zeros (size : DataSize) : (Buffer.zeros size).size = size.val :=
  length_replicate

/-- A pipe of byte type right after the connection. -/
def bytePipe : Pipe := connect false (fun _ => false) (fun _ => 0)

/-- The pipe after two writes of the server end. -/
def writtenTwice (first second : DataSize) : Pipe := run Pipe.step bytePipe
    [.write .server (.zeros first), .write .server (.zeros second)]

theorem good_writtenTwice (first second : DataSize) : (writtenTwice first second).Good := by
  have start : bytePipe.Good := good_connect _ _
  have once : bytePipe.ReadFits (.write .server (.zeros first)) := trivial
  have twice : (bytePipe.step (.write .server (.zeros first))).ReadFits
      (.write .server (.zeros second)) := trivial
  exact (start.step once).step twice

section WrittenTwice

variable (first second : DataSize)

private theorem good_client : (bytePipe.ends .client).Good 0 := good_connect _ _ .client

theorem messageStreamRead_writtenTwice :
    ((writtenTwice first second).ends .client).messageStreamRead = false :=
  (messageStreamRead_write (good_client.write _ _) _).trans (messageStreamRead_write good_client _)

/-- Both messages wait for a read of the client end. -/
theorem lefts_writtenTwice (some : first.val ≠ 0) (more : second.val ≠ 0) :
    (((writtenTwice first second).ends .client).messageQueue.map
      Message.left) = [first.val, second.val] := by
  have once := chunks_write good_client rfl false (Buffer.size_zeros first ▸ some)
  have twice := (chunks_write (good_client.write false (.zeros first)) once.2
    false (Buffer.size_zeros second ▸ more)).1
  rw [once.1] at twice
  have lefts (queue : List Message) : queue.map Message.left =
        (queue.map Message.chunk).map fun chunk => chunk.rest.length := by
    rw [map_map]
    exact map_congr_left fun message _ => message.length_unread.symm
  rw [lefts]
  refine (congrArg (map fun chunk => chunk.rest.length) twice).trans ?_
  simp [Chunk.rest, Buffer.zeros, bytePipe, connect, fresh]

end WrittenTwice

/--
The client end reads 4294967295 bytes where the server end wrote 4294967294
and then 3: the read returns one byte.
-/
theorem write_write_read_truncated : ¬ Visits Pipe.step Pipe.Delivers bytePipe
      [.write .server (.zeros 0xfffffffe), .write .server (.zeros 3),
        .read .client 0xffffffff] := by
  intro visits
  have fits := (good_writtenTwice 0xfffffffe 3).readFits_of_delivers visits.2.2.2
  have lefts := lefts_writtenTwice 0xfffffffe 3 (by decide) (by decide)
  rw [Pipe.ReadFits, messageStreamRead_writtenTwice] at fits
  rcases fits with mode | few | ⟨count, enough⟩
  · exact Bool.false_ne_true mode
  · rw [unreadSize, lefts] at few
    exact absurd few (by decide)
  · rw [unreadSize, map_take, lefts] at enough
    rcases count with _ | _ | more
    · exact absurd enough (by decide)
    · exact absurd enough (by decide)
    · rw [take_of_length_le (Nat.le_add_left 2 more)] at enough
      exact absurd enough (by decide)

end WineRedRose.Pipes
