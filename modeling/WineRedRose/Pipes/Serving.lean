import WineRedRose.Pipes.Model

/-!
# Serving one end of a pipe

What the functions of the model do to one end: copying takes the unread bytes
from the front of the queue, waking the writes changes no bytes, and after a
reselect no read waits next to a message.
-/

namespace WineRedRose.Pipes

open Library.Chunks List Message PipeEnd

/-! ## What is said about an end -/

/-- A message as a chunk of the stream. -/
def Message.chunk (message : Message) : Chunk Nat UInt8 :=
  ⟨message.id, message.inData.bytes, message.readPos⟩

/-- The number of unread bytes in a queue. -/
def unreadSize (queue : List Message) : Nat := (queue.map Message.left).sum

/--
A read of this size in byte mode asks for more than is unread, or the bytes
of some first messages of the queue suffice for it when they are counted in
32 bits.
-/
def Fits (queue : List Message) (size : Nat) : Prop := unreadSize queue < size ∨
    ∃ count, size ≤ unreadSize (queue.take count) % 2 ^ 32

/--
A completed write reports its length.  A read in message mode returns bytes
of the first message, and an overflow exactly if it leaves some; a read in
byte mode returns as many bytes as it asked for or there were.
-/
def Event.Right (messageStreamRead : Bool) : Event → Prop
  | .write _ data result => result = data.size
  | .read _ requested queue status data =>
    if messageStreamRead then
      ∃ head ∈ queue.head?, data = head.unread.take requested ∧
          (status = .bufferOverflow ↔ data.length < head.left)
    else data.length = min requested.val (unreadSize queue)

def PipeEnd.AllRight (pipeEnd : PipeEnd) : Prop :=
  ∀ event ∈ pipeEnd.log, event.Right pipeEnd.messageStreamRead

/-- No read waits while there is a message. -/
def PipeEnd.Settled (pipeEnd : PipeEnd) : Prop :=
  pipeEnd.messageQueue = [] ∨ ∀ async ∈ pipeEnd.readQ, async.terminated

/-- Bytes arrive in order, and flags and statuses of requests agree. -/
structure PipeEnd.Flowing (pipeEnd : PipeEnd) : Prop where
  stream : Stream (received pipeEnd.log) pipeEnd.sent (pipeEnd.messageQueue.map Message.chunk)
  writes : ∀ message ∈ pipeEnd.messageQueue, message.async → message.status = .pending
  reads : ∀ async ∈ pipeEnd.readQ, async.terminated = false → async.status = .pending
  sound : pipeEnd.fault = false

/-! ## Sizes -/

theorem Message.length_unread (message : Message) : message.unread.length = message.left :=
  length_drop

theorem Message.left_lt (message : Message) : message.left < 2 ^ 32 :=
  (Nat.sub_le _ _).trans_lt message.inData.small

@[simp]
theorem unreadSize_nil : unreadSize [] = 0 := rfl

variable {queue : List Message}

@[simp]
theorem unreadSize_cons (message : Message) (queue : List Message) :
    unreadSize (message :: queue) = message.left + unreadSize queue := by
  simp [unreadSize]

theorem length_flatMap_unread (queue : List Message) :
    (queue.flatMap Message.unread).length = unreadSize queue := by
  induction queue with
  | nil => rfl
  | cons message queue ih => rw [flatMap_cons, length_append, ih, length_unread, unreadSize_cons]

theorem unreadSize_take_le (count : Nat) : unreadSize (queue.take count) ≤ unreadSize queue := by
  induction queue generalizing count with
  | nil => rw [take_nil]
  | cons message queue ih =>
    cases count with
    | zero => exact Nat.zero_le _
    | succ count =>
      rw [take_succ_cons, unreadSize_cons, unreadSize_cons]
      exact Nat.add_le_add_left (ih count) _

/-! ## Adding up what can be read -/

/--
The loop stops with enough bytes if some first messages, counted in 32 bits,
have enough; otherwise it ends with all bytes, counted in 32 bits.
-/
theorem availableFor_cases {outSize avail : Nat} (small : avail < 2 ^ 32) (less : avail < outSize) :
    (outSize ≤ availableFor outSize avail queue ∧
        ∃ count, outSize ≤ (avail + unreadSize (queue.take count)) % 2 ^ 32) ∨
      (availableFor outSize avail queue = (avail + unreadSize queue) % 2 ^ 32 ∧
        ∀ count, (avail + unreadSize (queue.take count)) % 2 ^ 32 < outSize) := by
  have whole : avail % 2 ^ 32 = avail := Nat.mod_eq_of_lt small
  induction queue generalizing avail with
  | nil =>
    right
    simp only [availableFor, take_nil, unreadSize_nil, Nat.add_zero, whole]
    exact ⟨trivial, fun _ => less⟩
  | cons message queue ih =>
    -- what the counter holds after the first message
    have shift (rest : Nat) : ((avail + message.left) % 2 ^ 32 + rest) % 2 ^ 32 =
          (avail + (message.left + rest)) % 2 ^ 32 := by
      omega
    rw [availableFor]
    by_cases enough : outSize ≤ (avail + message.left) % 2 ^ 32
    · left
      rw [if_pos enough]
      exact ⟨enough, 1, by simpa using enough⟩
    · rw [if_neg enough]
      rcases ih (Nat.mod_lt _ (by decide)) (Nat.lt_of_not_le enough) (Nat.mod_mod _ _) with
        ⟨reached, count, sum⟩ | ⟨all, none⟩
      · left
        refine ⟨reached, count + 1, ?_⟩
        rwa [take_succ_cons, unreadSize_cons, ← shift]
      · right
        refine ⟨by rw [all, unreadSize_cons, shift], fun count => ?_⟩
        cases count with
        | zero =>
          rw [take_zero, unreadSize_nil, Nat.add_zero, whole]
          exact less
        | succ count =>
          rw [take_succ_cons, unreadSize_cons, ← shift]
          exact none count

theorem availableFor_le (outSize avail : Nat) (queue : List Message) :
    availableFor outSize avail queue ≤ avail + unreadSize queue := by
  induction queue generalizing avail with
  | nil => exact Nat.le_refl _
  | cons message queue ih =>
    have later := ih ((avail + message.left) % 2 ^ 32)
    rw [availableFor, unreadSize_cons]
    split <;> omega

/-- Byte mode returns the right number of bytes exactly if the read fits. -/
theorem min_availableFor_iff {outSize : Nat} (small : outSize < 2 ^ 32) :
    min outSize (availableFor outSize 0 queue) = min outSize (unreadSize queue) ↔
      Fits queue outSize := by
  rcases Nat.eq_zero_or_pos outSize with rfl | positive
  · simp [Fits]
  · rcases availableFor_cases (by decide) positive with ⟨reached, count, sum⟩ | ⟨all, none⟩
    · rw [Nat.zero_add] at sum
      have enough : outSize ≤ unreadSize queue :=
        sum.trans ((Nat.mod_le _ _).trans (unreadSize_take_le count))
      rw [Nat.min_eq_left reached, Nat.min_eq_left enough]
      exact ⟨fun _ => .inr ⟨count, sum⟩, fun _ => rfl⟩
    · simp only [Nat.zero_add] at all none
      have short : unreadSize queue % 2 ^ 32 < outSize := by simpa using none queue.length
      rw [all, Nat.min_eq_right short.le]
      constructor
      · intro same
        left
        omega
      · rintro (less | ⟨count, sum⟩)
        · rw [Nat.mod_eq_of_lt (less.trans small), Nat.min_eq_right less.le]
        · exact absurd sum (Nat.not_le.mpr (none count))

variable {size : Nat}

theorem fits_nil : Fits [] size := by
  rcases Nat.eq_zero_or_pos size with rfl | positive
  · exact .inr ⟨0, Nat.le_refl 0⟩
  · exact .inl positive

/-- With one message the counter does not wrap. -/
theorem fits_singleton (message : Message) : Fits [message] size := by
  have small := message.left_lt
  by_cases less : message.left < size
  · exact .inl (by simpa using less)
  · right
    refine ⟨1, ?_⟩
    rw [take_succ_cons, take_nil, unreadSize_cons, unreadSize_nil,
      Nat.add_zero, Nat.mod_eq_of_lt small]
    exact Nat.le_of_not_lt less

variable {queue rest : List Message} {wanted : Nat} {message head : Message} {pipeEnd : PipeEnd}
variable {async : Async}

theorem fits_of_length_le_one (short : queue.length ≤ 1) : Fits queue size := by
  match queue with
  | [] => exact fits_nil
  | [message] => exact fits_singleton message
  | _ :: _ :: _ => simp at short

/-! ## Waking a write -/

variable {log : List Event}

theorem received_append (log' : List Event) :
    received (log ++ log') = received log ++ received log' :=
  flatMap_append

@[simp]
theorem received_wakeMessage (log : List Event) (message : Message) (result : Nat) :
    received (wakeMessage log message result) = received log := by
  unfold wakeMessage
  split
  · simp [received]
  · rfl

theorem right_wakeMessage_iff (mode : Bool) (log : List Event) (message : Message) :
    (∀ event ∈ wakeMessage log message message.inSize, event.Right mode) ↔
      ∀ event ∈ log, event.Right mode := by
  unfold wakeMessage
  split
  · simp [or_imp, forall_and, Event.Right, inSize]
  · exact Iff.rfl

/-! ## Copying -/

theorem Message.chunk_advance (message : Message) (limit : Nat) : (message.advance limit).chunk =
      ⟨message.chunk.id, message.chunk.data, message.chunk.pos + min limit message.left⟩ :=
  rfl

theorem Message.rest_chunk (message : Message) : message.chunk.rest = message.unread := rfl

/-- The message is read to its end exactly if the buffer holds the rest. -/
theorem Message.readPos_advance_eq_iff (message : Message) (limit : Nat) :
    (message.advance limit).readPos = message.inSize ↔ message.left ≤ limit := by
  have within : message.readPos ≤ message.inSize := message.within
  show message.readPos + min limit message.left = message.inSize ↔ _
  unfold left
  omega

/-- What the copying loop does when the queue holds enough bytes. -/
structure Copies
    (queue : List Message) (log : List Event) (wanted : Nat)
    (copied : Copied) : Prop where
  sound : copied.fault = false
  buf : copied.buf = (queue.flatMap Message.unread).take wanted
  received : received copied.log = received log
  stream : ∀ (got : List UInt8) (sent : List (Nat × List UInt8)),
    Stream got sent (queue.map Message.chunk) →
      Stream (got ++ copied.buf) sent (copied.queue.map Message.chunk)
  writes : (∀ message ∈ queue, message.async → message.status = .pending) →
    ∀ message ∈ copied.queue, message.async → message.status = .pending
  shorter : copied.queue.length ≤ queue.length
  right : ∀ mode, (∀ event ∈ copied.log, event.Right mode) ↔ ∀ event ∈ log, event.Right mode

theorem copies_partial (message : Message) (queue : List Message) (log : List Event)
    (less : wanted < message.left) :
    Copies (message :: queue) log wanted
      ⟨message.unread.take wanted, message.advance wanted :: queue, log, false⟩ where
  sound := rfl
  buf := by
    rw [flatMap_cons, take_append_of_le_length]
    rw [length_unread]
    exact less.le
  received := rfl
  stream got sent stream := by
    have taken := Stream.take stream wanted
    rw [map_cons, chunk_advance, Nat.min_eq_left less.le]
    exact taken
  writes all := by
    rintro message' (_ | ⟨_, member⟩)
    · exact all message (mem_cons_self ..)
    · exact all message' (mem_cons_of_mem _ member)
  shorter := Nat.le_refl _
  right _ := Iff.rfl

/-- The whole rest of the first message is read. -/
theorem stream_whole {got : List UInt8} {sent : List (Nat × List UInt8)}
    (stream : Stream got sent ((message :: queue).map Message.chunk)) :
    Stream (got ++ message.unread) sent (queue.map Message.chunk) := by
  have taken := Stream.take stream message.left
  rw [rest_chunk, ← length_unread, take_length] at taken
  refine taken.finish ?_
  have within : message.readPos ≤ message.inData.bytes.length := message.within
  show message.readPos + message.unread.length = message.inData.bytes.length
  rw [unread, length_drop]
  omega

theorem copies_whole (message : Message) (queue : List Message) (log : List Event) :
    Copies (message :: queue) log message.left
      ⟨message.unread, queue, wakeMessage log message message.inSize, false⟩ where
  sound := rfl
  buf := by rw [flatMap_cons, ← length_unread, take_left]
  received := received_wakeMessage ..
  stream _ _ stream := stream_whole stream
  writes all message' member := all message' (mem_cons_of_mem _ member)
  shorter := Nat.le_succ _
  right mode := right_wakeMessage_iff mode log message

theorem Copies.cons {log : List Event} {copied : Copied}
    (copies : Copies queue (wakeMessage log message message.inSize) (wanted - message.left) copied)
    (more : message.left < wanted) :
    Copies (message :: queue) log wanted
      { copied with buf := message.unread ++ copied.buf } where
  sound := copies.sound
  buf := by
    have split : wanted = message.unread.length + (wanted - message.left) := by
      rw [length_unread]
      omega
    rw [flatMap_cons, copies.buf]
    conv_rhs => rw [split]
    rw [take_length_add_append]
  received := copies.received.trans (received_wakeMessage ..)
  stream got sent stream := by
    rw [← append_assoc]
    exact copies.stream _ _ (stream_whole stream)
  writes all := copies.writes fun message' member => all message' (mem_cons_of_mem _ member)
  shorter := copies.shorter.trans (Nat.le_succ _)
  right mode := (copies.right mode).trans (right_wakeMessage_iff mode log message)

/-- The loop copies the bytes at the front of the queue. -/
theorem copies_copyMessages (nonempty : queue ≠ []) (log : List Event)
    (enough : wanted ≤ unreadSize queue) :
    Copies queue log wanted (copyMessages log wanted queue) := by
  induction queue generalizing log wanted with
  | nil => contradiction
  | cons message queue ih =>
    have whole : message.unread.take message.left = message.unread := by
      rw [← length_unread, take_length]
    rw [copyMessages]
    rcases lt_trichotomy wanted message.left with less | same | more
    · have unfinished : ¬ (message.advance wanted).readPos = message.inSize := by
        rw [readPos_advance_eq_iff]
        exact Nat.not_le.mpr less
      rw [if_neg unfinished, Nat.min_eq_left less.le]
      exact copies_partial message queue log less
    · subst same
      rw [if_pos ((message.readPos_advance_eq_iff _).mpr le_rfl), Nat.min_self,
        if_neg (Nat.lt_irrefl _), whole]
      exact copies_whole message queue log
    · have finished := (message.readPos_advance_eq_iff wanted).mpr more.le
      rw [unreadSize_cons] at enough
      rw [if_pos finished, Nat.min_eq_right more.le, if_pos more, whole]
      refine Copies.cons (ih ?_ _ (by omega)) more
      rintro rfl
      rw [unreadSize_nil] at enough
      omega

/-! ## One read -/

/-- `message_queue_read` never asks for more than there is. -/
theorem readResult_le (pipeEnd : PipeEnd) (async : Async)
    (queued : pipeEnd.messageQueue = head :: rest) :
    (pipeEnd.readResult async head).1 ≤ unreadSize (head :: rest) := by
  unfold readResult
  split
  · rw [unreadSize_cons]
    exact (Nat.min_le_right _ _).trans (Nat.le_add_right _ _)
  · have most := availableFor_le async.outSize 0 pipeEnd.messageQueue
    rw [Nat.zero_add, queued] at most
    rw [queued]
    exact (Nat.min_le_right _ _).trans most

/-- The event of a served read is right exactly if the read fits. -/
theorem right_read_iff (pipeEnd : PipeEnd) (async : Async)
    (queued : pipeEnd.messageQueue = head :: rest) :
    (Event.read async.id async.outSize (head :: rest) (pipeEnd.readResult async head).2
        (((head :: rest).flatMap Message.unread).take (pipeEnd.readResult async head).1)).Right
        pipeEnd.messageStreamRead ↔
      (pipeEnd.messageStreamRead ∨ Fits pipeEnd.messageQueue async.outSize) := by
  have total := length_flatMap_unread (head :: rest)
  cases mode : pipeEnd.messageStreamRead with
  | true =>
    have front : ((head :: rest).flatMap Message.unread).take (min async.outSize.val head.left) =
        head.unread.take async.outSize := by
      rw [flatMap_cons, take_append_of_le_length, ← length_unread, ← take_eq_take_min]
      rw [length_unread]
      exact Nat.min_le_right _ _
    simp only [Event.Right, readResult, mode, if_true, true_or, iff_true, front]
    refine ⟨head, rfl, rfl, ?_⟩
    rw [length_take, length_unread]
    unfold left
    split <;> simp <;> omega
  | false =>
    rw [← min_availableFor_iff async.outSize.isLt, queued]
    simp only [Event.Right, readResult, mode, queued,
      length_take, total, Bool.false_eq_true, if_false, false_or]
    have bound := availableFor_le async.outSize 0 (head :: rest)
    rw [Nat.zero_add] at bound
    rw [Nat.min_eq_left ((Nat.min_le_right _ _).trans bound)]

/-- What serving one read does to an end. -/
structure Served
    (pipeEnd : PipeEnd) (async : Async) (pipeEnd' : PipeEnd) : Prop where
  flowing : pipeEnd'.Flowing
  mode : pipeEnd'.messageStreamRead = pipeEnd.messageStreamRead
  sent : pipeEnd'.sent = pipeEnd.sent
  readQ : ∃ status, pipeEnd'.readQ = pipeEnd.readQ.map fun other =>
      if other.id = async.id then other.terminate status else other
  shorter : pipeEnd'.messageQueue.length ≤ pipeEnd.messageQueue.length
  right : pipeEnd'.AllRight ↔ pipeEnd.AllRight ∧ (pipeEnd.messageStreamRead ∨
      Fits pipeEnd.messageQueue async.outSize)

theorem Async.terminated_terminate (async : Async) (status : Status) :
    (async.terminate status).terminated = true := by
  unfold Async.terminate
  split
  · assumption
  · rfl

/-- Terminating requests leaves no pending one with another status. -/
theorem reads_map_terminate {queue : List Async}
    (reads : ∀ async ∈ queue, async.terminated = false → async.status = .pending) (id : Nat)
    (status : Status) :
    ∀ async ∈ queue.map fun other =>
        if other.id = id then other.terminate status else other,
      async.terminated = false → async.status = .pending := by
  intro async member alive
  rw [mem_map] at member
  rcases member with ⟨other, member, rfl⟩
  by_cases same : other.id = id
  · rw [if_pos same, Async.terminated_terminate] at alive
    contradiction
  · rw [if_neg same] at alive ⊢
    exact reads other member alive

/-- In the fast path the first message is read whole. -/
theorem readResult_of_fast (pipeEnd : PipeEnd) (async : Async)
    (queued : pipeEnd.messageQueue = head :: rest) (unread : head.readPos = 0)
    (same : head.inSize = async.outSize.val) : (pipeEnd.readResult async head).1 = head.left := by
  have left : head.left = async.outSize.val := by rw [left, unread, Nat.sub_zero, same]
  have small := head.left_lt
  unfold readResult
  split
  · exact Nat.min_eq_right left.le
  · rw [queued, availableFor, Nat.zero_add, Nat.mod_eq_of_lt small, if_pos left.ge]
    exact Nat.min_eq_right left.le

theorem served_messageQueueRead (flowing : pipeEnd.Flowing) (nonempty : pipeEnd.messageQueue ≠ [])
    (pending : async.status = .pending) :
    Served pipeEnd async (pipeEnd.messageQueueRead async) := by
  cases queued : pipeEnd.messageQueue with
  | nil => contradiction
  | cons head rest =>
    have most := readResult_le pipeEnd async queued
    have right := right_read_iff pipeEnd async queued
    have fastSize := readResult_of_fast pipeEnd async queued
    have stream := flowing.stream
    have writes := flowing.writes
    have reads := reads_map_terminate flowing.reads async.id
    rw [queued] at stream writes
    generalize result : pipeEnd.readResult async head = outcome at most right fastSize
    rcases outcome with ⟨outSize, status⟩
    have still : ¬ async.status ≠ .pending := not_not.mpr pending
    by_cases fast : head.readPos = 0 ∧ head.inSize = async.outSize.val
    · obtain rfl : outSize = head.left := fastSize fast.1 fast.2
      have copies := copies_whole head rest pipeEnd.log
      have whole : head.inData.bytes.take head.left = head.unread := by
        rw [unread, fast.1, drop_zero, left, fast.1]
        exact take_length
      rw [← copies.buf] at right
      simp only [messageQueueRead, queued, result, if_pos fast,
        asyncRequestComplete, if_neg still, whole]
      refine
        { flowing := ⟨?_, copies.writes writes, reads status, flowing.sound⟩
          mode := rfl
          sent := rfl
          readQ := ⟨status, rfl⟩
          shorter := ?_
          right := ?_ }
      · rw [received_wakeMessage, received_append]
        simpa [received] using copies.stream _ _ stream
      · rw [queued]
        exact copies.shorter
      · refine (right_wakeMessage_iff _ _ head).trans ?_
        rw [← right]
        simp [PipeEnd.AllRight, or_imp, forall_and]
    · have copies := copies_copyMessages (cons_ne_nil head rest) pipeEnd.log most
      rw [← copies.buf] at right
      simp only [messageQueueRead, queued, result, if_neg fast, asyncRequestComplete, if_neg still]
      generalize copyMessages pipeEnd.log outSize (head :: rest) = copied at copies right
      refine
        { flowing := ⟨?_, copies.writes writes, reads status, ?_⟩
          mode := rfl
          sent := rfl
          readQ := ⟨status, rfl⟩
          shorter := ?_
          right := ?_ }
      · rw [received_append, copies.received]
        simpa [received] using copies.stream _ _ stream
      · rw [flowing.sound, copies.sound]
        rfl
      · rw [queued]
        exact copies.shorter
      · rw [← right, PipeEnd.AllRight, PipeEnd.AllRight, ← copies.right]
        simp [or_imp, forall_and]

/-! ## The loop over the reads -/

theorem findPendingAsync_some {queue : List Async} (found : findPendingAsync queue = some async) :
    async ∈ queue ∧ async.terminated = false := by
  have member := mem_of_find?_eq_some found
  have alive := find?_some found
  exact ⟨member, by simpa using alive⟩

theorem findPendingAsync_none_iff {queue : List Async} :
    findPendingAsync queue = none ↔ ∀ async ∈ queue, async.terminated := by
  simp [findPendingAsync]

/-- The number of reads that wait. -/
def waitingReads (queue : List Async) : Nat := queue.countP fun async => !async.terminated

theorem Served.waitingReads_lt {pipeEnd' : PipeEnd} (served : Served pipeEnd async pipeEnd')
    (member : async ∈ pipeEnd.readQ) (alive : async.terminated = false) :
    waitingReads pipeEnd'.readQ < waitingReads pipeEnd.readQ := by
  rcases served.readQ with ⟨status, terminated⟩
  have fewer (queue : List Async) : waitingReads (queue.map fun other =>
          if other.id = async.id then other.terminate status else other) ≤
        waitingReads queue := by
    rw [waitingReads, countP_map]
    refine countP_mono_left fun other _ => ?_
    by_cases same : other.id = async.id
    · simp [same, Async.terminated_terminate]
    · simp [same]
  rcases append_of_mem member with ⟨before, after, split⟩
  have first := fewer before
  have second := fewer after
  rw [terminated, split]
  simp only [waitingReads, map_append, map_cons, countP_append,
    countP_cons, if_true, Async.terminated_terminate, alive] at *
  simp only [Bool.not_true, Bool.false_eq_true, if_false, Bool.not_false, if_true]
  omega

/-- What the loop over the reads does to an end. -/
structure Serves (pipeEnd pipeEnd' : PipeEnd) : Prop where
  flowing : pipeEnd'.Flowing
  settled : pipeEnd'.Settled
  mode : pipeEnd'.messageStreamRead = pipeEnd.messageStreamRead
  sent : pipeEnd'.sent = pipeEnd.sent
  right : pipeEnd.messageQueue.length ≤ 1 → pipeEnd.AllRight → pipeEnd'.AllRight

theorem serveReads_of_settled (settled : pipeEnd.Settled) (fuel : Nat) :
    pipeEnd.serveReads (fuel + 1) = (pipeEnd, false) := by
  rw [serveReads]
  rcases settled with none | none
  · rw [none, isEmpty_nil, if_pos rfl]
  · rw [findPendingAsync_none_iff.mpr none]
    simp

/-- The loop ends, with every read served that there is a message for. -/
theorem serves_serveReads {fuel : Nat} (flowing : pipeEnd.Flowing)
    (enough : waitingReads pipeEnd.readQ < fuel) :
    Serves pipeEnd (pipeEnd.serveReads fuel).1 := by
  induction fuel generalizing pipeEnd with
  | zero => exact absurd enough (Nat.not_lt_zero _)
  | succ fuel ih =>
    by_cases settled : pipeEnd.Settled
    · rw [serveReads_of_settled settled]
      exact ⟨flowing, settled, rfl, rfl, fun _ => id⟩
    · rw [PipeEnd.Settled, not_or] at settled
      rcases settled with ⟨nonempty, waits⟩
      cases found : findPendingAsync pipeEnd.readQ with
      | none => exact absurd (findPendingAsync_none_iff.mp found) waits
      | some async =>
        rcases findPendingAsync_some found with ⟨member, alive⟩
        have served := served_messageQueueRead flowing nonempty (flowing.reads async member alive)
        have fewer := served.waitingReads_lt member alive
        have later := ih served.flowing (by omega)
        have notEmpty : ¬ pipeEnd.messageQueue.isEmpty = true := by rwa [List.isEmpty_iff]
        rw [serveReads, if_neg notEmpty, found]
        refine
          { flowing := later.flowing
            settled := later.settled
            mode := later.mode.trans served.mode
            sent := later.sent.trans served.sent
            right := fun short right => ?_ }
        exact later.right (served.shorter.trans short)
          (served.right.mpr ⟨right, .inr (fits_of_length_le_one short)⟩)

/-! ## Waking the writes -/

/-- The write that waits for the message, if any, was not cancelled. -/
def Message.stands (message : Message) : Bool := !message.async || message.status = .pending

theorem Message.stands_iff : message.stands ↔ (message.async → message.status = .pending) := by
  simp [stands, imp_iff_not_or]

/-- What the loop over the queued messages does. -/
structure Wakes
    (queue : List Message) (log : List Event)
    (outcome : List Message × List Event) : Prop where
  chunks : outcome.1.map Message.chunk = (queue.filter Message.stands).map Message.chunk
  writes : ∀ message ∈ outcome.1, message.async → message.status = .pending
  received : received outcome.2 = received log
  right : ∀ mode, (∀ event ∈ outcome.2, event.Right mode) ↔ ∀ event ∈ log, event.Right mode

/-- A message that stays in the queue, perhaps with its write completed. -/
theorem Wakes.keep {message' : Message} {log log' : List Event}
    {outcome : List Message × List Event} (wakes : Wakes queue log' outcome)
    (stands : message.stands) (chunk : message'.chunk = message.chunk)
    (write : message'.async → message'.status = .pending)
    (bytes : Pipes.received log' = Pipes.received log)
    (right : ∀ mode, (∀ event ∈ log', event.Right mode) ↔ ∀ event ∈ log, event.Right mode) :
    Wakes (message :: queue) log (message' :: outcome.1, outcome.2) where
  chunks := by rw [filter_cons_of_pos stands, map_cons, map_cons, wakes.chunks, chunk]
  writes := by
    rintro other (_ | ⟨_, member⟩)
    · exact write
    · exact wakes.writes other member
  received := wakes.received.trans bytes
  right mode := (wakes.right mode).trans (right mode)

theorem wakes_wakeWrites (bufferSize avail : Nat) (queue : List Message) (log : List Event) :
    Wakes queue log (wakeWrites bufferSize avail queue log) := by
  induction queue generalizing avail log with
  | nil => exact ⟨rfl, by simp [wakeWrites], rfl, fun _ => Iff.rfl⟩
  | cons message queue ih =>
    rw [wakeWrites]
    by_cases cancelled : message.async ∧ message.status ≠ .pending
    · have falls : ¬ message.stands := by simp [stands, cancelled]
      rw [if_pos cancelled]
      have wakes := ih avail log
      exact ⟨by rw [wakes.chunks, filter_cons_of_neg falls],
        wakes.writes, wakes.received, wakes.right⟩
    · have pending : message.async → message.status = .pending := by simpa using cancelled
      have stands : message.stands := stands_iff.mpr pending
      rw [if_neg cancelled]
      simp only
      split
      · refine Wakes.keep (ih _ _) stands rfl ?_ (received_wakeMessage ..)
          fun mode => right_wakeMessage_iff mode log message
        rintro ⟨⟩
      · exact Wakes.keep (ih _ _) stands rfl pending rfl fun _ => Iff.rfl

theorem PipeEnd.wakes (pipeEnd : PipeEnd) : Wakes pipeEnd.messageQueue pipeEnd.log
      (pipeEnd.wakeWrites.messageQueue, pipeEnd.wakeWrites.log) :=
  wakes_wakeWrites ..

/-- After the loop the messages of cancelled writes are gone. -/
theorem flowing_wakeWrites (stream : Stream (received pipeEnd.log) pipeEnd.sent
        ((pipeEnd.messageQueue.filter Message.stands).map Message.chunk))
    (reads : ∀ async ∈ pipeEnd.readQ, async.terminated = false → async.status = .pending)
    (sound : pipeEnd.fault = false) : pipeEnd.wakeWrites.Flowing := by
  refine ⟨?_, pipeEnd.wakes.writes, reads, sound⟩
  rw [pipeEnd.wakes.received, pipeEnd.wakes.chunks]
  exact stream

theorem allRight_wakeWrites_iff : pipeEnd.wakeWrites.AllRight ↔ pipeEnd.AllRight :=
  pipeEnd.wakes.right _

theorem settled_wakeWrites (settled : pipeEnd.Settled) :
    pipeEnd.wakeWrites.Settled := by
  refine settled.imp_left fun none => ?_
  have chunks := pipeEnd.wakes.chunks
  rw [none, filter_nil, map_nil, map_eq_nil_iff] at chunks
  exact chunks

theorem PipeEnd.Flowing.filter_stands (flowing : pipeEnd.Flowing) :
    pipeEnd.messageQueue.filter Message.stands = pipeEnd.messageQueue := by
  rw [filter_eq_self]
  exact fun message member => stands_iff.mpr (flowing.writes message member)

/-! ## Reselecting -/

/-- A settled end has nothing to serve. -/
theorem reselectReadQueue_of_settled (settled : pipeEnd.Settled) (fuel : Nat) :
    pipeEnd.reselectReadQueue (fuel + 1) false = pipeEnd := by
  rw [reselectReadQueue, serveReads_of_settled settled]
  simp

theorem reselect_of_settled (settled : pipeEnd.Settled) :
    pipeEnd.reselectReadQueue reselectDepth false = pipeEnd :=
  reselectReadQueue_of_settled settled 1

variable {reselectWrite : Bool}

/-- A reselect serves the reads, and then at most wakes the writes. -/
theorem reselectReadQueue_cases (flowing : pipeEnd.Flowing) :
    ∃ served, served = (pipeEnd.serveReads (pipeEnd.readQ.length + 1)).1 ∧
      (pipeEnd.reselectReadQueue reselectDepth reselectWrite = served ∨
        pipeEnd.reselectReadQueue reselectDepth reselectWrite = served.wakeWrites) := by
  have serves := serves_serveReads flowing (Nat.lt_succ_of_le countP_le_length)
  refine ⟨_, rfl, ?_⟩
  rw [reselectDepth, reselectReadQueue]
  generalize pipeEnd.serveReads (pipeEnd.readQ.length + 1) = outcome at *
  have last := reselectReadQueue_of_settled (settled_wakeWrites serves.settled) 0
  simp only
  split
  · exact .inl rfl
  · split
    · exact .inr last
    · exact .inl rfl

/-- What a reselect does to an end. -/
theorem serves_reselectReadQueue (flowing : pipeEnd.Flowing) (reselectWrite : Bool) :
    Serves pipeEnd (pipeEnd.reselectReadQueue reselectDepth reselectWrite) := by
  rcases reselectReadQueue_cases flowing with ⟨served, rfl, same | same⟩
  all_goals
    have serves := serves_serveReads flowing (Nat.lt_succ_of_le countP_le_length)
    rw [same]
  · exact serves
  · have later := flowing_wakeWrites
      (by rw [serves.flowing.filter_stands]; exact serves.flowing.stream)
      serves.flowing.reads serves.flowing.sound
    exact ⟨later, settled_wakeWrites serves.settled, serves.mode, serves.sent,
      fun short right => allRight_wakeWrites_iff.mpr (serves.right short right)⟩

/--
An end whose reads are all served is not read by a reselect, which then keeps
the log right.
-/
theorem allRight_reselect_of_settled (flowing : pipeEnd.Flowing) (settled : pipeEnd.Settled)
    (right : pipeEnd.AllRight) :
    (pipeEnd.reselectReadQueue reselectDepth reselectWrite).AllRight := by
  rcases reselectReadQueue_cases flowing with ⟨served, rfl, same | same⟩
  all_goals
    rw [same, serveReads_of_settled settled]
  · exact right
  · exact allRight_wakeWrites_iff.mpr right

end WineRedRose.Pipes
