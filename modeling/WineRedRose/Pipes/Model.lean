import WineRedRose.Library.Chunks
import WineRedRose.Library.Runs

/-!
# Named pipes

The two connected ends of a pipe, as the server keeps them.  Each end has the
queue of the messages that were written to it and have not been read, and the
queue of its read requests.  A read is served as soon as there is a message;
a write completes when its message has been read or fits into the buffer of
the reading end.

The functions below work on the end that reads: what the source reaches
through `connection` from the writing end is here the end itself.  Both ends
are in blocking mode, and neither disconnects.
-/

namespace WineRedRose.Pipes

open Library.Chunks

/-- `data_size_t`. -/
abbrev DataSize := Fin (2 ^ 32)

/-- Request data; their size is a `data_size_t`. -/
structure Buffer where
  bytes : List UInt8
  small : bytes.length < 2 ^ 32

def Buffer.size (buffer : Buffer) : Nat := buffer.bytes.length

/-- The first bytes of a buffer. -/
def Buffer.take (buffer : Buffer) (count : Nat) : Buffer where
  bytes := buffer.bytes.take count
  small := (List.length_take_le' _ _).trans_lt buffer.small

inductive Status
  | pending
  | success
  | bufferOverflow
  | cancelled
  deriving DecidableEq

/-- `struct pipe_message`, with what is used of its `iosb`. -/
structure Message where
  /-- The request that sent the message. -/
  id : Nat
  inData : Buffer
  readPos : Nat
  within : readPos ≤ inData.size
  /-- A write waits for the message: its `async` is not `NULL`. -/
  async : Bool
  /-- `iosb->status`. -/
  status : Status

def Message.inSize (message : Message) : Nat := message.inData.size

/-- `iosb->in_size - read_pos`. -/
def Message.left (message : Message) : Nat := message.inSize - message.readPos

/-- The bytes that have not been read. -/
def Message.unread (message : Message) : List UInt8 := message.inData.bytes.drop message.readPos

/-- Reads up to `limit` bytes of the message. -/
def Message.advance (message : Message) (limit : Nat) : Message :=
  { message with
    readPos := message.readPos + min limit message.left
    within := by
      have within := message.within
      unfold Message.left Message.inSize
      omega }

/-- A read request in `read_q`, with what is used of its `iosb`. -/
structure Async where
  id : Nat
  outSize : DataSize
  status : Status
  terminated : Bool

/-- `async_terminate`. -/
def Async.terminate (async : Async) (status : Status) : Async :=
  if async.terminated then async
  else
    { async with
      terminated := true
      status := if async.status = .pending then status else async.status }

/-- A request that was completed with data or for data. -/
inductive Event
  /-- A read, with the messages that were queued when it was served. -/
  | read (id : Nat) (requested : DataSize) (queue : List Message)
      (status : Status) (data : List UInt8)
  /-- A write, with the number of bytes it reported. -/
  | write (id : Nat) (data : Buffer) (result : Nat)

/-- The bytes that the reads of a log returned. -/
def received (log : List Event) : List UInt8 := log.flatMap fun
    | .read _ _ _ _ data => data
    | .write .. => []

/--
`struct pipe_end`.  The last three fields are not in the source: the requests
that were completed, the data that were sent to this end, in request order
and without the rest of cancelled writes, and whether a `NULL` pointer was
followed or a loop did not end.
-/
structure PipeEnd where
  /-- `NAMED_PIPE_MESSAGE_STREAM_READ`. -/
  messageStreamRead : Bool
  bufferSize : DataSize
  messageQueue : List Message
  readQ : List Async
  log : List Event
  sent : List (Nat × List UInt8)
  fault : Bool

/-! ## Messages -/

/-- `queue_message`; for a write, the message keeps its async. -/
def PipeEnd.queueMessage (pipeEnd : PipeEnd) (id : Nat) (data : Buffer) (async : Bool) : PipeEnd :=
  { pipeEnd with
    messageQueue := pipeEnd.messageQueue ++ [⟨id, data, 0, Nat.zero_le _, async, .pending⟩]
    sent := pipeEnd.sent ++ [(id, data.bytes)] }

/--
`wake_message`: the write that waits for the message completes, unless it was
cancelled before.
-/
def wakeMessage (log : List Event) (message : Message) (result : Nat) : List Event :=
  if message.async ∧ message.status = .pending then log ++ [.write message.id message.inData result]
  else log

/-! ## Reading -/

/-- The loop of `message_queue_read` that adds up what can be read. -/
def availableFor (outSize : Nat) : Nat → List Message → Nat
  | avail, [] => avail
  | avail, message :: queue =>
    let avail' := (avail + message.left) % 2 ^ 32
    if outSize ≤ avail' then avail' else availableFor outSize avail' queue

/-- What the copying loop leaves behind. -/
structure Copied where
  buf : List UInt8
  queue : List Message
  log : List Event
  fault : Bool

/--
The copying loop of `message_queue_read`, with so many bytes left to copy.  A
message that is not read to its end has filled the buffer, so the loop ends.
-/
def copyMessages (log : List Event) (wanted : Nat) : List Message → Copied
  | [] => ⟨[], [], log, true⟩
  | message :: queue =>
    let writing := min wanted message.left
    let data := message.unread.take writing
    let message' := message.advance wanted
    if message'.readPos = message.inSize then
      let log := wakeMessage log message message.inSize
      if writing < wanted then
        let copied := copyMessages log (wanted - writing) queue
        { copied with buf := data ++ copied.buf }
      else ⟨data, queue, log, false⟩
    else ⟨data, message' :: queue, log, false⟩

section

variable (pipeEnd : PipeEnd) (async : Async)

/-- `async_request_complete` for a read. -/
def PipeEnd.asyncRequestComplete (queue : List Message)
    (status : Status) (data : List UInt8) : PipeEnd :=
  if async.status ≠ .pending then pipeEnd
  else
    { pipeEnd with
      readQ := pipeEnd.readQ.map fun other =>
        if other.id = async.id then other.terminate status else other
      log := pipeEnd.log ++ [.read async.id async.outSize queue status data] }

/-- The size and the status that `message_queue_read` returns. -/
def PipeEnd.readResult (head : Message) : Nat × Status :=
  if pipeEnd.messageStreamRead then
    let outSize := min async.outSize.val head.left
    (outSize,
      if head.readPos + outSize < head.inSize then .bufferOverflow
      else .success)
  else (min async.outSize.val (availableFor async.outSize 0 pipeEnd.messageQueue), .success)

/-- `message_queue_read`, with memory for the copy. -/
def PipeEnd.messageQueueRead : PipeEnd :=
  match pipeEnd.messageQueue with
  | [] => { pipeEnd with fault := true }
  | head :: rest =>
    let (outSize, status) := pipeEnd.readResult async head
    if head.readPos = 0 ∧ head.inSize = async.outSize.val then
      -- the fast path passes the data of the message on without a copy
      let pipeEnd' := pipeEnd.asyncRequestComplete async (head :: rest)
        status (head.inData.bytes.take outSize)
      { pipeEnd' with
        log := wakeMessage pipeEnd'.log head head.inSize
        messageQueue := rest }
    else
      let copied := copyMessages pipeEnd.log outSize (head :: rest)
      PipeEnd.asyncRequestComplete
        { pipeEnd with
          messageQueue := copied.queue
          log := copied.log
          fault := pipeEnd.fault || copied.fault }
        async (head :: rest) status copied.buf

end

/-- `find_pending_async`. -/
def findPendingAsync (queue : List Async) : Option Async :=
  queue.find? fun async => !async.terminated

/-- The loop of `reselect_read_queue`, and whether it did anything. -/
def PipeEnd.serveReads : Nat → PipeEnd → PipeEnd × Bool
  | 0, pipeEnd => ({ pipeEnd with fault := true }, false)
  | fuel + 1, pipeEnd =>
    if pipeEnd.messageQueue.isEmpty then (pipeEnd, false)
    else
      match findPendingAsync pipeEnd.readQ with
      | none => (pipeEnd, false)
      | some async => ((serveReads fuel (pipeEnd.messageQueueRead async)).1, true)

/-! ## Writes that wait -/

/-- The loop of `reselect_write_queue`. -/
def wakeWrites (bufferSize : Nat) : Nat → List Message → List Event → List Message × List Event
  | _, [], log => ([], log)
  | avail, message :: queue, log =>
    if message.async ∧ message.status ≠ .pending then wakeWrites bufferSize avail queue log
    else
      let avail' := (avail + message.left) % 2 ^ 32
      if message.async ∧ (avail' ≤ bufferSize ∨ message.inSize = 0) then
        let log := wakeMessage log message message.inSize
        let (queue, log) := wakeWrites bufferSize avail' queue log
        ({ message with async := false } :: queue, log)
      else
        let (queue, log) := wakeWrites bufferSize avail' queue log
        (message :: queue, log)

def PipeEnd.wakeWrites (pipeEnd : PipeEnd) : PipeEnd :=
  let (queue, log) := Pipes.wakeWrites pipeEnd.bufferSize 0 pipeEnd.messageQueue pipeEnd.log
  { pipeEnd with messageQueue := queue, log := log }

/--
`reselect_read_queue`.  It calls `reselect_write_queue`, which is the loop
`wakeWrites` followed by `reselect_read_queue` again.  Completing an async
would reselect its queue once more; `ignore_reselect` makes that do nothing.
-/
def PipeEnd.reselectReadQueue : Nat → Bool → PipeEnd → PipeEnd
  | 0, _, pipeEnd => { pipeEnd with fault := true }
  | fuel + 1, reselectWrite, pipeEnd =>
    let (pipeEnd, served) := pipeEnd.serveReads (pipeEnd.readQ.length + 1)
    if pipeEnd.messageQueue.isEmpty then pipeEnd
    else if reselectWrite || served then reselectReadQueue fuel false pipeEnd.wakeWrites
    else pipeEnd

/-- How deep the calls of `reselect_read_queue` may be nested. -/
def reselectDepth : Nat := 2

/-- `reselect_write_queue`, called for the other end. -/
def PipeEnd.reselectWriteQueue (pipeEnd : PipeEnd) : PipeEnd :=
  pipeEnd.wakeWrites.reselectReadQueue reselectDepth false

/-! ## Requests -/

section

variable (pipeEnd : PipeEnd) (messageMode : Bool) (replySize : DataSize)

/-- `pipe_end_read`. -/
def PipeEnd.read (id : Nat) (size : DataSize) : PipeEnd :=
  PipeEnd.reselectReadQueue reselectDepth false
    { pipeEnd with readQ := pipeEnd.readQ ++ [⟨id, size, .pending, false⟩] }

/--
`pipe_end_write`, from the other end.  An empty write to a pipe of byte type
queues nothing: it succeeds at once.
-/
def PipeEnd.write (id : Nat) (data : Buffer) : PipeEnd :=
  if !messageMode ∧ data.size = 0 then
    { pipeEnd with log := pipeEnd.log ++ [.write id data 0] }
  else (pipeEnd.queueMessage id data true).reselectReadQueue reselectDepth true

/-- What `pipe_end_peek` returns; nothing when the reply has no room. -/
structure Peek where
  readDataAvailable : Nat
  messageLength : Nat
  data : List UInt8
  overflow : Bool

/-- `pipe_end_peek`. -/
def PipeEnd.peek : Option Peek :=
  if replySize.val < 16 then none
  else
    let avail := (pipeEnd.messageQueue.map Message.left).sum % 2 ^ 32
    let messageLength :=
      if avail ≠ 0 ∧ messageMode then (pipeEnd.messageQueue.head?.map Message.left).getD 0
      else 0
    let limit := min (replySize.val - 16) avail
    let size := if avail ≠ 0 ∧ messageMode then min limit messageLength else limit
    some
      { readDataAvailable := avail
        messageLength := messageLength
        data := (pipeEnd.messageQueue.flatMap Message.unread).take size
        overflow := size < messageLength }

/-- A pending read of this end is cancelled. -/
def PipeEnd.cancelRead (id : Nat) : PipeEnd :=
  if pipeEnd.readQ.any fun async => async.id = id && !async.terminated then
    PipeEnd.reselectReadQueue reselectDepth false
      { pipeEnd with
        readQ := pipeEnd.readQ.map fun async =>
          if async.id = id then async.terminate .cancelled else async }
  else pipeEnd

/-- A message whose write is pending. -/
def Message.waitsFor (message : Message) (id : Nat) : Bool :=
  message.id = id && message.async && message.status = .pending

/--
A pending write to this end is cancelled: the bytes that have not been read
are left out, and the message goes when the write queue is reselected.
-/
def PipeEnd.cancelWrite (id : Nat) : PipeEnd :=
  if pipeEnd.messageQueue.any (Message.waitsFor · id) then
    PipeEnd.reselectWriteQueue
      { pipeEnd with
        messageQueue := pipeEnd.messageQueue.map fun message =>
          if message.waitsFor id then { message with status := .cancelled }
          else message
        sent := leaveOut id (received pipeEnd.log).length pipeEnd.sent }
  else pipeEnd

end

/-! ## The pair of ends -/

inductive Side
  | server
  | client
  deriving DecidableEq

def Side.other : Side → Side
  | .server => .client
  | .client => .server

/-- A connected pair; `next` is the request that comes next. -/
structure Pipe where
  messageMode : Bool
  ends : Side → PipeEnd
  next : Nat

def Pipe.atEnd (pipe : Pipe) (side : Side) (change : PipeEnd → PipeEnd) :
    Pipe :=
  { pipe with ends := Function.update pipe.ends side (change (pipe.ends side)) }

inductive Request
  | write (side : Side) (data : Buffer)
  | read (side : Side) (size : DataSize)
  /-- `FSCTL_PIPE_TRANSCEIVE`; the data include a copy of the reply buffer. -/
  | transceive (side : Side) (data : Buffer) (outSize : DataSize) (fits : outSize.val ≤ data.size)
  | peek (side : Side) (replySize : DataSize)
  | cancel (id : Nat)
  /-- A completed read is picked up by the client and leaves its queue. -/
  | finishRead (side : Side) (id : Nat)
  /-- A completed write to this end leaves its queue. -/
  | finishWrite (side : Side)

/--
`pipe_end_transceive`: a message without async to the other end, then a read
of this end.
-/
def Pipe.transceive (pipe : Pipe) (side : Side) (data : Buffer) (outSize : DataSize) : Pipe :=
  if (pipe.ends side).messageStreamRead ∧ (pipe.ends side).messageQueue.isEmpty then
    let asked := pipe.atEnd side.other fun pipeEnd =>
      (pipeEnd.queueMessage pipe.next (data.take (data.size - outSize.val))
        false).reselectReadQueue reselectDepth false
    asked.atEnd side fun pipeEnd => pipeEnd.read pipe.next outSize
  else pipe

/-- What a request changes. -/
def Pipe.handle (pipe : Pipe) : Request → Pipe
  | .write side data =>
    pipe.atEnd side.other fun pipeEnd => pipeEnd.write pipe.messageMode pipe.next data
  | .read side size => pipe.atEnd side fun pipeEnd => pipeEnd.read pipe.next size
  | .transceive side data outSize _ => pipe.transceive side data outSize
  | .peek _ _ => pipe
  | .cancel id =>
    { pipe with
      ends := fun side => ((pipe.ends side).cancelRead id).cancelWrite id }
  | .finishRead side id =>
    pipe.atEnd side fun pipeEnd =>
      PipeEnd.reselectReadQueue reselectDepth false
        { pipeEnd with
          readQ := pipeEnd.readQ.filter fun async => !(async.id = id && async.terminated) }
  | .finishWrite side => pipe.atEnd side PipeEnd.reselectWriteQueue

/-- One request, which takes the next number. -/
def Pipe.step (pipe : Pipe) (request : Request) : Pipe :=
  { pipe.handle request with next := pipe.next + 1 }

/-- An end of a fresh connection. -/
def PipeEnd.fresh (messageStreamRead : Bool) (bufferSize : DataSize) : PipeEnd where
  messageStreamRead := messageStreamRead
  bufferSize := bufferSize
  messageQueue := []
  readQ := []
  log := []
  sent := []
  fault := false

/-- A pair of ends right after the connection. -/
def connect (messageMode : Bool) (messageStreamRead : Side → Bool)
    (bufferSize : Side → DataSize) : Pipe where
  messageMode := messageMode
  ends side := .fresh (messageStreamRead side) (bufferSize side)
  next := 0

end WineRedRose.Pipes
