import WineRedRose.Library.Runs

/-!
# The shared word of a message queue

With fsync a thread waits for its queue on a word in shared memory, which the
server sets and clears as the bits and masks of the queue change.  One place
changes the masks and only clears the word: `get_message`, when it finds no
message.
-/

namespace WineRedRose.Queues

open Library.Runs

/-- Bits of a queue, `QS_*`. -/
abbrev Bits := BitVec 32

def qsInput : Bits := 0x1c07
def qsPostMessage : Bits := 0x8
def qsTimer : Bits := 0x10
def qsPaint : Bits := 0x20
def qsHotkey : Bits := 0x80
def qsAllPostMessage : Bits := 0x100

/-- The bits and masks of `struct msg_queue`, and the word at its index. -/
structure Queue where
  wakeBits : Bits := 0
  wakeMask : Bits := 0
  changedBits : Bits := 0
  changedMask : Bits := 0
  word : Bool := false

def Queue.isSignaled (queue : Queue) : Bool :=
  queue.wakeBits &&& queue.wakeMask != 0 || queue.changedBits &&& queue.changedMask != 0

def Queue.setMasks (queue : Queue) (wakeMask changedMask : Bits) : Queue :=
  { queue with wakeMask := wakeMask, changedMask := changedMask }

def Queue.clearBits (queue : Queue) (wake changed : Bits) : Queue :=
  { queue with
    wakeBits := queue.wakeBits &&& ~~~wake, changedBits := queue.changedBits &&& ~~~changed }

/-- `wake_up` of a queue; a wait in the server that it satisfies resets the masks. -/
def Queue.wakeUp (queue : Queue) (waiting : Bool) : Queue :=
  { if waiting then queue.setMasks 0 0 else queue with word := true }

/-- `fsync_clear` unless the queue is signaled. -/
def Queue.fsyncClear (queue : Queue) : Queue :=
  if queue.isSignaled then queue else { queue with word := false }

def Queue.setQueueBits (queue : Queue) (bits : Bits) (waiting : Bool) : Queue :=
  let queue :=
    { queue with wakeBits := queue.wakeBits ||| bits, changedBits := queue.changedBits ||| bits }
  if queue.isSignaled then queue.wakeUp waiting else queue

def Queue.clearQueueBits (queue : Queue) (bits : Bits) : Queue :=
  (queue.clearBits bits bits).fsyncClear

/-- The calls by which the handling of messages changes a queue. -/
inductive Call
  | setQueueBits (bits : Bits) (waiting : Bool)
  | clearQueueBits (bits : Bits)

def Queue.call (queue : Queue) : Call → Queue
  | .setQueueBits bits waiting => queue.setQueueBits bits waiting
  | .clearQueueBits bits => queue.clearQueueBits bits

/--
What `get_message` finds.  If it finds nothing, `get_hardware_message` has
cleared the bits of input and then of drivers for which there is no message.
-/
inductive Search
  | sent (calls : List Call)
  | found (calls : List Call)
  | nothing (input driver : Bits)

structure GetMessage where
  flags : Bits
  getFirst : Bits
  getLast : Bits
  wakeMask : Bits
  changedMask : Bits
  search : Search

/-- The changed bits that `get_message` clears before it searches. -/
def filteredBits (flags getFirst getLast : Bits) : Bits :=
  let asks (bits : Bits) : Bool := flags >>> 16 == 0 || flags >>> 16 &&& bits != 0
  let posted := qsPostMessage ||| qsHotkey ||| qsTimer |||
    if getFirst = 0 ∧ getLast = BitVec.allOnes 32 then qsAllPostMessage else 0
  (if asks qsPostMessage then posted else 0) ||| (if asks qsInput then qsInput else 0) |||
    if asks qsPaint then qsPaint else 0

def Queue.getMessage (queue : Queue) (request : GetMessage) : Queue :=
  let filtered := queue.clearBits 0 (filteredBits request.flags request.getFirst request.getLast)
  match request.search with
  | .sent calls => calls.foldl Queue.call queue
  | .found calls => calls.foldl Queue.call filtered
  | .nothing input driver =>
    let searched := (filtered.clearQueueBits input).clearQueueBits driver
    (searched.setMasks request.wakeMask request.changedMask).fsyncClear

inductive Request
  | message (calls : List Call)
  | setQueueMask (wakeMask changedMask : Bits) (skipWait waiting : Bool)
  | getQueueStatus (clearBits : Bits)
  | getMessage (request : GetMessage)

def Queue.request (queue : Queue) : Request → Queue
  | .message calls => calls.foldl Queue.call queue
  | .setQueueMask wakeMask changedMask skipWait waiting =>
    let queue := queue.setMasks wakeMask changedMask
    Queue.fsyncClear <|
      if !queue.isSignaled then queue
      else if skipWait then queue.setMasks 0 0
      else queue.wakeUp waiting
  | .getQueueStatus clearBits => (queue.clearBits 0 clearBits).fsyncClear
  | .getMessage request => queue.getMessage request

/-! ## The word -/

/-- The word of a signaled queue is set. -/
def Shown (queue : Queue) : Prop := queue.isSignaled = true → queue.word = true

instance : DecidablePred Shown := fun queue =>
  inferInstanceAs (Decidable (queue.isSignaled = true → _))

/--
A search without result gives the queue no masks that are met by the bits
that it leaves, unless these meet the masks that the queue has.
-/
def MasksAwaited (queue : Queue) : Request → Prop
  | .getMessage ⟨flags, first, last, wakeMask, changedMask, .nothing input driver⟩ =>
    let filtered := queue.clearBits 0 (filteredBits flags first last)
    let left := (filtered.clearBits input input).clearBits driver driver
    (left.setMasks wakeMask changedMask).isSignaled = true → left.isSignaled = true
  | _ => True

variable {queue : Queue}

theorem isSignaled_of_clearBits {wake changed : Bits}
    (signaled : (queue.clearBits wake changed).isSignaled = true) : queue.isSignaled = true := by
  have gone (bits other mask : Bits) (none : bits &&& mask = 0) : bits &&& other &&& mask = 0 := by
    rw [BitVec.and_assoc, BitVec.and_comm other, ← BitVec.and_assoc, none]
    exact BitVec.zero_and
  simp only [Queue.isSignaled, Bool.or_eq_true, bne_iff_ne] at signaled ⊢
  exact signaled.imp (mt (gone _ _ _)) (mt (gone _ _ _))

theorem shown_wakeUp (waiting : Bool) : Shown (queue.wakeUp waiting) := fun _ => rfl

section

variable (shown : Shown queue)
include shown

theorem Shown.clearBits (wake changed : Bits) : Shown (queue.clearBits wake changed) :=
  fun signaled => shown (isSignaled_of_clearBits signaled)

theorem Shown.fsyncClear : Shown queue.fsyncClear := by
  rw [Queue.fsyncClear]
  split_ifs with signaled
  · exact shown
  · exact fun again => absurd again signaled

theorem Shown.call (call : Call) : Shown (queue.call call) := by
  cases call with
  | setQueueBits bits waiting =>
    simp only [Queue.call, Queue.setQueueBits]
    split_ifs with signaled
    · exact shown_wakeUp waiting
    · exact fun again => absurd again signaled
  | clearQueueBits bits => exact (shown.clearBits bits bits).fsyncClear

theorem Shown.calls (calls : List Call) : Shown (calls.foldl Queue.call queue) := by
  induction calls generalizing queue with
  | nil => exact shown
  | cons call calls ih => exact ih (shown.call call)

/-- Clearing bits leaves the word as the queue is signaled. -/
theorem Shown.clearQueueBits (bits : Bits) : queue.clearQueueBits bits =
      { queue.clearBits bits bits with word := (queue.clearBits bits bits).isSignaled } := by
  have fewer := shown.clearBits bits bits
  rw [Queue.clearQueueBits, Queue.fsyncClear]
  split_ifs with signaled
  · rw [signaled, ← fewer signaled]
  · rw [Bool.eq_false_iff.mpr signaled]

/-- A request keeps the word right exactly if it sets no masks that are met at once. -/
theorem Shown.request_iff (request : Request) :
    Shown (queue.request request) ↔ MasksAwaited queue request := by
  cases request with
  | message calls => exact iff_of_true (shown.calls calls) trivial
  | setQueueMask wakeMask changedMask skipWait waiting =>
    refine iff_of_true (Shown.fsyncClear ?_) trivial
    split_ifs with quiet skips
    · exact fun signaled => absurd signaled (by simpa using quiet)
    · simp [Shown, Queue.isSignaled, Queue.setMasks]
    · exact shown_wakeUp waiting
  | getQueueStatus clearBits => exact iff_of_true (shown.clearBits 0 clearBits).fsyncClear trivial
  | getMessage request =>
    rcases request with ⟨flags, first, last, wakeMask, changedMask, calls | calls | ⟨input, driver⟩⟩
    · exact iff_of_true (shown.calls calls) trivial
    · exact iff_of_true ((shown.clearBits 0 _).calls calls) trivial
    · have filtered := shown.clearBits 0 (filteredBits flags first last)
      have searched := (filtered.clearBits input input).fsyncClear.clearQueueBits driver
      simp only [Queue.request, Queue.getMessage]
      rw [← Queue.clearQueueBits] at searched
      rw [searched, Queue.fsyncClear, filtered.clearQueueBits]
      split_ifs with signaled
      · rfl
      · exact iff_of_true (fun again => absurd again signaled) fun again => absurd again signaled

end

/--
In every sequence of requests on a new queue its word is set whenever it is
signaled exactly if no search without result sets masks that are met at once.
-/
theorem signaled_queue_shown_iff (requests : List Request) :
    Visits Queue.request Shown {} requests ↔ Along Queue.request MasksAwaited {} requests :=
  visits_iff_along (fun _ shown => shown)
    (fun _ request shown awaited => (shown.request_iff request).mpr awaited)
    (fun _ request shown after => (shown.request_iff request).mp after) (by decide) requests

/-- A message is posted, and a search for paint messages then waits for posted ones. -/
theorem posted_message_not_shown : ¬ Visits Queue.request Shown {}
      [.message [.setQueueBits (qsPostMessage ||| qsAllPostMessage) false], .getMessage
          ⟨qsPaint <<< 16, 0, BitVec.allOnes 32, 0, qsPostMessage, .nothing 0 qsInput⟩] := by
  decide

end WineRedRose.Queues
