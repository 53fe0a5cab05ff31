import Mathlib.Tactic

/-!
# A stream delivered in chunks

A producer sends chunks of data, each under an identity of its own, and a
consumer takes them from a queue piece by piece.  A chunk that waits in the
queue can be withdrawn: what was taken of it stays taken, the rest is left
out of the stream.

The relation between what was received, what was sent and what is queued is
kept by all four operations, and it says that the received data are a prefix
of the sent data.
-/

namespace WineRedRose.Library.Chunks

open List

variable {ι α : Type*}

/-- A chunk in the queue, of which a first part has been taken. -/
structure Chunk (ι α : Type*) where
  id : ι
  data : List α
  pos : Nat

/-- What has been taken of a chunk. -/
def Chunk.taken (chunk : Chunk ι α) : List α := chunk.data.take chunk.pos

/-- What is still to be taken of a chunk. -/
def Chunk.rest (chunk : Chunk ι α) : List α := chunk.data.drop chunk.pos

/-- All the data of a list of sent chunks. -/
def content (sent : List (ι × List α)) : List α := sent.flatMap Prod.snd

@[simp]
theorem content_nil : content ([] : List (ι × List α)) = [] := rfl

variable {sent : List (ι × List α)}

@[simp]
theorem content_cons (entry : ι × List α) (sent : List (ι × List α)) :
    content (entry :: sent) = entry.2 ++ content sent :=
  flatMap_cons

@[simp]
theorem content_append (sent' : List (ι × List α)) :
    content (sent ++ sent') = content sent ++ content sent' :=
  flatMap_append

/--
The sent chunks without the unreceived rest of one of them, when so many data
have been received.
-/
def leaveOut [DecidableEq ι] (id : ι) : Nat → List (ι × List α) → List (ι × List α)
  | _, [] => []
  | received, (other, data) :: sent =>
    if other = id then (other, data.take received) :: sent
    else (other, data) :: leaveOut id (received - data.length) sent

section LeaveOut

variable [DecidableEq ι]

variable {sent : List (ι × List α)}

@[simp]
theorem map_fst_leaveOut (id : ι) (received : Nat) :
    (leaveOut id received sent).map Prod.fst = sent.map Prod.fst := by
  induction sent generalizing received with
  | nil => rfl
  | cons entry sent ih =>
    rcases entry with ⟨other, data⟩
    by_cases same : other = id
    · simp [leaveOut, same]
    · simp [leaveOut, same, ih]

/-- Chunks that were received before the withdrawn one stay as they are. -/
theorem leaveOut_append {id : ι} {done : List (ι × List α)} (absent : id ∉ done.map Prod.fst)
    (more : Nat) :
    leaveOut id ((content done).length + more) (done ++ sent) = done ++ leaveOut id more sent := by
  induction done with
  | nil => simp
  | cons entry done ih =>
    rcases entry with ⟨other, data⟩
    rw [map_cons, mem_cons, not_or] at absent
    have later := ih absent.2
    have left : (content ((other, data) :: done)).length + more - data.length =
        (content done).length + more := by
      simp only [content_cons, length_append]
      omega
    rw [cons_append, leaveOut, if_neg (Ne.symm absent.1), left, later, cons_append]

end LeaveOut

/--
The sent chunks that are not fully received yet, in step with the queue.  The
first of them may have been taken in part; a withdrawn chunk of which nothing
had been taken has left an empty entry.
-/
inductive Waiting : List α → List (ι × List α) → List (Chunk ι α) → Prop
  | nil : Waiting [] [] []
  | gone {sent : List (ι × List α)} {queue : List (Chunk ι α)} (id : ι) :
      Waiting [] sent queue → Waiting [] ((id, []) :: sent) queue
  | waits {sent : List (ι × List α)} {queue : List (Chunk ι α)} (chunk : Chunk ι α) :
      Waiting [] sent queue → Waiting chunk.taken ((chunk.id, chunk.data) :: sent) (chunk :: queue)

/-- What was received, what was sent, and what is queued fit together. -/
def Stream (received : List α) (sent : List (ι × List α)) (queue : List (Chunk ι α)) : Prop :=
  ∃ done sent' part, sent = done ++ sent' ∧ received = content done ++ part ∧
      Waiting part sent' queue

theorem Stream.empty : Stream ([] : List α) ([] : List (ι × List α)) [] :=
  ⟨[], [], [], rfl, rfl, .nil⟩

variable {part received : List α} {sent : List (ι × List α)} {queue : List (Chunk ι α)}
variable {chunk : Chunk ι α}

theorem Waiting.append_rest (waiting : Waiting part sent queue) :
    part ++ queue.flatMap Chunk.rest = content sent := by
  induction waiting with
  | nil => rfl
  | gone id _ ih => exact ih
  | waits chunk _ ih =>
    rw [flatMap_cons, content_cons, ← ih, nil_append, ← append_assoc]
    exact congrArg (· ++ _) (take_append_drop _ _)

/-- What was received and what is queued make up the data sent. -/
theorem Stream.append_rest (stream : Stream received sent queue) :
    received ++ queue.flatMap Chunk.rest = content sent := by
  rcases stream with ⟨done, sent', part, rfl, rfl, waiting⟩
  rw [content_append, append_assoc, waiting.append_rest]

theorem Waiting.ids_sublist (waiting : Waiting part sent queue) :
    (queue.map Chunk.id).Sublist (sent.map Prod.fst) := by
  induction waiting with
  | nil => exact List.Sublist.refl _
  | gone id _ ih => exact ih.cons _
  | waits chunk _ ih => exact ih.cons_cons _

/-- Every queued chunk was sent. -/
theorem Stream.ids_sublist (stream : Stream received sent queue) :
    (queue.map Chunk.id).Sublist (sent.map Prod.fst) := by
  rcases stream with ⟨done, sent', part, rfl, rfl, waiting⟩
  rw [map_append]
  exact waiting.ids_sublist.trans (sublist_append_right _ _)

/-- The first queued chunk, with all that was sent before it received. -/
theorem Waiting.head (waiting : Waiting part sent (chunk :: queue)) :
    ∃ done sent', sent = done ++ (chunk.id, chunk.data) :: sent' ∧
      part = content done ++ chunk.taken ∧ Waiting [] sent' queue := by
  generalize whole : chunk :: queue = entries at waiting
  induction waiting with
  | nil => contradiction
  | gone id _ ih =>
    rcases ih whole with ⟨done, sent', rfl, same, waiting⟩
    exact ⟨(id, []) :: done, sent', rfl, by simpa using same, waiting⟩
  | waits chunk' waiting _ =>
    rcases whole with ⟨rfl, rfl⟩
    exact ⟨[], _, rfl, rfl, waiting⟩

theorem Stream.head (stream : Stream received sent (chunk :: queue)) :
    ∃ done sent', sent = done ++ (chunk.id, chunk.data) :: sent' ∧
      received = content done ++ chunk.taken ∧ Waiting [] sent' queue := by
  rcases stream with ⟨done, _, _, rfl, rfl, waiting⟩
  rcases waiting.head with ⟨done', sent', rfl, rfl, waiting'⟩
  refine ⟨done ++ done', sent', ?_, ?_, waiting'⟩
  · rw [append_assoc]
  · rw [content_append, append_assoc]

/-! ## The operations -/

theorem Waiting.send (waiting : Waiting part sent queue) (id : ι) (data : List α) :
    Waiting part (sent ++ [(id, data)]) (queue ++ [⟨id, data, 0⟩]) := by
  induction waiting with
  | nil => exact Waiting.waits ⟨id, data, 0⟩ .nil
  | gone other _ ih => exact .gone other ih
  | waits chunk _ ih => exact .waits chunk ih

/-- A new chunk goes to the end of the queue. -/
theorem Stream.send (stream : Stream received sent queue) (id : ι) (data : List α) :
    Stream received (sent ++ [(id, data)]) (queue ++ [⟨id, data, 0⟩]) := by
  rcases stream with ⟨done, sent', part, rfl, rfl, waiting⟩
  exact ⟨done, sent' ++ [(id, data)], part, append_assoc .., rfl, waiting.send id data⟩

/-- Data are taken from the first chunk. -/
theorem Stream.take (stream : Stream received sent (chunk :: queue)) (count : Nat) :
    Stream (received ++ chunk.rest.take count) sent
      (⟨chunk.id, chunk.data, chunk.pos + count⟩ :: queue) := by
  rcases stream.head with ⟨done, sent', rfl, rfl, waiting⟩
  let later : Chunk ι α := ⟨chunk.id, chunk.data, chunk.pos + count⟩
  have same : chunk.taken ++ chunk.rest.take count = later.taken := take_add.symm
  refine ⟨done, _, later.taken, rfl, ?_, .waits later waiting⟩
  rw [append_assoc, same]

/-- A chunk that was taken completely leaves the queue. -/
theorem Stream.finish (stream : Stream received sent (chunk :: queue))
    (all : chunk.pos = chunk.data.length) :
    Stream received sent queue := by
  rcases stream.head with ⟨done, sent', rfl, rfl, waiting⟩
  refine ⟨done ++ [(chunk.id, chunk.data)], sent', [], ?_, ?_, waiting⟩
  · rw [append_assoc, singleton_append]
  · simp [Chunk.taken, all]

section Withdraw

variable [DecidableEq ι]

variable {sent : List (ι × List α)} {queue : List (Chunk ι α)}

theorem Waiting.filter_of_absent {part : List α} (waiting : Waiting part sent queue) {id : ι}
    (absent : id ∉ sent.map Prod.fst) :
    (queue.filter fun chunk => chunk.id ≠ id) = queue := by
  rw [filter_eq_self]
  intro chunk member
  have among := waiting.ids_sublist.subset (mem_map_of_mem member)
  exact decide_eq_true fun same => absent (same ▸ among)

theorem Waiting.leaveOut (waiting : Waiting [] sent queue) (distinct : (sent.map Prod.fst).Nodup)
    (id : ι) :
    Waiting [] (leaveOut id 0 sent) (queue.filter fun chunk => chunk.id ≠ id) := by
  generalize nothing : ([] : List α) = part at waiting
  induction waiting with
  | nil => exact .nil
  | @gone sent queue other waiting ih =>
    rw [map_cons, nodup_cons] at distinct
    by_cases same : other = id
    · rw [Chunks.leaveOut, if_pos same, take_nil, waiting.filter_of_absent (same ▸ distinct.1)]
      exact .gone other waiting
    · rw [Chunks.leaveOut, if_neg same, Nat.zero_sub]
      exact .gone other (ih distinct.2 rfl)
  | @waits sent queue chunk waiting ih =>
    rw [map_cons, nodup_cons] at distinct
    by_cases same : chunk.id = id
    · rw [Chunks.leaveOut, if_pos same, take_zero, filter_cons_of_neg (by simp [same]),
        waiting.filter_of_absent (same ▸ distinct.1), ← nothing]
      exact .gone chunk.id waiting
    · rw [Chunks.leaveOut, if_neg same, Nat.zero_sub, filter_cons_of_pos (by simp [same])]
      exact .waits chunk (ih distinct.2 rfl)

/-- A queued chunk is withdrawn, with the rest of it left out. -/
theorem Stream.withdraw {received : List α} (stream : Stream received sent queue)
    (distinct : (sent.map Prod.fst).Nodup) {id : ι} (queued : id ∈ queue.map Chunk.id) :
    Stream received (leaveOut id received.length sent)
      (queue.filter fun chunk => chunk.id ≠ id) := by
  cases queue with
  | nil => simp at queued
  | cons chunk queue =>
    rcases stream.head with ⟨done, sent', rfl, rfl, waiting⟩
    rw [map_append, map_cons, nodup_append] at distinct
    rcases distinct with ⟨_, distinct, apart⟩
    have absent : id ∉ done.map Prod.fst := by
      intro member
      refine apart id member id ?_ rfl
      rcases mem_cons.mp queued with first | later
      · exact mem_cons.mpr (.inl first)
      · exact mem_cons_of_mem _ (waiting.ids_sublist.subset later)
    rw [length_append, leaveOut_append absent]
    rw [nodup_cons] at distinct
    by_cases same : chunk.id = id
    · have taken : chunk.data.take chunk.taken.length = chunk.taken := by simp [Chunk.taken]
      rw [leaveOut, if_pos same, taken, filter_cons_of_neg (by simp [same]),
        waiting.filter_of_absent (same ▸ distinct.1)]
      refine ⟨done ++ [(chunk.id, chunk.taken)], sent', [], ?_, ?_, waiting⟩
      · rw [append_assoc, singleton_append]
      · simp
    · have none : chunk.taken.length - chunk.data.length = 0 := by simp [Chunk.taken]
      rw [leaveOut, if_neg same, none, filter_cons_of_pos (by simp [same])]
      exact ⟨done, _, _, rfl, rfl, .waits chunk (waiting.leaveOut distinct.2 id)⟩

end Withdraw

end WineRedRose.Library.Chunks
