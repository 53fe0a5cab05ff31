import Mathlib.Data.BitVec
import Mathlib.Tactic

/-!
# Semaphore objects of the wineserver

The semaphore operations of `server/semaphore.c`, apart from the wait queue:
`release_semaphore` says how many threads it would wake up.  Counts are
`unsigned int`, so the sums are taken modulo `2 ^ 32`.
-/

namespace WineRedRose.Sync

/-- The status codes of the semaphore calls. -/
inductive Status where
  | success
  | invalidParameter
  | semaphoreLimitExceeded
deriving DecidableEq, Repr

/-- The fields of `struct semaphore`. -/
structure Semaphore where
  count : BitVec 32
  max : BitVec 32
deriving DecidableEq, Repr

section

variable (sem : Semaphore) (count : BitVec 32)

/--
`release_semaphore`: the new semaphore, and the limit for `wake_up` if it is
called.
-/
def releaseSemaphore : Except Status (Semaphore × Option (BitVec 32)) :=
  if sem.count + count < sem.count ∨ sem.count + count > sem.max then .error .semaphoreLimitExceeded
  else if sem.count ≠ 0 then .ok ({ sem with count := sem.count + count }, none)
  else .ok ({ sem with count := count }, some count)

/-- `semaphore_signaled`. -/
def semaphoreSignaled : Bool := sem.count > 0

/-- `semaphore_satisfied`; the count is not zero. -/
def semaphoreSatisfied : Semaphore :=
  { sem with count := sem.count - 1 }

/-- The checks of `NtCreateSemaphore` on its two `LONG` arguments. -/
def ntCreateSemaphore (initial max : BitVec 32) : Except Status Semaphore :=
  if max.toInt ≤ 0 ∨ initial.toInt < 0 ∨ initial.toInt > max.toInt then .error .invalidParameter
  else .ok ⟨initial, max⟩

/-- What a caller of `NtReleaseSemaphore` sees, and the semaphore it leaves. -/
structure ReleaseResult where
  status : Status
  previous : Option (BitVec 32)
  sem : Semaphore
deriving DecidableEq, Repr

/-- `NtReleaseSemaphore` through the server request. -/
def ntReleaseSemaphore : ReleaseResult :=
  match releaseSemaphore sem count with
  | .ok (released, _) => ⟨.success, some sem.count, released⟩
  | .error status => ⟨status, none, sem⟩

end

/-- The limit test of the server in exact arithmetic. -/
theorem releaseSemaphore_limit (sem : Semaphore) (count : BitVec 32) :
    (sem.count + count < sem.count ∨ sem.count + count > sem.max) ↔
      2 ^ 32 ≤ sem.count.toNat + count.toNat ∨ sem.max.toNat < sem.count.toNat + count.toNat := by
  simp only [BitVec.lt_def, gt_iff_lt, BitVec.toNat_add]
  omega

/-- The server adds the count if the sum is within the limit. -/
theorem ntReleaseSemaphore_eq (sem : Semaphore) (count : BitVec 32) : ntReleaseSemaphore sem count =
      if sem.count.toNat + count.toNat < 2 ^ 32 ∧ sem.count.toNat + count.toNat ≤ sem.max.toNat then
        ⟨.success, some sem.count, { sem with count := sem.count + count }⟩
      else ⟨.semaphoreLimitExceeded, none, sem⟩ := by
  have limit := releaseSemaphore_limit sem count
  by_cases exceeded : sem.count + count < sem.count ∨ sem.count + count > sem.max
  · have tooMuch := limit.mp exceeded
    rw [if_neg (by omega)]
    simp only [ntReleaseSemaphore, releaseSemaphore, if_pos exceeded]
  · have within := mt limit.mpr exceeded
    rw [if_pos (by omega)]
    simp only [ntReleaseSemaphore, releaseSemaphore, if_neg exceeded]
    by_cases zero : sem.count = 0
    · simp [zero]
    · rw [if_pos zero]

end WineRedRose.Sync
