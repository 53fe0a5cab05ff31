import WineRedRose.Library.Reads
import WineRedRose.Tokens.Descriptors

/-!
# Reading a security descriptor

`sd_is_valid` looks through a security descriptor that stands in the data of a
request.  It reads what it has checked to be there, with one exception: the
SID of an entry that is smaller than its own header may stand behind the
descriptor, and behind the data.  What is read there does not matter for the
answer.
-/

namespace WineRedRose.Processes

open Library.Reads

open Tokens (word16 word32 word16_lt dataSize sidOffset sidLen sizeofAcl sizeofAce maxAclLen
  knownAceType aceSid aceFirst aceNext sizeofDescriptor memoryOf)

variable {ε : Type} {block : List UInt8} {address sid ace acl size length left : Nat}

/-! ## The checks, with their reads -/

section Checks

variable (block : List UInt8)

def read16 (address : Nat) : Outcome ε Nat := do
  let low ← readAt block address
  let high ← readAt block (address + 1)
  pure (low.toNat + 2 ^ 8 * high.toNat)

def read32 (address : Nat) : Outcome ε Nat := do
  let low ← read16 block address
  let high ← read16 block (address + 2)
  pure (low + 2 ^ 16 * high)

/-- `sid_valid_size`. -/
def sidValidSize (sid size : Nat) : Outcome ε Bool :=
  if size < sidOffset 0 then pure false
  else do
    let subCount ← readAt block (sid + 1)
    pure (decide (size ≥ sidOffset subCount.toNat))

/-- The loop of `acl_is_valid`, with the number of entries left. -/
def aclLoop : (left ace size : Nat) → Outcome ε Bool
  | 0, _, _ => pure true
  | left + 1, ace, size =>
    if size < sizeofAce then pure false
    else do
      let aceSize ← read16 block (ace + 2)
      if size < aceSize then pure false
      else do
        let type ← readAt block ace
        if !knownAceType type then pure false
        else do
          let valid ← sidValidSize block (aceSid ace) (dataSize (aceSize - sizeofAce))
          if valid then aclLoop left (ace + aceSize) (size - aceSize) else pure false

/-- `acl_is_valid`. -/
def aclIsValid (acl size : Nat) : Outcome ε Bool :=
  if size < sizeofAcl then pure false
  else do
    let count ← read16 block (acl + 4)
    aclLoop block count (aceFirst acl) (min size maxAclLen - sizeofAcl)

/-- The check of a SID of a descriptor. -/
def sidPartIsValid (length offset size : Nat) : Outcome ε Bool :=
  if length ≥ sidOffset 255 ∨ offset + length > size then pure false
  else if length ≠ 0 then sidValidSize block offset length
  else pure true

/-- The check of a list of a descriptor. -/
def aclPartIsValid (length offset size : Nat) : Outcome ε Bool :=
  if length ≥ maxAclLen ∨ offset + length > size then pure false
  else if length ≠ 0 then aclIsValid block offset length
  else pure true

/-- `sd_is_valid`. -/
def sdIsValid (size : Nat) : Outcome ε Bool :=
  if size < sizeofDescriptor then pure false
  else do
    let ownerLen ← read32 block 4
    let owner ← sidPartIsValid block ownerLen sizeofDescriptor size
    if !owner then pure false
    else do
      let offset := sizeofDescriptor + ownerLen
      let groupLen ← read32 block 8
      let group ← sidPartIsValid block groupLen offset size
      if !group then pure false
      else do
        let offset := offset + groupLen
        let saclLen ← read32 block 12
        let sacl ← aclPartIsValid block saclLen offset size
        if !sacl then pure false
        else do
          let offset := offset + saclLen
          let daclLen ← read32 block 16
          aclPartIsValid block daclLen offset size

end Checks

/-! ## What the reads find -/

theorem readAt_answers (block : List UInt8) (address : Nat) :
    Answers (readAt block address : Outcome ε UInt8) (address < block.length)
      (memoryOf block address) where
  success inside := by
    rw [readAt_of_lt inside]
    simp [memoryOf, inside]
  outside beyond := readAt_of_le (Nat.not_lt.mp beyond)

theorem read16_answers (block : List UInt8) (address : Nat) :
    Answers (read16 block address : Outcome ε Nat) (address + 2 ≤ block.length)
      (word16 (memoryOf block) address) := by
  refine ((readAt_answers block address).bind fun _ =>
    (readAt_answers block (address + 1)).map _).congr ?_
  omega

theorem read32_answers (block : List UInt8) (address : Nat) :
    Answers (read32 block address : Outcome ε Nat) (address + 4 ≤ block.length)
      (word32 (memoryOf block) address) := by
  refine ((read16_answers block address).bind fun _ =>
    (read16_answers block (address + 2)).map _).congr ?_
  omega

/-- The number of parts of a SID is read if there is room for the SID before. -/
theorem sidValidSize_answers (block : List UInt8) (sid size : Nat) :
    Answers (sidValidSize block sid size : Outcome ε Bool)
      (sidOffset 0 ≤ size → sid + 1 < block.length)
      (Tokens.sidValidSize (memoryOf block) sid size) := by
  rw [sidValidSize, Tokens.sidValidSize]
  split_ifs with short
  · rw [decide_eq_false (by omega), Bool.false_and]
    exact (answers_success _).congr (by simp [short])
  · rw [decide_eq_true (by omega), Bool.true_and]
    exact ((readAt_answers block (sid + 1)).map _).congr (by simp [Nat.not_lt.mp short])

/-! ## Lists -/

/-- The entries whose SIDs the loop of `acl_is_valid` looks at. -/
def examined (memory : Tokens.Memory) : (left ace size : Nat) → List Nat
  | 0, _, _ => []
  | left + 1, ace, size =>
    let aceSize := Tokens.aceSize memory ace
    if size < sizeofAce ∨ size < aceSize ∨ knownAceType (memory ace) = false then []
    else ace ::
      if Tokens.sidValidSize memory (aceSid ace) (dataSize (aceSize - sizeofAce)) then
        examined memory left (aceNext memory ace) (size - aceSize)
      else []

/-- The number of parts in the SID of a small entry is there. -/
def ShortInside (block : List UInt8) (entries : List Nat) : Prop :=
  ∀ ace ∈ entries, Tokens.aceSize (memoryOf block) ace < sizeofAce → aceSid ace + 1 < block.length

theorem shortInside_nil (block : List UInt8) : ShortInside block [] :=
  fun _ member => (List.not_mem_nil member).elim

/-- A check that looks at no entry has its answer. -/
theorem answers_nothing (answer : Bool) :
    Answers (.success answer : Outcome ε Bool) (ShortInside block []) answer :=
  (answers_success answer).congr (iff_of_true trivial (shortInside_nil block))

theorem shortInside_cons {entries : List Nat} : ShortInside block (ace :: entries) ↔
      (Tokens.aceSize (memoryOf block) ace < sizeofAce → aceSid ace + 1 < block.length) ∧
      ShortInside block entries :=
  List.forall_mem_cons

/-- The size of a small entry leaves room for any SID, as a number without a
sign, and another one has the SID inside. -/
theorem smallEntry_iff (room : ace + Tokens.aceSize (memoryOf block) ace ≤ block.length) :
    (sidOffset 0 ≤ dataSize (Tokens.aceSize (memoryOf block) ace - sizeofAce) →
        aceSid ace + 1 < block.length) ↔
      (Tokens.aceSize (memoryOf block) ace < sizeofAce → aceSid ace + 1 < block.length) := by
  have small := word16_lt (memoryOf block) (ace + 2)
  rw [Tokens.aceSize] at *
  rw [aceSid, dataSize, sidOffset, sizeofAce]
  omega

theorem aclLoop_answers (room : ace + size ≤ block.length) :
    Answers (aclLoop block left ace size : Outcome ε Bool)
      (ShortInside block (examined (memoryOf block) left ace size))
      (Tokens.aclLoop (memoryOf block) left ace size) := by
  induction left generalizing ace size with
  | zero => exact answers_nothing true
  | succ left ih =>
    rw [aclLoop, Tokens.aclLoop, examined]
    by_cases tiny : size < sizeofAce
    · simpa [tiny] using answers_nothing false
    have header : ace + sizeofAce ≤ block.length := by omega
    rw [sizeofAce] at header
    have sized : (read16 block (ace + 2) : Outcome ε Nat) =
        .success (Tokens.aceSize (memoryOf block) ace) :=
      (read16_answers block (ace + 2)).success (by omega)
    rw [if_neg tiny, sized, success_bind]
    by_cases long : size < Tokens.aceSize (memoryOf block) ace
    · simpa [long] using answers_nothing false
    rw [if_neg long, (readAt_answers block ace).success (by omega), success_bind]
    cases known : knownAceType (memoryOf block ace)
    · simpa using answers_nothing false
    have next : ace + Tokens.aceSize (memoryOf block) ace +
        (size - Tokens.aceSize (memoryOf block) ace) ≤ block.length := by omega
    simp only [tiny, long, decide_false, Bool.or_self, Bool.false_eq_true, if_false, Bool.not_true,
      Bool.true_eq_false, or_self]
    rw [shortInside_cons, ← smallEntry_iff (by omega)]
    refine (sidValidSize_answers block _ _).bind fun _ => ?_
    cases Tokens.sidValidSize (memoryOf block) (aceSid ace)
      (dataSize (Tokens.aceSize (memoryOf block) ace - sizeofAce)) with
    | true => exact ih next
    | false => exact answers_nothing false

/-! ## Descriptors -/

/-- The place of a part that is there. -/
def place (length offset : Nat) : Option Nat := if length ≠ 0 then some offset else none

/-- The entries that are looked at in a list of a descriptor. -/
def partExamined (memory : Tokens.Memory) (length offset size : Nat) : List Nat :=
  if length ≥ maxAclLen ∨ offset + length > size then []
  else if length < sizeofAcl then []
  else
    examined memory (Tokens.aclCount memory offset) (aceFirst offset)
      (min length maxAclLen - sizeofAcl)

/-- The entries that are looked at in a descriptor. -/
def sdExamined (memory : Tokens.Memory) (size : Nat) : List Nat :=
  let owner := Tokens.ownerLen memory
  let group := Tokens.groupLen memory
  let sacl := Tokens.saclLen memory
  let groupAt := sizeofDescriptor + owner
  let saclAt := groupAt + group
  if size < sizeofDescriptor then []
  else if !Tokens.sidPartIsValid memory (place owner sizeofDescriptor) owner sizeofDescriptor size
  then []
  else if !Tokens.sidPartIsValid memory (place group groupAt) group groupAt size then []
  else
    partExamined memory sacl saclAt size ++
      if Tokens.aclPartIsValid memory (place sacl saclAt) sacl saclAt size then
        partExamined memory (Tokens.daclLen memory) (saclAt + sacl) size
      else []

theorem shortInside_append {first second : List Nat} : ShortInside block (first ++ second) ↔
      ShortInside block first ∧ ShortInside block second :=
  List.forall_mem_append

section Whole

variable {offset : Nat} (room : size ≤ block.length)
include room

theorem sidPartIsValid_answers (length offset : Nat) :
    Answers (sidPartIsValid block length offset size : Outcome ε Bool) True
      (Tokens.sidPartIsValid (memoryOf block) (place length offset) length offset size) := by
  rw [sidPartIsValid, Tokens.sidPartIsValid, ← Bool.decide_or, place]
  by_cases wrong : length ≥ sidOffset 255 ∨ offset + length > size
  · rw [if_pos wrong, decide_eq_true wrong]
    exact answers_success false
  rw [if_neg wrong, decide_eq_false wrong]
  split_ifs
  · refine (sidValidSize_answers block offset length).congr (iff_of_true (fun long => ?_) trivial)
    rw [sidOffset] at long
    omega
  · exact answers_success true

theorem aclPartIsValid_answers (length offset : Nat) :
    Answers (aclPartIsValid block length offset size : Outcome ε Bool)
      (ShortInside block (partExamined (memoryOf block) length offset size))
      (Tokens.aclPartIsValid (memoryOf block) (place length offset) length offset size) := by
  rw [aclPartIsValid, Tokens.aclPartIsValid, ← Bool.decide_or, place, partExamined]
  by_cases wrong : length ≥ maxAclLen ∨ offset + length > size
  · rw [if_pos wrong, decide_eq_true wrong, if_pos wrong]
    exact answers_nothing false
  rw [if_neg wrong, decide_eq_false wrong, if_neg wrong]
  by_cases empty : length = 0
  · subst empty
    exact answers_nothing true
  rw [if_pos empty, if_pos empty, aclIsValid]
  change Answers _ _ (Tokens.aclIsValid (memoryOf block) offset length)
  rw [Tokens.aclIsValid]
  by_cases tiny : length < sizeofAcl
  · rw [if_pos tiny, if_pos tiny, if_pos tiny]
    exact answers_nothing false
  have counted : (read16 block (offset + 4) : Outcome ε Nat) =
      .success (Tokens.aclCount (memoryOf block) offset) :=
    (read16_answers block (offset + 4)).success (by rw [sizeofAcl] at tiny; omega)
  rw [if_neg tiny, if_neg tiny, if_neg tiny, counted, success_bind]
  refine aclLoop_answers ?_
  rw [aceFirst]
  omega

/-- The check answers as it does on memory without an end, exactly if it finds
the SIDs of the small entries that it looks at. -/
theorem sdIsValid_answers :
    Answers (sdIsValid block size : Outcome ε Bool)
      (ShortInside block (sdExamined (memoryOf block) size))
      (Tokens.sdIsValid (memoryOf block) size) := by
  rw [sdIsValid, sdExamined]
  unfold Tokens.sdIsValid
  dsimp only
  by_cases tiny : size < sizeofDescriptor
  · rw [if_pos tiny, decide_eq_true tiny, if_pos tiny]
    exact answers_nothing false
  have enough : 20 ≤ block.length := (Nat.not_lt.mp tiny).trans room
  have ownerRead : (read32 block 4 : Outcome ε Nat) = .success (Tokens.ownerLen (memoryOf block)) :=
    (read32_answers block 4).success (by omega)
  have groupRead : (read32 block 8 : Outcome ε Nat) = .success (Tokens.groupLen (memoryOf block)) :=
    (read32_answers block 8).success (by omega)
  have saclRead : (read32 block 12 : Outcome ε Nat) = .success (Tokens.saclLen (memoryOf block)) :=
    (read32_answers block 12).success (by omega)
  have daclRead : (read32 block 16 : Outcome ε Nat) = .success (Tokens.daclLen (memoryOf block)) :=
    (read32_answers block 16).success (by omega)
  rw [if_neg tiny, decide_eq_false tiny, if_neg tiny]
  change Answers _ _ (_ && Tokens.sidPartIsValid (memoryOf block) (place _ _) _ _ _ &&
    (Tokens.sidPartIsValid (memoryOf block) (place _ _) _ _ _ &&
    (Tokens.aclPartIsValid (memoryOf block) (place _ _) _ _ _ &&
      Tokens.aclPartIsValid (memoryOf block) (place _ _) _ _ _)))
  generalize Tokens.ownerLen (memoryOf block) = owner at ownerRead ⊢
  generalize Tokens.groupLen (memoryOf block) = group at groupRead ⊢
  generalize Tokens.saclLen (memoryOf block) = sacl at saclRead ⊢
  rw [ownerRead, success_bind, (sidPartIsValid_answers room _ _).success trivial, success_bind]
  cases Tokens.sidPartIsValid (memoryOf block) (place owner sizeofDescriptor) owner
    sizeofDescriptor size
  · exact answers_nothing false
  simp only [Bool.not_true, Bool.false_eq_true, if_false, Bool.not_false, Bool.true_and]
  rw [groupRead, success_bind, (sidPartIsValid_answers room _ _).success trivial, success_bind]
  generalize sizeofDescriptor + owner = groupAt
  cases Tokens.sidPartIsValid (memoryOf block) (place group groupAt) group groupAt size
  · exact answers_nothing false
  simp only [Bool.not_true, Bool.false_eq_true, if_false, Bool.true_and]
  rw [saclRead, success_bind, shortInside_append]
  refine (aclPartIsValid_answers room _ _).bind fun _ => ?_
  generalize groupAt + group = saclAt
  cases Tokens.aclPartIsValid (memoryOf block) (place sacl saclAt) sacl saclAt size
  · exact answers_nothing false
  simp only [Bool.not_true, Bool.false_eq_true, if_false, Bool.true_and, if_true]
  rw [daclRead, success_bind]
  exact aclPartIsValid_answers room _ _

end Whole

end WineRedRose.Processes
