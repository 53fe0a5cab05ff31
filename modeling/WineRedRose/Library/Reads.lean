import Mathlib.Tactic

/-!
# Computations that read a block of memory

A computation over a block of memory ends with a value, with an error that it
reports, or by reading outside of the block.  Reads are checked, so the last
outcome is the only one in which something outside was touched.
-/

namespace WineRedRose.Library.Reads

variable {ε α β cell : Type}

/-- How a computation over a block of memory ends. -/
inductive Outcome (ε α : Type) where
  | success (value : α)
  | failure (error : ε)
  | outside
deriving DecidableEq, Repr

/-- Goes on after a success and stops after anything else. -/
def Outcome.andThen (outcome : Outcome ε α) (next : α → Outcome ε β) :
    Outcome ε β :=
  match outcome with
  | .success value => next value
  | .failure error => .failure error
  | .outside => .outside

instance : Monad (Outcome ε) where
  pure := Outcome.success
  bind := Outcome.andThen

@[simp]
theorem pure_eq_success (value : α) : (pure value : Outcome ε α) = .success value := rfl

variable {outcome : Outcome ε α} {next : α → Outcome ε β}

@[simp]
theorem success_bind (value : α) (next : α → Outcome ε β) :
    (Outcome.success value >>= next) = next value := rfl

@[simp]
theorem failure_bind (error : ε) (next : α → Outcome ε β) :
    (Outcome.failure error >>= next) = .failure error := rfl

@[simp]
theorem outside_bind : ((Outcome.outside : Outcome ε α) >>= next) = .outside := rfl

theorem bind_eq_success_iff {result : β} :
    (outcome >>= next) = .success result ↔
      ∃ value, outcome = .success value ∧ next value = .success result := by
  cases outcome <;> simp

theorem bind_eq_outside_iff : (outcome >>= next) = .outside ↔
      outcome = .outside ∨ ∃ value, outcome = .success value ∧ next value = .outside := by
  cases outcome <;> simp

theorem success_ne_outside (value : α) : (Outcome.success value : Outcome ε α) ≠ .outside :=
  fun equality => nomatch equality

/-! ## Safe computations -/

/-- The computation has the value if it is safe, and reads outside if not. -/
structure Answers (outcome : Outcome ε α) (safe : Prop) (value : α) : Prop where
  success : safe → outcome = .success value
  outside : ¬ safe → outcome = .outside

section Answers

variable {safe safe' : Prop} {value : α} {result : β}

theorem answers_success (value : α) : Answers (.success value : Outcome ε α) True value :=
  ⟨fun _ => rfl, fun unsafely => (unsafely trivial).elim⟩

theorem Answers.congr (answers : Answers outcome safe value) (same : safe ↔ safe') :
    Answers outcome safe' value :=
  ⟨fun safely => answers.success (same.mpr safely),
    fun unsafely => answers.outside fun safely => unsafely (same.mp safely)⟩

theorem Answers.bind (first : Answers outcome safe value)
    (second : safe → Answers (next value) safe' result) :
    Answers (outcome >>= next) (safe ∧ safe') result where
  success both := by
    rw [first.success both.1, success_bind]
    exact (second both.1).success both.2
  outside unsafely := by
    by_cases here : safe
    · rw [first.success here, success_bind]
      exact (second here).outside fun there => unsafely ⟨here, there⟩
    · rw [first.outside here, outside_bind]

theorem Answers.map (answers : Answers outcome safe value) (f : α → β) :
    Answers (outcome >>= fun value => pure (f value)) safe (f value) where
  success safely := by rw [answers.success safely, success_bind, pure_eq_success]
  outside unsafely := by rw [answers.outside unsafely, outside_bind]

end Answers

/-! ## Reads -/

/-- The cell at an offset. -/
def readAt (block : List cell) (offset : Nat) : Outcome ε cell :=
  match block[offset]? with
  | some value => .success value
  | none => .outside

/-- A run of cells from an offset on. -/
def readBlock (block : List cell) (offset count : Nat) : Outcome ε (List cell) :=
  if offset + count ≤ block.length then .success ((block.drop offset).take count)
  else .outside

variable {block : List cell} {offset count : Nat}

theorem readAt_of_some {value : cell} (found : block[offset]? = some value) :
    readAt block offset = (.success value : Outcome ε cell) := by
  rw [readAt, found]

theorem readAt_of_lt (inside : offset < block.length) :
    readAt block offset = (.success (block.get ⟨offset, inside⟩) : Outcome ε cell) :=
  readAt_of_some (by simp)

theorem readAt_of_le (beyond : block.length ≤ offset) :
    readAt block offset = (.outside : Outcome ε cell) := by
  rw [readAt, List.getElem?_eq_none beyond]

theorem readAt_eq_success_iff {value : cell} :
    readAt block offset = (.success value : Outcome ε cell) ↔ block[offset]? = some value := by
  rw [readAt]
  cases block[offset]? <;> simp

theorem readAt_cases : (∃ value, readAt block offset = (.success value : Outcome ε cell)) ∨
      readAt block offset = (.outside : Outcome ε cell) := by
  rw [readAt]
  cases block[offset]? with
  | none => exact .inr rfl
  | some value => exact .inl ⟨value, rfl⟩

theorem readAt_append (front : List cell) (value : cell) (rest : List cell) :
    readAt (front ++ value :: rest) front.length = (.success value : Outcome ε cell) :=
  readAt_of_some (by simp)

theorem readAt_middle (front : List cell) (value : cell) (body rest : List cell) :
    readAt (front ++ value :: body ++ rest) front.length = (.success value : Outcome ε cell) := by
  rw [List.append_assoc, List.cons_append]
  exact readAt_append front value _

theorem readBlock_of_le (inside : offset + count ≤ block.length) : readBlock block offset count =
      (.success ((block.drop offset).take count) : Outcome ε (List cell)) :=
  if_pos inside

theorem readBlock_of_lt (beyond : block.length < offset + count) :
    readBlock block offset count = (.outside : Outcome ε (List cell)) :=
  if_neg (by omega)

theorem readBlock_eq_success_iff {copied : List cell} :
    readBlock block offset count = (.success copied : Outcome ε (List cell)) ↔
      offset + count ≤ block.length ∧ (block.drop offset).take count = copied := by
  rw [readBlock]
  split_ifs with inside <;> simp [inside]

end WineRedRose.Library.Reads
