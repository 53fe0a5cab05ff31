import Mathlib.Tactic

/-!
# Written numbers

Numbers are written with the highest digit first, in a given number of places
or without the leading zeros, and read by adding digit after digit to what has
been read so far.
-/

namespace WineRedRose.Library.Numerals

open List

/-- The digits of a number in the given number of places. -/
def digits (base : Nat) : (places : Nat) → (number : Nat) → List Nat
  | 0, _ => []
  | places + 1, number => number / base ^ places % base :: digits base places number

/-- Digits without leading zeros; one digit stays. -/
def trim : List Nat → List Nat
  | 0 :: next :: rest => trim (next :: rest)
  | rest => rest

/-- The number read from digits, after what has been read so far. -/
def readFrom (base : Nat) (sofar : Nat) (written : List Nat) : Nat :=
  written.foldl (fun number digit => number * base + digit) sofar

variable {base : Nat}

variable {places : Nat} {number : Nat}

@[simp]
theorem digits_length (base places number : Nat) : (digits base places number).length = places := by
  induction places with
  | zero => rfl
  | succ places ih => rw [digits, length_cons, ih]

theorem digits_lt (positive : 0 < base) : ∀ digit ∈ digits base places number, digit < base := by
  induction places with
  | zero => simp [digits]
  | succ places ih => exact forall_mem_cons.mpr ⟨Nat.mod_lt _ positive, ih⟩

variable {rest : List Nat}

theorem readFrom_cons (base sofar digit : Nat) (rest : List Nat) :
    readFrom base sofar (digit :: rest) = readFrom base (sofar * base + digit) rest := rfl

theorem readFrom_digits (base sofar places number : Nat) :
    readFrom base sofar (digits base places number) =
      sofar * base ^ places + number % base ^ places := by
  induction places generalizing sofar with
  | zero => simp [digits, readFrom, Nat.mod_one]
  | succ places ih =>
    have split : number % base ^ (places + 1) =
        number % base ^ places + base ^ places * (number / base ^ places % base) := by
      rw [pow_succ, Nat.mod_mul]
    rw [digits, readFrom_cons, ih, split]
    ring

theorem readFrom_trim (written : List Nat) :
    readFrom base 0 (trim written) = readFrom base 0 written := by
  induction written using trim.induct with
  | case1 next rest ih => rw [trim, ih, readFrom_cons base 0 0, Nat.zero_mul, Nat.zero_add]
  | case2 rest plain => rw [trim.eq_2 rest plain]

theorem trim_length_le (written : List Nat) : (trim written).length ≤ written.length := by
  induction written using trim.induct with
  | case1 next rest ih =>
    rw [trim]
    exact ih.trans (Nat.le_succ _)
  | case2 rest plain => rw [trim.eq_2 rest plain]

variable {written : List Nat}

theorem trim_ne_nil (some : written ≠ []) : trim written ≠ [] := by
  induction written using trim.induct with
  | case1 next rest ih =>
    rw [trim]
    exact ih (cons_ne_nil _ _)
  | case2 rest plain =>
    rw [trim.eq_2 rest plain]
    exact some

variable {digit : Nat}

theorem mem_of_mem_trim (member : digit ∈ trim written) : digit ∈ written := by
  induction written using trim.induct with
  | case1 next rest ih => exact mem_cons_of_mem _ (ih member)
  | case2 rest plain =>
    rw [trim.eq_2 rest plain] at member
    exact member

theorem trim_zero_cons (next : Nat) : trim (0 :: next :: rest) = trim (next :: rest) := rfl

theorem trim_cons_of_ne_zero (nonzero : digit ≠ 0) : trim (digit :: rest) = digit :: rest :=
  trim.eq_2 _ fun _ _ equality => nonzero (cons.inj equality).1

/-- A number is written in no more than the given places. -/
structure Writes (base places number : Nat) (written : List Nat) : Prop where
  ne_nil : written ≠ []
  length_le : written.length ≤ places
  lt : ∀ digit ∈ written, digit < base
  value : readFrom base 0 written = number

theorem writes_digits {number : Nat} (positive : 0 < base) (fits : number < base ^ (places + 1)) :
    Writes base (places + 1) number (digits base (places + 1) number) where
  ne_nil := cons_ne_nil _ _
  length_le := (digits_length base (places + 1) number).le
  lt := digits_lt positive
  value := by rw [readFrom_digits, Nat.zero_mul, Nat.zero_add, Nat.mod_eq_of_lt fits]

theorem Writes.trim {number : Nat} (writes : Writes base places number written) :
    Writes base places number (trim written) where
  ne_nil := trim_ne_nil writes.ne_nil
  length_le := (trim_length_le written).trans writes.length_le
  lt := fun digit member => writes.lt digit (mem_of_mem_trim member)
  value := (readFrom_trim written).trans writes.value

/-- The first digit and what is read after it. -/
theorem Writes.first {number : Nat} (writes : Writes base (places + 1) number written) :
    ∃ digit rest, written = digit :: rest ∧ digit < base ∧ rest.length ≤ places ∧
      (∀ later ∈ rest, later < base) ∧ readFrom base digit rest = number := by
  rcases exists_cons_of_ne_nil writes.ne_nil with ⟨digit, rest, rfl⟩
  refine ⟨digit, rest, rfl, writes.lt digit (mem_cons_self ..),
    Nat.le_of_succ_le_succ writes.length_le,
    fun later member => writes.lt later (mem_cons_of_mem _ member), ?_⟩
  rw [← writes.value, readFrom_cons, Nat.zero_mul, Nat.zero_add]

end WineRedRose.Library.Numerals
