import Mathlib.Tactic

/-!
# Binary long division

A dividend of a given width is shifted bit by bit into a remainder of the same
width; after each shift the divisor is subtracted on trial, and the difference
is kept when its top bit is clear.  The quotient grows in the places that the
dividend has left.  With a divisor of at most half the range the top bit tells
the sign of the difference, and the result is exact.
-/

namespace WineRedRose.Library.LongDivision

/-- What is left of the dividend with the quotient below it, and the
remainder. -/
structure State where
  low : Nat
  high : Nat
deriving DecidableEq, Repr

/-- Both parts shifted left by one bit, as one number. -/
def State.shift (width : Nat) (state : State) : State := ⟨2 * state.low % 2 ^ width,
    (2 * state.high + state.low / 2 ^ (width - 1)) % 2 ^ width⟩

/-- One bit: the trial subtraction is kept when its top bit is clear. -/
def step (width divisor : Nat) (state : State) : State :=
  let shifted := state.shift width
  let trial := (shifted.high + (2 ^ width - divisor)) % 2 ^ width
  if trial < 2 ^ (width - 1) then ⟨shifted.low + 1, trial⟩ else shifted

/-- So many bits. -/
def steps (width divisor : Nat) : (count : Nat) → State → State
  | 0, state => state
  | count + 1, state => steps width divisor count (step width divisor state)

/-- The state once so many bits of the dividend have been used. -/
def stateAt (width divisor dividend used : Nat) : State :=
  let known := dividend / 2 ^ (width - used)
  ⟨dividend % 2 ^ (width - used) * 2 ^ used + known / divisor, known % divisor⟩

/-- Quotient and remainder when one more bit is known. -/
theorem next_digit (known divisor bit : Nat) (positive : 0 < divisor) (binary : bit < 2) :
    (2 * known + bit) / divisor = 2 * (known / divisor) +
          (if divisor ≤ 2 * (known % divisor) + bit then 1 else 0) ∧
      (2 * known + bit) % divisor = 2 * (known % divisor) + bit -
          (if divisor ≤ 2 * (known % divisor) + bit then divisor else 0) := by
  have split := Nat.div_add_mod known divisor
  have less := Nat.mod_lt known positive
  generalize known / divisor = quotient at *
  generalize known % divisor = rest at *
  have whole : 2 * known + bit = divisor * (2 * quotient) + (2 * rest + bit) := by
    rw [← split]
    ring
  rw [whole, Nat.mul_add_div positive, Nat.mul_add_mod]
  split_ifs with reached
  · have below : 2 * rest + bit - divisor < divisor := by omega
    have split' : 2 * rest + bit = divisor * 1 + (2 * rest + bit - divisor) := by omega
    constructor
    · rw [split', Nat.mul_add_div positive, Nat.div_eq_of_lt below]
    · rw [split', Nat.mul_add_mod, Nat.mod_eq_of_lt below]
      omega
  · have below : 2 * rest + bit < divisor := by omega
    rw [Nat.div_eq_of_lt below, Nat.mod_eq_of_lt below]
    exact ⟨rfl, rfl⟩

variable {width divisor dividend used count : Nat}

theorem step_stateAt (positive : 0 < divisor) (half : divisor ≤ 2 ^ (width - 1))
    (small : dividend < 2 ^ width) (more : used < width) :
    step width divisor (stateAt width divisor dividend used) =
      stateAt width divisor dividend (used + 1) := by
  obtain ⟨rest, rfl⟩ : ∃ rest, width = used + rest + 1 := ⟨width - used - 1, by omega⟩
  have left : used + rest + 1 - used = rest + 1 := by omega
  have next : used + rest + 1 - (used + 1) = rest := by omega
  have top : used + rest + 1 - 1 = used + rest := by omega
  rw [top] at half
  -- the bits used so far, the next bit and the bits after it
  have binary : dividend / 2 ^ rest % 2 < 2 := Nat.mod_lt _ (by norm_num)
  have known : dividend / 2 ^ rest = 2 * (dividend / 2 ^ (rest + 1)) + dividend / 2 ^ rest % 2 := by
    rw [pow_succ, ← Nat.div_div_eq_div_mul]
    omega
  have remaining : dividend % 2 ^ (rest + 1) =
      dividend % 2 ^ rest + 2 ^ rest * (dividend / 2 ^ rest % 2) := by
    rw [pow_succ, Nat.mod_mul]
  have fewer : dividend / 2 ^ (rest + 1) < 2 ^ used := by
    apply Nat.div_lt_of_lt_mul
    rwa [← pow_add, add_comm (rest + 1), ← add_assoc]
  have below : dividend % 2 ^ rest < 2 ^ rest := Nat.mod_lt _ (by positivity)
  obtain ⟨quotient_eq, rest_eq⟩ := next_digit (dividend / 2 ^ (rest + 1)) divisor
    (dividend / 2 ^ rest % 2) positive binary
  rw [← known] at quotient_eq rest_eq
  have quotient_lt : dividend / 2 ^ (rest + 1) / divisor < 2 ^ used :=
    (Nat.div_le_self _ _).trans_lt fewer
  have rest_lt := Nat.mod_lt (dividend / 2 ^ (rest + 1)) positive
  rw [step, State.shift, stateAt, stateAt]
  rw [left, next, top, quotient_eq, rest_eq, remaining]
  have width_eq : 2 ^ (used + rest + 1) = 2 * (2 ^ used * 2 ^ rest) := by
    rw [pow_succ, pow_add]
    ring
  have half_eq : 2 ^ (used + rest) = 2 ^ used * 2 ^ rest := pow_add 2 used rest
  rw [width_eq, half_eq, pow_succ 2 used]
  generalize dividend / 2 ^ rest % 2 = bit at *
  generalize dividend % 2 ^ rest = lower at *
  generalize dividend / 2 ^ (rest + 1) / divisor = quotient at *
  generalize dividend / 2 ^ (rest + 1) % divisor = remainder at *
  generalize 2 ^ used = scale at *
  generalize 2 ^ rest = weight at *
  have fits : lower * scale + quotient < scale * weight := by nlinarith
  have low_eq : (lower + weight * bit) * scale + quotient =
      lower * scale + quotient + scale * weight * bit := by ring
  have double_eq : lower * (scale * 2) + 2 * quotient = 2 * (lower * scale + quotient) := by ring
  rw [low_eq, ← add_assoc, double_eq]
  generalize lower * scale + quotient = kept at *
  generalize scale * weight = half' at *
  have shifted : 2 * (kept + half' * bit) % (2 * half') = 2 * kept := by
    rw [mul_add, ← mul_assoc, Nat.add_mul_mod_self_left, Nat.mod_eq_of_lt (by omega)]
  have top_bit : (kept + half' * bit) / half' = bit := by
    rw [Nat.add_mul_div_left _ _ (by omega), Nat.div_eq_of_lt fits, zero_add]
  have high : (2 * remainder + bit) % (2 * half') = 2 * remainder + bit :=
    Nat.mod_eq_of_lt (by omega)
  rw [shifted, top_bit, high]
  by_cases reached : divisor ≤ 2 * remainder + bit
  · have trial : (2 * remainder + bit + (2 * half' - divisor)) % (2 * half') =
        2 * remainder + bit - divisor := by
      have wrapped : 2 * remainder + bit + (2 * half' - divisor) =
          2 * remainder + bit - divisor + 2 * half' := by omega
      rw [wrapped, Nat.add_mod_right, Nat.mod_eq_of_lt (by omega)]
    rw [trial, if_pos (by omega), if_pos reached, if_pos reached]
  · have trial : (2 * remainder + bit + (2 * half' - divisor)) % (2 * half') =
        2 * remainder + bit + (2 * half' - divisor) :=
      Nat.mod_eq_of_lt (by omega)
    rw [trial, if_neg (by omega), if_neg reached, if_neg reached]
    rfl

theorem steps_stateAt (positive : 0 < divisor) (half : divisor ≤ 2 ^ (width - 1))
    (small : dividend < 2 ^ width) (enough : used + count ≤ width) :
    steps width divisor count (stateAt width divisor dividend used) =
      stateAt width divisor dividend (used + count) := by
  induction count generalizing used with
  | zero => rfl
  | succ count ih =>
    rw [steps, step_stateAt positive half small (by omega), ih (by omega)]
    congr 1
    omega

/-- Before any of the leading zero bits nothing has been found. -/
theorem stateAt_zeros (zeros : dividend < 2 ^ (width - used)) :
    stateAt width divisor dividend used = ⟨dividend * 2 ^ used, 0⟩ := by
  rw [stateAt, Nat.div_eq_of_lt zeros, Nat.mod_eq_of_lt zeros, Nat.zero_div, Nat.zero_mod, add_zero]

/-- Long division from any number of leading zero bits on is exact. -/
theorem steps_eq {skipped : Nat} (positive : 0 < divisor) (half : divisor ≤ 2 ^ (width - 1))
    (within : skipped ≤ width) (zeros : dividend < 2 ^ (width - skipped)) :
    steps width divisor (width - skipped) ⟨dividend * 2 ^ skipped, 0⟩ =
      ⟨dividend / divisor, dividend % divisor⟩ := by
  have small : dividend < 2 ^ width :=
    zeros.trans_le (Nat.pow_le_pow_right (by norm_num) (Nat.sub_le _ _))
  rw [← stateAt_zeros zeros, steps_stateAt positive half small (by omega),
    Nat.add_sub_of_le within, stateAt]
  simp [Nat.mod_one]

/-! ## Divisors of another size -/

/-- A quotient bit once found moves up with each step. -/
theorem step_testBit {place : Nat} {state : State} (found : state.low.testBit place = true)
    (room : place + 1 < width) :
    (step width divisor state).low.testBit (place + 1) = true := by
  obtain ⟨width, rfl⟩ : ∃ less, width = less + 1 := ⟨width - 1, by omega⟩
  have moved : ∀ bit, bit < 2 →
      (2 * state.low % 2 ^ (width + 1) + bit).testBit (place + 1) = true := by
    intro bit binary
    have halved : (2 * state.low % 2 ^ (width + 1) + bit) / 2 = state.low % 2 ^ width := by
      rw [pow_succ, mul_comm (2 ^ width) 2, Nat.mul_mod_mul_left]
      omega
    rw [Nat.testBit_succ, halved, Nat.testBit_mod_two_pow, found]
    simp
    omega
  rw [step]
  split_ifs
  · exact moved 1 (by norm_num)
  · exact moved 0 (by norm_num)

theorem steps_testBit {place : Nat} {state : State} (found : state.low.testBit place = true)
    (room : place + count < width) :
    (steps width divisor count state).low.testBit (place + count) = true := by
  induction count generalizing place state with
  | zero => exact found
  | succ count ih =>
    have moved : (step width divisor state).low.testBit (place + 1) = true :=
      step_testBit found (by omega)
    rw [steps, show place + (count + 1) = place + 1 + count by omega]
    exact ih moved (by omega)

/-- When even nothing minus the divisor has a clear top bit, a quotient bit
appears at once. -/
theorem steps_low_ne_zero {low : Nat} (taken : (2 ^ width - divisor) % 2 ^ width < 2 ^ (width - 1))
    (clear : low < 2 ^ (width - 1)) (room : count < width) :
    (steps width divisor (count + 1) ⟨low, 0⟩).low ≠ 0 := by
  have first : (step width divisor ⟨low, 0⟩).low.testBit 0 = true := by
    obtain ⟨width, rfl⟩ : ∃ less, width = less + 1 := ⟨width - 1, by omega⟩
    rw [Nat.add_sub_cancel] at taken clear
    have even : 2 * low % 2 ^ (width + 1) = 2 * low := by
      rw [pow_succ]
      exact Nat.mod_eq_of_lt (by omega)
    rw [step, State.shift]
    rw [Nat.add_sub_cancel, Nat.div_eq_of_lt clear, mul_zero, Nat.add_zero,
      Nat.zero_mod, Nat.zero_add, if_pos taken, even, Nat.testBit_zero]
    simp
  have last : (steps width divisor count (step width divisor ⟨low, 0⟩)).low.testBit
      (0 + count) = true := steps_testBit first (by omega)
  intro zero
  rw [steps] at zero
  rw [zero, Nat.zero_testBit] at last
  cases last

end WineRedRose.Library.LongDivision
