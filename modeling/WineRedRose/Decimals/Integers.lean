import WineRedRose.Decimals.Model
import WineRedRose.Library.LongDivision

/-!
# Integers of several words

What the routines on arrays of words compute, as numbers: each one is described
by the number that its words hold afterwards.  Only the rounding loop is not
what it looks like: the carry out of the lowest word is lost.
-/

namespace WineRedRose.Decimals

open Library.Words

variable {p v : List UInt32} {count count' number number' : Nat}

theorem intIsZero_iff (held : Holds p count number) : intIsZero p = true ↔ number = 0 := by
  rw [intIsZero, ← value_eq_zero_iff, held.value_eq]

/-! ## Multiplication and division by a byte -/

theorem divSteps_spec {divisor : Nat} (positive : 0 < divisor) (p : List UInt32) :
    Holds (divSteps divisor p).1 p.length (value p / divisor) ∧
      (divSteps divisor p).2 = value p % divisor := by
  induction p with
  | nil => exact ⟨⟨rfl, (Nat.zero_div _).symm⟩, (Nat.zero_mod _).symm⟩
  | cons word rest ih =>
    obtain ⟨quotient, remainder⟩ := ih
    have below := word.toNat_lt
    have less := Nat.mod_lt (value rest) positive
    have whole : value (word :: rest) = 2 ^ 32 * (value rest % divisor) + word.toNat +
          divisor * (2 ^ 32 * (value rest / divisor)) := by
      have split := Nat.div_add_mod (value rest) divisor
      rw [value_cons]
      nth_rewrite 1 [← split]
      ring
    have digit : (2 ^ 32 * (value rest % divisor) + word.toNat) / divisor < 2 ^ 32 := by
      apply Nat.div_lt_of_lt_mul
      nlinarith
    have shifted : (divSteps divisor rest).2 <<< 32 + word.toNat =
        2 ^ 32 * (value rest % divisor) + word.toNat := by
      rw [remainder, Nat.shiftLeft_eq, mul_comm]
    rw [divSteps]
    dsimp only
    rw [shifted]
    constructor
    · have held := quotient.cons (UInt32.ofNat
        ((2 ^ 32 * (value rest % divisor) + word.toNat) / divisor))
      rw [UInt32.toNat_ofNat', Nat.mod_eq_of_lt digit] at held
      rwa [whole, Nat.add_mul_div_left _ _ positive]
    · rw [whole, Nat.add_mul_mod_self_left]

theorem intDivByChar_ten (held : Holds p count number) :
    Holds (intDivByChar p 10).1 count (number / 10) ∧ (intDivByChar p 10).2 = number % 10 := by
  have divided := divSteps_spec (show 0 < 10 by norm_num) p
  rw [held.length_eq, held.value_eq] at divided
  exact divided

/-! ## Addition -/

theorem carrySteps_spec (carry : Nat) (p : List UInt32) :
    Holds (carrySteps carry p) p.length ((value p + carry) % 2 ^ (32 * p.length)) := by
  induction p generalizing carry with
  | nil => exact ⟨rfl, (Nat.mod_one _).symm⟩
  | cons word rest ih =>
    rw [carrySteps]
    split_ifs with none
    · rw [none, add_zero, Nat.mod_eq_of_lt (value_lt _)]
      exact holds_value _
    · have whole : value (word :: rest) + carry = word.toNat + carry + 2 ^ 32 * value rest := by
        rw [value_cons]
        ring
      have rest_held := ih ((word.toNat + carry) / 2 ^ 32)
      rw [add_comm (value rest)] at rest_held
      rw [whole]
      exact rest_held.cons_carry

theorem addSteps_spec (carry : Nat) (v p : List UInt32) (room : p.length ≤ v.length) :
    Holds (addSteps carry v p) v.length ((value v + value p + carry) % 2 ^ (32 * v.length)) := by
  induction p generalizing carry v with
  | nil =>
    have carried := carrySteps_spec carry v
    rw [addSteps, value_nil, add_zero]
    exact carried
  | cons word' p ih =>
    cases v with
    | nil => cases room
    | cons word v =>
      have whole : value (word :: v) + value (word' :: p) + carry =
          word.toNat + word'.toNat + carry + 2 ^ 32 * (value v + value p) := by
        rw [value_cons, value_cons]
        ring
      have rest_held := ih ((word.toNat + word'.toNat + carry) / 2 ^ 32) v
        (Nat.le_of_succ_le_succ room)
      rw [add_comm (value v + value p)] at rest_held
      rw [whole]
      exact rest_held.cons_carry

theorem intAdd_spec (held : Holds v count number) (held' : Holds p count' number')
    (room : count' ≤ count) :
    Holds (intAdd v p) count ((number + number') % 2 ^ (32 * count)) := by
  have room' : p.length ≤ v.length := by
    rw [held.length_eq, held'.length_eq]
    exact room
  have added := addSteps_spec 0 v p room'
  rw [held.length_eq, held.value_eq, held'.value_eq, add_zero] at added
  rw [intAdd, if_pos room']
  exact added

theorem padTo_spec (held : Holds p count number) (more : count ≤ count') :
    Holds (padTo count' p) count' number := by
  have padded := held.append (holds_zeros (count' - p.length))
  rw [held.length_eq, Nat.add_sub_of_le more, mul_zero, add_zero] at padded
  rw [padTo, held.length_eq]
  exact padded

/-! ## Shifts -/

theorem intShiftLeft_word (held : Holds p (count + 1) number) :
    Holds (intShiftLeft p 32) (count + 1) (2 ^ 32 * (number % 2 ^ (32 * count))) := by
  have lower := held.take (Nat.le_succ count)
  have shifted := lower.cons 0
  have moved : intShiftLeft p 32 = 0 :: p.take count := by
    show 0 :: p.dropLast = _
    rw [List.dropLast_eq_take, held.length_eq, Nat.add_sub_cancel]
  rw [moved]
  rw [UInt32.toNat_zero, zero_add] at shifted
  exact shifted

theorem shiftBits_one (shifted : UInt32) (bit : shifted.toNat < 2) (p : List UInt32) :
    Holds (shiftBits 1 shifted p) p.length
      ((2 * value p + shifted.toNat) % 2 ^ (32 * p.length)) := by
  induction p generalizing shifted with
  | nil => exact ⟨rfl, (Nat.mod_one _).symm⟩
  | cons word rest ih =>
    have below := word.toNat_lt
    have out : (word >>> (32 - 1)).toNat = word.toNat / 2 ^ 31 := by
      rw [UInt32.toNat_shiftRight, Nat.shiftRight_eq_div_pow]
      rfl
    have moved : (word <<< (1 : UInt32)).toNat = 2 * word.toNat % 2 ^ 32 := by
      rw [UInt32.toNat_shiftLeft, Nat.shiftLeft_eq, mul_comm]
      rfl
    have joined : (word <<< (1 : UInt32) ||| shifted) =
        UInt32.ofNat (2 * word.toNat + shifted.toNat) := by
      apply UInt32.toNat_inj.mp
      have even : 2 * word.toNat % 2 ^ 32 = (word.toNat % 2 ^ 31) <<< 1 := by
        rw [Nat.shiftLeft_eq]
        omega
      rw [UInt32.toNat_or, moved, UInt32.toNat_ofNat', even,
        ← Nat.shiftLeft_add_eq_or_of_lt bit, ← even]
      omega
    have whole : 2 * value (word :: rest) + shifted.toNat =
        2 * word.toNat + shifted.toNat + 2 ^ 32 * (2 * value rest) := by
      rw [value_cons]
      ring
    have rest_held := ih (word >>> (32 - 1)) (by omega)
    have carried : 2 * value rest + (word >>> (32 - 1)).toNat =
        (2 * word.toNat + shifted.toNat) / 2 ^ 32 + 2 * value rest := by
      rw [out]
      omega
    rw [carried] at rest_held
    rw [shiftBits, joined, whole]
    exact rest_held.cons_carry

theorem intShiftLeft_bit (held : Holds p count number) :
    Holds (intShiftLeft p 1) count (2 * number % 2 ^ (32 * count)) := by
  have shifted := shiftBits_one 0 (by decide) p
  rw [held.length_eq, held.value_eq] at shifted
  exact shifted

/-! ## Rounding up -/

/-- A number after the rounding loop. -/
def bumped (number : Nat) : Nat :=
  if number % 2 ^ 32 = 2 ^ 32 - 1 then number - (2 ^ 32 - 1) else number + 1

theorem bumped_lt (small : number < 2 ^ 96) : bumped number < 2 ^ 96 := by
  rw [bumped]
  split_ifs <;> omega

theorem roundUp_cons (word : UInt32) (rest : List UInt32) :
    roundUp (word :: rest) = (word + 1) :: rest := by
  have below := (word + 1).toNat_lt
  have masked : (word + 1).toNat &&& 0xffffffff = (word + 1).toNat := by
    rw [show 0xffffffff = 2 ^ 32 - 1 by rfl, Nat.and_two_pow_sub_one_eq_mod, Nat.mod_eq_of_lt below]
  rw [roundUp, masked, UInt32.ofNat_toNat, if_neg (by omega)]

theorem roundUp_spec (held : Holds p (count + 1) number) :
    Holds (roundUp p) (count + 1) (bumped number) := by
  cases p with
  | nil => cases held.length_eq
  | cons word rest =>
    have below := word.toNat_lt
    have whole := held.value_eq
    rw [value_cons] at whole
    have raised : (word + 1).toNat = (word.toNat + 1) % 2 ^ 32 := by
      rw [UInt32.toNat_add]
      rfl
    rw [roundUp_cons]
    constructor
    · exact held.length_eq
    · rw [value_cons, raised, bumped]
      split_ifs with full <;> omega

/-! ## Repeated divisions by ten -/

/-- The divisions by ten that are made until a number is as wanted: none was
wanted before, and either it is now or the count is used up. -/
structure Divided
    (wanted : Nat → Prop) (count number remainder : Nat) (turns last : Nat) :
    Prop where
  within : turns ≤ count
  unwanted : ∀ earlier, earlier < turns → ¬ wanted (number / 10 ^ earlier)
  ended : turns = count ∨ wanted (number / 10 ^ turns)
  untouched : turns = 0 → last = remainder
  digit : ∀ earlier, turns = earlier + 1 → last = number / 10 ^ earlier % 10

theorem divideUntil_spec {test : List UInt32 → Bool} {wanted : Nat → Prop} {size : Nat}
    (meaning : ∀ {p number}, Holds p size number → (test p = true ↔ wanted number))
    (held : Holds p size number) (remainder : Nat) :
    ∃ turns, (divideUntil test count p remainder).1 = count - turns ∧
      Holds (divideUntil test count p remainder).2.1 size (number / 10 ^ turns) ∧
      Divided wanted count number remainder turns (divideUntil test count p remainder).2.2 := by
  induction count generalizing p number remainder with
  | zero =>
    refine ⟨0, rfl, ?_, ?_⟩
    · rw [pow_zero, Nat.div_one]
      exact held
    · exact ⟨le_rfl, by simp, .inl rfl, fun _ => rfl, by simp⟩
  | succ count ih =>
    by_cases reached : test p = true
    · have stopped : divideUntil test (count + 1) p remainder = (count + 1, p, remainder) := by
        rw [divideUntil, if_pos reached]
      rw [stopped]
      refine ⟨0, rfl, ?_, ?_⟩
      · rw [pow_zero, Nat.div_one]
        exact held
      · refine ⟨Nat.zero_le _, by simp, .inr ?_, fun _ => rfl, by simp⟩
        rw [pow_zero, Nat.div_one]
        exact (meaning held).mp reached
    · have stepped : divideUntil test (count + 1) p remainder =
          divideUntil test count (intDivByChar p 10).1 (intDivByChar p 10).2 := by
        rw [divideUntil, if_neg reached]
      obtain ⟨quotient, rest⟩ := intDivByChar_ten held
      obtain ⟨turns, left, result, divided⟩ := ih quotient (intDivByChar p 10).2
      have power : ∀ turns, number / 10 / 10 ^ turns = number / 10 ^ (turns + 1) := by
        intro turns
        rw [Nat.div_div_eq_div_mul, pow_succ, mul_comm]
      rw [stepped]
      refine ⟨turns + 1, ?_, ?_, ?_⟩
      · rw [left]
        omega
      · rw [← power]
        exact result
      · refine ⟨Nat.succ_le_succ divided.within, ?_, ?_, by simp, ?_⟩
        · intro earlier before
          cases earlier with
          | zero =>
            rw [pow_zero, Nat.div_one]
            exact fun want => reached ((meaning held).mpr want)
          | succ earlier =>
            rw [← power]
            exact divided.unwanted earlier (Nat.lt_of_succ_lt_succ before)
        · rw [← power]
          exact divided.ended.imp (congrArg Nat.succ) id
        · intro earlier same
          cases earlier with
          | zero => rw [divided.untouched (Nat.succ.inj same), rest, pow_zero, Nat.div_one]
          | succ earlier => rw [divided.digit earlier (Nat.succ.inj same), power]

end WineRedRose.Decimals
