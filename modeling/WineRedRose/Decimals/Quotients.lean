import Mathlib.Data.Nat.Bitwise
import WineRedRose.Decimals.Integers

/-!
# The binary division

The division of the source, on words, is a binary long division of numbers.
It is exact for every dividend just when the divisor is at most half of what
the words hold: beyond that the top bit no longer tells the sign of a
difference.
-/

namespace WineRedRose.Decimals

open Library.Words Library List

variable {p divisor : List UInt32} {n number : Nat} {room : 2 * n ≤ tempsubLength}

/-- Twice so many words hold the two parts of a division. -/
structure HoldsPair (n : Nat) (p : List UInt32) (state : LongDivision.State) :
    Prop where
  low : Holds (p.take n) n state.low
  high : Holds (p.drop n) n state.high

theorem HoldsPair.of_append {first second : List UInt32} {low high : Nat} (held : Holds first n low)
    (held' : Holds second n high) :
    HoldsPair n (first ++ second) ⟨low, high⟩ := by
  constructor
  · rw [take_left' held.length_eq]
    exact held
  · rw [drop_left' held.length_eq]
    exact held'

theorem HoldsPair.whole {state : LongDivision.State} (held : HoldsPair n p state) :
    Holds p (n + n) (state.low + 2 ^ (32 * n) * state.high) := by
  have joined := held.low.append held.high
  rwa [take_append_drop] at joined

/-! ## The negative divisor -/

theorem value_complement (words : List UInt32) :
    Holds (words.map (~~~ ·)) words.length (2 ^ (32 * words.length) - 1 - value words) := by
  induction words with
  | nil => exact ⟨rfl, rfl⟩
  | cons word rest ih =>
    have complement : (~~~word).toNat = 2 ^ 32 - 1 - word.toNat := UInt32.toNat_not word
    have below := word.toNat_lt
    have less := value_lt rest
    have power : 2 ^ (32 * (word :: rest).length) = 2 ^ 32 * 2 ^ (32 * rest.length) := by
      rw [length_cons, mul_add, mul_one, add_comm, pow_add]
    have held := ih.cons (~~~word)
    have same : (~~~word).toNat + 2 ^ 32 * (2 ^ (32 * rest.length) - 1 - value rest) =
        2 ^ (32 * (word :: rest).length) - 1 - value (word :: rest) := by
      rw [complement, power, value_cons]
      omega
    rwa [same] at held

/-- The first words of a list that may be shorter. -/
theorem holds_firstWords (words : List UInt32) (count : Nat) :
    Holds ((range count).map fun i => words.getD i 0) count (value words % 2 ^ (32 * count)) := by
  induction count generalizing words with
  | zero => exact ⟨rfl, (Nat.mod_one _).symm⟩
  | succ count ih =>
    rw [range_succ_eq_map, map_cons, map_map]
    cases words with
    | nil =>
      have held := (ih []).cons 0
      exact held
    | cons word rest =>
      have below := word.toNat_lt
      have held := ih rest
      have carried : word.toNat / 2 ^ 32 + value rest = value rest := by omega
      rw [← carried] at held
      have joined := held.cons_carry
      rw [UInt32.ofNat_toNat] at joined
      rw [value_cons]
      exact joined

theorem negDivisor_spec (positive : 0 < n) (divisor : List UInt32) : Holds (negDivisor n divisor) n
      ((2 ^ (32 * n) - value divisor % 2 ^ (32 * n)) % 2 ^ (32 * n)) := by
  have same : ((range n).map fun i =>
      if i < divisor.length then ~~~(divisor.getD i 0) else 0xffffffff) =
        ((range n).map fun i => divisor.getD i 0).map (~~~ ·) := by
    rw [map_map]
    apply map_congr_left
    intro i _
    split_ifs with inside
    · rfl
    · rw [Function.comp_apply, getD_eq_default _ _ (Nat.le_of_not_lt inside)]
      rfl
  have first := holds_firstWords divisor n
  have complement := value_complement ((range n).map fun i => divisor.getD i 0)
  rw [first.length_eq, first.value_eq] at complement
  have one : Holds [1] 1 1 := ⟨rfl, rfl⟩
  have added := intAdd_spec complement one positive
  have sum : 2 ^ (32 * n) - 1 - value divisor % 2 ^ (32 * n) + 1 =
      2 ^ (32 * n) - value divisor % 2 ^ (32 * n) := by omega
  rw [sum] at added
  rw [negDivisor, same]
  exact added

/-! ## One bit -/

theorem and_top_bit_eq_zero_iff (word : UInt32) :
    word &&& 0x80000000 = 0 ↔ word.toNat < 2 ^ 31 := by
  have below := word.toNat_lt
  have masked : (word &&& 0x80000000).toNat = word.toNat &&& 2 ^ 31 :=
    UInt32.toNat_and word 0x80000000
  rw [← UInt32.toNat_inj, masked, Nat.and_two_pow, UInt32.toNat_zero,
    Nat.testBit_eq_decide_div_mod_eq]
  by_cases set : word.toNat / 2 ^ 31 % 2 = 1
  · rw [decide_eq_true set]
    simp only [Bool.toNat_true]
    omega
  · rw [decide_eq_false set]
    simp only [Bool.toNat_false]
    omega

theorem top_bit_clear_iff (positive : 0 < n) (held : Holds p n number) :
    p.getD (n - 1) 0 &&& 0x80000000 = 0 ↔ number < 2 ^ (32 * n - 1) := by
  obtain ⟨less, rfl⟩ : ∃ less, n = less + 1 := ⟨n - 1, by omega⟩
  have below : number / 2 ^ (32 * less) < 2 ^ 32 := by
    apply Nat.div_lt_of_lt_mul
    rw [← pow_add]
    exact held.lt
  have half : 2 ^ (32 * (less + 1) - 1) = 2 ^ (32 * less) * 2 ^ 31 := by
    rw [← pow_add]
    congr 1
  rw [and_top_bit_eq_zero_iff, held.getD_toNat, Nat.add_sub_cancel,
    Nat.mod_eq_of_lt below, half, Nat.div_lt_iff_lt_mul (by positivity), mul_comm]

theorem setLowBit_spec (held : Holds p n number) (positive : 0 < n) (even : number % 2 = 0) :
    Holds (setLowBit p) n (number + 1) := by
  cases p with
  | nil =>
    have none := held.length_eq
    rw [length_nil] at none
    omega
  | cons word rest =>
    have whole := held.value_eq
    rw [value_cons] at whole
    have set : (word ||| 1).toNat = word.toNat + 1 := by
      have halved : word.toNat = (word.toNat / 2) <<< 1 := by
        rw [Nat.shiftLeft_eq]
        omega
      rw [UInt32.toNat_or, UInt32.toNat_one]
      nth_rewrite 1 [halved]
      rw [← Nat.shiftLeft_add_eq_or_of_lt (by norm_num), ← halved]
    constructor
    · exact held.length_eq
    · rw [setLowBit, value_cons, set]
      omega

variable {state : LongDivision.State}

theorem shift_spec (positive : 0 < n) (held : HoldsPair n p state) :
    HoldsPair n (intShiftLeft p 1) (state.shift (32 * n)) := by
  have shifted := intShiftLeft_bit held.whole
  have low := shifted.take (Nat.le_add_right n n)
  have high := shifted.drop n
  rw [Nat.add_sub_cancel] at high
  have power : 2 ^ (32 * (n + n)) = 2 ^ (32 * n) * 2 ^ (32 * n) := by
    rw [← pow_add]
    congr 1
    omega
  have half : 2 ^ (32 * n) = 2 * 2 ^ (32 * n - 1) := (mul_pow_sub_one (by omega) 2).symm
  have whole : 2 * (state.low + 2 ^ (32 * n) * state.high) =
      2 * state.low + 2 ^ (32 * n) * (2 * state.high) := by ring
  rw [whole, power] at low high
  rw [Nat.mod_mul_left_mod, Nat.add_mul_mod_self_left] at low
  rw [Nat.mod_mul_right_div_self, Nat.add_mul_div_left _ _ (by positivity),
    add_comm (2 * state.low / _)] at high
  constructor
  · exact low
  · have carried : 2 * state.low / 2 ^ (32 * n) = state.low / 2 ^ (32 * n - 1) := by
      rw [half, Nat.mul_div_mul_left _ _ (by norm_num)]
    rw [carried] at high
    exact high

theorem divideBit_spec (positive : 0 < n) (held : HoldsPair n p state) :
    HoldsPair n (divideBit n (negDivisor n divisor) p)
      (LongDivision.step (32 * n) (value divisor % 2 ^ (32 * n)) state) := by
  have shifted := shift_spec positive held
  have trial := intAdd_spec shifted.high (negDivisor_spec positive divisor) le_rfl
  rw [Nat.add_mod_mod] at trial
  have even : (state.shift (32 * n)).low % 2 = 0 := by
    have half : 2 ^ (32 * n) = 2 * 2 ^ (32 * n - 1) := (mul_pow_sub_one (by omega) 2).symm
    rw [LongDivision.State.shift, half, Nat.mul_mod_mul_left]
    exact Nat.mul_mod_right _ _
  rw [divideBit, LongDivision.step]
  simp only [top_bit_clear_iff positive trial]
  split_ifs
  · exact .of_append (setLowBit_spec shifted.low positive even) trial
  · exact shifted

theorem divideBits_spec (positive : 0 < n) (count : Nat) (held : HoldsPair n p state) :
    HoldsPair n (divideBits n (negDivisor n divisor) count p)
      (LongDivision.steps (32 * n) (value divisor % 2 ^ (32 * n)) count state) := by
  induction count generalizing p state with
  | zero => exact held
  | succ count ih => exact ih (divideBit_spec positive held)

/-! ## The whole division -/

theorem skipZeroWords_spec {left : Nat} (within : left ≤ n) (small : number < 2 ^ (32 * left))
    (held : Holds p n (number * 2 ^ (32 * (n - left)))) :
    (skipZeroWords n left p).1 ≤ n ∧ number < 2 ^ (32 * (skipZeroWords n left p).1) ∧
      Holds (skipZeroWords n left p).2 n
        (number * 2 ^ (32 * (n - (skipZeroWords n left p).1))) := by
  induction left generalizing p with
  | zero => exact ⟨within, small, held⟩
  | succ left ih =>
    obtain ⟨less, rfl⟩ : ∃ less, n = less + 1 := ⟨n - 1, by omega⟩
    rw [skipZeroWords]
    split_ifs with zero
    · have power : 2 ^ (32 * less) = 2 ^ (32 * left) * 2 ^ (32 * (less + 1 - (left + 1))) := by
        rw [← pow_add]
        congr 1
        omega
      -- the top word holds the digit at the place of the word left
      have digit : number / 2 ^ (32 * left) = 0 := by
        have below : number / 2 ^ (32 * left) < 2 ^ 32 := by
          apply Nat.div_lt_of_lt_mul
          rw [← pow_add]
          exact small
        have top := held.getD_toNat less
        rw [power, Nat.mul_div_mul_right _ _ (by positivity), Nat.mod_eq_of_lt below] at top
        rw [Nat.add_sub_cancel] at zero
        rw [← top, zero, UInt32.toNat_zero]
      have smaller : number < 2 ^ (32 * left) := (Nat.div_eq_zero_iff_lt (by positivity)).mp digit
      have fits : number * 2 ^ (32 * (less + 1 - (left + 1))) < 2 ^ (32 * less) := by
        rw [power]
        exact Nat.mul_lt_mul_of_pos_right smaller (by positivity)
      have moved := intShiftLeft_word held
      have scaled : 2 ^ 32 * (number * 2 ^ (32 * (less + 1 - (left + 1)))) =
          number * 2 ^ (32 * (less + 1 - left)) := by
        have exponent : 32 * (less + 1 - left) = 32 + 32 * (less + 1 - (left + 1)) := by omega
        rw [exponent, pow_add]
        ring
      rw [Nat.mod_eq_of_lt fits, scaled] at moved
      exact ih (by omega) smaller moved
    · exact ⟨within, small, held⟩

/-- The division of words takes the steps of a long division, from the first
word that is not zero on. -/
theorem intDiv_steps (positive : 0 < n) (held : Holds (p.take n) n number) :
    ∃ left, left ≤ n ∧ number < 2 ^ (32 * left) ∧ HoldsPair n (intDiv p n divisor room)
        (LongDivision.steps (32 * n) (value divisor % 2 ^ (32 * n)) (32 * left)
          ⟨number * 2 ^ (32 * (n - left)), 0⟩) := by
  have start : Holds (p.take n) n (number * 2 ^ (32 * (n - n))) := by
    rw [Nat.sub_self, mul_zero, pow_zero, mul_one]
    exact held
  obtain ⟨within, small, low⟩ := skipZeroWords_spec le_rfl held.lt start
  refine ⟨_, within, small, ?_⟩
  exact divideBits_spec positive _ (.of_append low (holds_zeros n))

theorem intDiv_spec (positive : 0 < n) (held : Holds (p.take n) n number)
    (nonzero : value divisor ≠ 0) (half : value divisor ≤ 2 ^ (32 * n - 1)) :
    HoldsPair n (intDiv p n divisor room) ⟨number / value divisor, number % value divisor⟩ := by
  obtain ⟨left, within, small, divided⟩ := intDiv_steps positive held
  have below : value divisor < 2 ^ (32 * n) :=
    half.trans_lt (Nat.pow_lt_pow_right (by norm_num) (by omega))
  have count : 32 * left = 32 * n - 32 * (n - left) := by omega
  rw [count] at small
  rw [Nat.mod_eq_of_lt below, count,
    LongDivision.steps_eq (Nat.pos_of_ne_zero nonzero) half (by omega) small]
    at divided
  exact divided

/-- The number one is not divided right when nothing minus the divisor looks
like a difference. -/
theorem intDiv_one_ne (positive : 0 < n) (held : Holds (p.take n) n 1)
    (taken : (2 ^ (32 * n) - value divisor % 2 ^ (32 * n)) % 2 ^ (32 * n) < 2 ^ (32 * n - 1)) :
    value ((intDiv p n divisor room).take n) ≠ 0 := by
  obtain ⟨left, within, small, divided⟩ := intDiv_steps positive held
  have some_left : left ≠ 0 := by
    rintro rfl
    exact absurd small (by norm_num)
  have clear : 1 * 2 ^ (32 * (n - left)) < 2 ^ (32 * n - 1) := by
    rw [one_mul]
    exact Nat.pow_lt_pow_right (by norm_num) (by omega)
  have count : 32 * left = 32 * left - 1 + 1 := by omega
  rw [count] at divided
  rw [divided.low.value_eq]
  exact LongDivision.steps_low_ne_zero taken clear (by omega)

/-- The quotient and the remainder are exact for every dividend of the given
number of words, for which `tempsub` has room. -/
def DividesExactly (n : Nat) (room : 2 * n ≤ tempsubLength) (divisor : List UInt32) : Prop :=
  ∀ p : List UInt32, p.length = 2 * n →
    value ((intDiv p n divisor room).take n) = value (p.take n) / value divisor ∧
      value ((intDiv p n divisor room).drop n) = value (p.take n) % value divisor

theorem exists_dividend (small : number < 2 ^ (32 * n)) :
    ∃ p : List UInt32, p.length = 2 * n ∧ Holds (p.take n) n number := by
  have built : ∃ words, Holds words n number := by
    induction n generalizing number with
    | zero => exact ⟨[], rfl, (Nat.lt_one_iff.mp small).symm⟩
    | succ n ih =>
      have higher : number / 2 ^ 32 < 2 ^ (32 * n) := by
        apply Nat.div_lt_of_lt_mul
        rw [← pow_add, add_comm, ← mul_add_one]
        exact small
      obtain ⟨words, held⟩ := ih higher
      have joined := held.cons (UInt32.ofNat number)
      rw [UInt32.toNat_ofNat', Nat.mod_add_div] at joined
      exact ⟨_, joined⟩
  obtain ⟨words, held⟩ := built
  refine ⟨words ++ replicate n 0, ?_, ?_⟩
  · rw [length_append, held.length_eq, length_replicate]
    omega
  · rw [take_left' held.length_eq]
    exact held

/-- `VARIANT_int_div` on up to four words is exact for the divisors up to half of
the range. -/
theorem dividesExactly_iff (positive : 0 < n) (room : 2 * n ≤ tempsubLength)
    (nonzero : value divisor ≠ 0) :
    DividesExactly n room divisor ↔ value divisor ≤ 2 ^ (32 * n - 1) := by
  constructor
  · intro exactly
    by_contra beyond
    have width : 2 ^ (32 * n) = 2 * 2 ^ (32 * n - 1) := (mul_pow_sub_one (by omega) 2).symm
    have half : 0 < 2 ^ (32 * n - 1) := by positivity
    have fits : 1 < 2 ^ (32 * n) := Nat.one_lt_two_pow (by omega)
    have less : value divisor % 2 ^ (32 * n) < 2 ^ (32 * n) := Nat.mod_lt _ (by positivity)
    by_cases taken : (2 ^ (32 * n) - value divisor % 2 ^ (32 * n)) % 2 ^ (32 * n) < 2 ^ (32 * n - 1)
    · obtain ⟨p, length, held⟩ := exists_dividend fits
      apply @intDiv_one_ne p divisor n room positive held taken
      rw [(exactly p length).1, held.value_eq]
      exact Nat.div_eq_of_lt (by omega)
    · -- the words kept of the divisor are a divisor of the right size
      have kept : value divisor % 2 ^ (32 * n) ≠ 0 := by
        intro zero
        rw [zero, Nat.sub_zero, Nat.mod_self] at taken
        exact taken half
      have kept_half : value divisor % 2 ^ (32 * n) ≤ 2 ^ (32 * n - 1) := by
        rw [Nat.mod_eq_of_lt (by omega)] at taken
        omega
      obtain ⟨p, length, held⟩ := exists_dividend less
      obtain ⟨left, within, small, divided⟩ := @intDiv_steps p divisor n _ room positive held
      have count : 32 * left = 32 * n - 32 * (n - left) := by omega
      rw [count] at small
      rw [count, LongDivision.steps_eq (Nat.pos_of_ne_zero kept) kept_half
        (by omega) small, Nat.div_self (Nat.pos_of_ne_zero kept)] at divided
      have one := divided.low.value_eq
      rw [(exactly p length).1, held.value_eq, Nat.div_eq_of_lt (by omega)] at one
      cases one
  · intro half p length
    have held : Holds (p.take n) n (value (p.take n)) := by
      refine ⟨?_, rfl⟩
      rw [length_take, length]
      omega
    have divided := @intDiv_spec p divisor n _ room positive held nonzero half
    exact ⟨divided.low.value_eq, divided.high.value_eq⟩

/-- The largest divisor of four words. -/
theorem dividesExactly_four_words : DividesExactly 4 (by decide) [0, 0, 0, 0x80000000] :=
  (dividesExactly_iff (by decide) (by decide) (by decide)).mpr (by decide)

end WineRedRose.Decimals
