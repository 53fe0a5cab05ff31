import WineRedRose.Decimals.Products
import WineRedRose.Decimals.Quotients

/-!
# Rounding

A decimal is rounded by one division by a power of ten.  Whether to round up is
decided by the lowest word of the remainder, which is compared with five
whatever the divisor, and the carry out of the lowest word is lost.  So a
result is as near as it should be only when this word happens to tell which
half the remainder is in.
-/

namespace WineRedRose.Decimals

open Library.Words Decimal

/-! ## The first quotient -/

variable {number number' : Nat} {d : Decimal}

/-- Nothing yet and a quotient of three words: the quotient is taken over. -/
theorem intAddLossy_zero {a b : Scaled} (zero : Holds a.digits 3 0) (held : Holds b.digits 4 number)
    (small : number < 2 ^ 96) :
    intAddLossy a b = (⟨b.digits.take 3, b.scale⟩, b, false) := by
  have copied : divideUntil (fun p => decide (b.digits.length ≤ a.digits.length) ||
        intIsZero (p.drop a.digits.length)) (32 * b.digits.length) b.digits 0 =
      (32 * b.digits.length, b.digits, 0) := by
    rw [zero.length_eq, held.length_eq, divideUntil, if_pos]
    rw [(beyondThree_iff held).mpr small, Bool.or_true]
  rw [intAddLossy, if_pos ((intIsZero_iff zero).mpr rfl), copied, zero.length_eq]
  simp

theorem holds_dividend {bitsnum : List UInt32} (held : Holds bitsnum 3 number) :
    Holds ((padTo 8 bitsnum).take 4) 4 number := by
  have padded := (padTo_spec held (show 3 ≤ 8 by norm_num)).take (show 4 ≤ 8 by norm_num)
  rwa [Nat.mod_eq_of_lt (held.lt.trans (by norm_num))] at padded

/-- A divisor of three words is small enough for a division of four. -/
theorem intDiv_four {p divisor : List UInt32} (held : Holds (p.take 4) 4 number)
    (held' : Holds divisor 3 number') (nonzero : number' ≠ 0) :
    HoldsPair 4 (intDiv p 4 divisor) ⟨number / number', number % number'⟩ := by
  have half : value divisor ≤ 2 ^ (32 * 4 - 1) := by
    rw [held'.value_eq]
    exact held'.lt.le.trans (by norm_num)
  rw [← held'.value_eq] at nonzero ⊢
  exact intDiv_spec (by norm_num) held nonzero half

/-- The quotient of two mantissas as it is rounded. -/
def roundedQuotient (number divisor : Nat) : Nat :=
  if 5 ≤ number % divisor % 2 ^ 32 then bumped (number / divisor)
  else number / divisor

theorem roundedQuotient_lt (divisor : Nat) (small : number < 2 ^ 96) :
    roundedQuotient number divisor < 2 ^ 96 := by
  have quotient : number / divisor < 2 ^ 96 := (Nat.div_le_self _ _).trans_lt small
  rw [roundedQuotient]
  split_ifs
  · exact bumped_lt quotient
  · exact quotient

theorem divideLoop_round {dividend divisor : List UInt32} (held : Holds dividend 3 number)
    (held' : Holds divisor 3 number') (nonzero : number' ≠ 0) (scale : Int) :
    ∃ digits, divideLoop divisor true divideFuel ⟨[0, 0, 0], scale⟩ (padTo 8 dividend) scale =
      some ⟨digits, scale⟩ ∧ Holds digits 3 (roundedQuotient number number') := by
  have divided := intDiv_four (holds_dividend held) held' nonzero
  have small : number / number' < 2 ^ 96 := (Nat.div_le_self _ _).trans_lt held.lt
  have taken := divided.low.take (show 3 ≤ 4 by norm_num)
  rw [Nat.mod_eq_of_lt small] at taken
  have lowest : ((intDiv (padTo 8 dividend) 4 divisor).getD 4 0).toNat =
      number % number' % 2 ^ 32 := by
    have first := divided.high.getD_toNat 0
    rw [Nat.mul_zero, pow_zero, Nat.div_one] at first
    rw [← first]
    simp
  have turned : (5 : UInt32) ≤ (intDiv (padTo 8 dividend) 4 divisor).getD 4 0 ↔
      5 ≤ number % number' % 2 ^ 32 := by
    rw [UInt32.le_iff_toNat_le, lowest]
    rfl
  have zero : Holds ([0, 0, 0] : List UInt32) 3 0 := ⟨rfl, rfl⟩
  have added := intAddLossy_zero (show Holds
    (Scaled.mk [0, 0, 0] scale).digits 3 0 from zero) (show Holds (Scaled.mk
      ((intDiv (padTo 8 dividend) 4 divisor).take 4) scale).digits 4 _ from divided.low) small
  rw [divideFuel, divideLoop, added]
  dsimp only
  rw [if_pos rfl, roundedQuotient]
  split_ifs with up high high
  · exact ⟨_, rfl, roundUp_spec taken⟩
  · exact absurd (turned.mp up) high
  · exact absurd (turned.mpr high) up
  · exact ⟨_, rfl, taken⟩

/-! ## The powers of ten -/

theorem powerOfTen_eq (count : Nat) {exponent : Nat} (small : 10 ^ (exponent + count) < 2 ^ 96) :
    powerOfTen count (.make decimalPos 0 (10 ^ exponent)) =
      .ok (.make decimalPos 0 (10 ^ (exponent + count))) := by
  induction count generalizing exponent with
  | zero => rfl
  | succ count ih =>
    have smaller : ∀ {less}, less ≤ exponent + (count + 1) → 10 ^ less < 2 ^ 96 :=
      fun within => (Nat.pow_le_pow_right (by norm_num) within).trans_lt small
    have valid : (Decimal.make decimalPos 0 (10 ^ exponent)).Valid := ⟨.inl rfl, Nat.zero_le _⟩
    have product : varDecMul (.make decimalPos 0 (10 ^ exponent)) (smallDecimal 10) =
        .ok (.make decimalPos 0 (10 ^ (exponent + 1))) := by
      have fits : 10 * 10 ^ exponent < 2 ^ 96 := by
        rw [← pow_succ']
        exact smaller (by omega)
      rw [varDecMul_ten valid, make_mantissa _ _ (smaller (by omega)),
        timesTen, if_neg (by positivity), if_pos fits, pow_succ']
      rfl
    have rest := ih (show 10 ^ (exponent + 1 + count) < 2 ^ 96 from smaller (by omega))
    rw [powerOfTen, product]
    rw [show exponent + 1 + count = exponent + (count + 1) by omega] at rest
    exact rest

/-! ## The result -/

theorem diDiv_of_loop {dividend divisor : Internal} {quotient : Scaled}
    {roundRemainder : Bool} (held : Holds dividend.bitsnum 3 number)
    (held' : Holds divisor.bitsnum 3 number') (nonzero : number ≠ 0)
    (nonzero' : number' ≠ 0)
    (looped : divideLoop divisor.bitsnum roundRemainder divideFuel
      ⟨[0, 0, 0], dividend.scale - divisor.scale⟩ (padTo 8 dividend.bitsnum)
        (dividend.scale - divisor.scale) = some quotient) : diDiv dividend divisor roundRemainder =
      some (finishQuotient quotient (dividend.sign != divisor.sign)) := by
  rw [diDiv, if_neg (mt (intIsZero_iff held').mp nonzero'),
    if_neg (mt (intIsZero_iff held).mp nonzero)]
  dsimp only
  rw [looped]
  rfl

theorem finishQuotient_of_nat (digits : List UInt32) {scale : Nat} (sign : Bool)
    (allowed : scale ≤ 255) :
    finishQuotient ⟨digits, scale⟩ sign = .ok ⟨digits, scale, sign⟩ := by
  have none : (-(scale : Int)).toNat = 0 := by omega
  rw [finishQuotient]
  rw [none, raiseToZero, Int.toNat_natCast]
  show (if scale ≤ 255 then _ else _) = _
  rw [if_pos allowed]
  rfl

/-- The rounded division by a mantissa without a scale. -/
theorem doDivision_round {divisor : Nat} (valid : d.Valid) (nonzero : divisor ≠ 0)
    (small : divisor < 2 ^ 96) : ∃ sign scale, doDivision d (.make decimalPos 0 divisor) true =
      some (.ok (.make sign scale (roundedQuotient d.mantissa divisor))) ∧
      (d.mantissa ≠ 0 → sign = d.sign) := by
  have held := holds_diFromDec d
  have held' := holds_diFromDec (.make decimalPos 0 divisor)
  rw [make_mantissa _ _ small] at held'
  by_cases some : d.mantissa = 0
  · have cleared : diDiv (diFromDec d) (diFromDec (.make decimalPos 0 divisor)) true =
        .some (.ok diClear) := by
      rw [diDiv, if_neg (mt (intIsZero_iff held').mp nonzero),
        if_pos ((intIsZero_iff held).mpr some)]
    refine ⟨decimalPos, 0, ?_, fun other => absurd some other⟩
    rw [doDivision, cleared, some, roundedQuotient, Nat.zero_mod, Nat.zero_mod, Nat.zero_div]
    rfl
  · obtain ⟨digits, looped, result⟩ := divideLoop_round held held' nonzero d.scale
    have unscaled : ((diFromDec d).scale : Int) -
        (diFromDec (.make decimalPos 0 divisor)).scale = d.scale := sub_zero _
    rw [← unscaled] at looped
    have divided := diDiv_of_loop held held' some nonzero looped
    rw [unscaled, finishQuotient_of_nat _ _ (valid.scale.trans (by decide))] at divided
    refine ⟨d.sign, d.scale, ?_, fun _ => rfl⟩
    have limited : limitScale ⟨digits, d.scale,
        (diFromDec d).sign != (diFromDec (.make decimalPos 0 divisor)).sign⟩ =
          ⟨digits, d.scale, d.sign != 0⟩ := by
      rw [limitScale, if_neg (Nat.not_lt.mpr valid.scale)]
      exact congrArg (Internal.mk _ _) (Bool.bne_false _)
    rw [doDivision, divided]
    show Option.some (Except.ok (decFromDI (limitScale _))) = _
    rw [limited, decFromDI_eq result, signOf_valid valid]

theorem Decimal.Valid.legal (valid : d.Valid) (cDecimals : Nat) :
    ¬ ((cDecimals : Int) < 0 ∨ d.sign &&& ~~~decimalNeg ≠ 0 ∨ d.scale > decMaxScale) := by
  have sign : d.sign &&& ~~~decimalNeg = 0 := by
    rcases valid.sign with sign | sign <;> rw [sign] <;> rfl
  simp [sign, Nat.not_lt.mpr valid.scale]

theorem varDecRound_eq {cDecimals : Nat} (valid : d.Valid) (fewer : cDecimals < d.scale) :
    ∃ sign, varDecRound d cDecimals =
      some (.ok (.make sign cDecimals (roundedQuotient d.mantissa (10 ^ (d.scale - cDecimals))))) ∧
      (d.mantissa ≠ 0 → sign = d.sign) := by
  have allowed := valid.scale
  have small : 10 ^ (d.scale - cDecimals) < 2 ^ 96 := by
    have power : 10 ^ (d.scale - cDecimals) ≤ 10 ^ decMaxScale :=
      Nat.pow_le_pow_right (by norm_num) ((Nat.sub_le _ _).trans allowed)
    exact power.trans_lt (by decide)
  have power : powerOfTen (d.scale - cDecimals) (smallDecimal 1) =
      .ok (.make decimalPos 0 (10 ^ (d.scale - cDecimals))) := by
    have multiplied : powerOfTen (d.scale - cDecimals) (.make decimalPos 0 (10 ^ 0)) = _ :=
      powerOfTen_eq (d.scale - cDecimals) (by rwa [zero_add])
    rwa [zero_add] at multiplied
  obtain ⟨sign, scale, divided, same⟩ := doDivision_round valid (by positivity) small
  refine ⟨sign, ?_, same⟩
  rw [varDecRound, if_neg (valid.legal cDecimals), if_neg (by omega), Int.toNat_natCast, power]
  dsimp only
  rw [divided]
  rfl

/-- What rounding should do: a result with no more than the wanted decimals
when there were more, off by at most half a unit of the last wanted one, and
the same number when there were no more. -/
def RoundsToNearest (d : Decimal) (cDecimals : Nat) : Prop :=
  ∃ result, varDecRound d cDecimals = some (.ok result) ∧
    (cDecimals < d.scale → result.scale ≤ cDecimals) ∧
    |result.number - d.number| ≤ 1 / 2 / 10 ^ cDecimals ∧
    (d.scale ≤ cDecimals → result.number = d.number)

/-- The lowest word of the remainder tells its half, and no carry is lost. -/
def RoundsRight (mantissa divisor : Nat) : Prop :=
  if 5 ≤ mantissa % divisor % 2 ^ 32 then
    divisor ≤ 2 * (mantissa % divisor) ∧ mantissa / divisor % 2 ^ 32 ≠ 2 ^ 32 - 1
  else 2 * (mantissa % divisor) ≤ divisor

instance (mantissa divisor : Nat) : Decidable (RoundsRight mantissa divisor) := by
  unfold RoundsRight
  infer_instance

/-- The distance of the rounded quotient, in units of the mantissa. -/
theorem roundedQuotient_near_iff {mantissa divisor : Nat} (positive : 0 < divisor) :
    2 * |(roundedQuotient mantissa divisor * divisor : ℤ) - mantissa| ≤ divisor ↔
      RoundsRight mantissa divisor := by
  have split := Nat.div_add_mod mantissa divisor
  have less := Nat.mod_lt mantissa positive
  rw [roundedQuotient, RoundsRight, bumped]
  generalize mantissa / divisor = quotient at *
  generalize mantissa % divisor = remainder at *
  have whole : (mantissa : ℤ) = quotient * divisor + remainder := by
    rw [← split]
    push_cast
    ring
  rw [whole]
  split_ifs with up full
  · -- the carry is lost: the result is too small by almost a word
    have lower : 2 ^ 32 - 1 ≤ quotient := by omega
    obtain ⟨rest, rfl⟩ := Nat.exists_eq_add_of_le lower
    have off : ((2 ^ 32 - 1 + rest - (2 ^ 32 - 1) : Nat) : ℤ) * divisor -
        (((2 ^ 32 - 1 + rest : Nat) : ℤ) * divisor + remainder) =
          -(((2 ^ 32 - 1) * divisor + remainder : Nat) : ℤ) := by
      rw [Nat.add_sub_cancel_left]
      push_cast
      ring
    rw [off, abs_neg, Nat.abs_cast]
    constructor
    · intro near
      exfalso
      push_cast at near
      nlinarith
    · exact fun right => absurd full right.2
  · have off : ((quotient + 1 : Nat) : ℤ) * divisor -
        (quotient * divisor + remainder) = ((divisor - remainder : Nat) : ℤ) := by
      rw [Nat.cast_sub less.le]
      push_cast
      ring
    rw [off, Nat.abs_cast]
    constructor
    · intro near
      exact ⟨by omega, full⟩
    · intro right
      omega
  · have off : (quotient : ℤ) * divisor - (quotient * divisor + remainder) =
        -(remainder : ℤ) := by ring
    rw [off, abs_neg, Nat.abs_cast]
    omega

/-- The distance of two decimals in units of a finer scale. -/
theorem abs_sub_number {sign : UInt8} {scale more mantissa : Nat} (small : mantissa < 2 ^ 96)
    (finer : d.scale = scale + more) (same : d.mantissa ≠ 0 → sign = d.sign)
    (zero : d.mantissa = 0 → mantissa = 0) :
    |(Decimal.make sign scale mantissa).number - d.number| =
      (|(mantissa * 10 ^ more : ℤ) - d.mantissa| : ℤ) / 10 ^ d.scale := by
  have scaled : (mantissa : ℚ) / 10 ^ scale = mantissa * 10 ^ more / 10 ^ d.scale := by
    rw [finer, pow_add, mul_div_mul_right _ _ (by positivity)]
  have signs : (Decimal.make sign scale mantissa).number - d.number =
      (if d.sign = decimalPos then 1 else -1) *
        (((mantissa * 10 ^ more : ℤ) - d.mantissa : ℤ) / 10 ^ d.scale) := by
    rw [number, make_mantissa _ _ small, number]
    rcases eq_or_ne d.mantissa 0 with none | some
    · rw [none, zero none]
      push_cast
      ring
    · rw [show (Decimal.make sign scale mantissa).sign = d.sign from same some,
        show (Decimal.make sign scale mantissa).scale = scale from rfl,
        mul_div_assoc, scaled]
      push_cast
      ring
  have unit : |(if d.sign = decimalPos then (1 : ℚ) else -1)| = 1 := by split_ifs <;> simp
  rw [signs, abs_mul, unit, one_mul, abs_div, abs_of_pos (show (0 : ℚ) < 10 ^ d.scale by
    positivity), Int.cast_abs]

/-- Rounding is to nearest exactly when there is nothing to round or the lowest
word of the remainder tells its half and no carry is lost. -/
theorem rounds_to_nearest_iff (d : Decimal) (cDecimals : Nat) (valid : d.Valid) :
    RoundsToNearest d cDecimals ↔ d.scale ≤ cDecimals ∨
      RoundsRight d.mantissa (10 ^ (d.scale - cDecimals)) := by
  rcases Nat.lt_or_ge cDecimals d.scale with fewer | enough
  · obtain ⟨sign, rounded, same⟩ := varDecRound_eq valid fewer
    have positive : 0 < 10 ^ (d.scale - cDecimals) := by positivity
    have finer : d.scale = cDecimals + (d.scale - cDecimals) := by omega
    have vanishes : d.mantissa = 0 →
        roundedQuotient d.mantissa (10 ^ (d.scale - cDecimals)) = 0 := by
      intro none
      rw [none, roundedQuotient, Nat.zero_mod, Nat.zero_mod, Nat.zero_div]
      rfl
    have distance := abs_sub_number (roundedQuotient_lt _ d.mantissa_lt) finer same vanishes
    have near : _ ↔ RoundsRight d.mantissa (10 ^ (d.scale - cDecimals)) :=
      roundedQuotient_near_iff positive
    rw [Nat.cast_pow, Nat.cast_ofNat] at near
    have bound : |(Decimal.make sign cDecimals (roundedQuotient d.mantissa
        (10 ^ (d.scale - cDecimals)))).number - d.number| ≤ 1 / 2 / 10 ^ cDecimals ↔
          RoundsRight d.mantissa (10 ^ (d.scale - cDecimals)) := by
      have power : (10 : ℚ) ^ d.scale = 10 ^ cDecimals * 10 ^ (d.scale - cDecimals) := by
        rw [← pow_add, ← finer]
      rw [distance, ← near, power, div_div,
        div_le_div_iff₀ (by positivity) (by positivity), ← Int.cast_le (R := ℚ)]
      generalize |(_ : ℤ)| = off
      have unit : (0 : ℚ) < 10 ^ cDecimals := by positivity
      push_cast
      constructor
      · intro less
        nlinarith
      · intro less
        nlinarith
    rw [or_iff_right (Nat.not_le.mpr fewer), ← bound]
    constructor
    · rintro ⟨result, returned, -, near, -⟩
      rw [rounded] at returned
      cases returned
      exact near
    · intro near
      exact ⟨_, rounded, fun _ => le_rfl, near, fun enough => absurd fewer (Nat.not_lt.mpr enough)⟩
  · refine iff_of_true ⟨d, ?_, ?_, ?_, fun _ => rfl⟩ (.inl enough)
    · rw [varDecRound, if_neg (valid.legal cDecimals), if_pos (Int.ofNat_le.mpr enough)]
    · exact fun fewer => absurd fewer (Nat.not_lt.mpr enough)
    · rw [sub_self, abs_zero]
      positivity

/-- The number 10.6 is rounded to eleven. -/
theorem rounds_to_nearest_six_tenths : RoundsToNearest (.make decimalPos 1 106) 0 :=
  (rounds_to_nearest_iff (.make decimalPos 1 106) 0
    ⟨.inl rfl, by decide⟩).mpr (.inr (by decide +kernel))

/-- The number 1.05 is rounded to two. -/
theorem one_and_five_hundredths_rounds_to_two : ¬ RoundsToNearest (.make decimalPos 2 105) 0 := by
  have rounded : varDecRound (.make decimalPos 2 105) 0 =
      some (.ok (.make decimalPos 0 2)) := by decide +kernel
  rintro ⟨result, returned, -, near, -⟩
  have same : some (Except.ok (Decimal.make decimalPos 0 2)) = some (.ok result) :=
    rounded.symm.trans returned
  cases same
  have far : ¬ |(Decimal.make decimalPos 0 2).number -
      (Decimal.make decimalPos 2 105).number| ≤ 1 / 2 / 10 ^ 0 := by decide +kernel
  exact far near

end WineRedRose.Decimals
