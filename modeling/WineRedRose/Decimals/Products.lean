import WineRedRose.Decimals.Integers

/-!
# Decimals as numbers and their products with ten

A decimal is given by its sign, its scale and its mantissa, the number in its
three words.  A product of decimals drops what leaves the last word of a row;
by ten this is nothing, and the product is exact, costs a place of the scale or
overflows.
-/

namespace WineRedRose.Decimals

open Library.Words

/-- The number in the three words. -/
def Decimal.mantissa (d : Decimal) : Nat := value [d.lo32, d.mid32, d.hi32]

/-- A decimal of the given parts. -/
def Decimal.make (sign : UInt8) (scale mantissa : Nat) : Decimal :=
  { sign := sign
    scale := scale
    lo32 := UInt32.ofNat mantissa
    mid32 := UInt32.ofNat (mantissa / 2 ^ 32)
    hi32 := UInt32.ofNat (mantissa / 2 ^ 64) }

/-- The sign is one of the two allowed ones, and the scale is allowed. -/
structure Decimal.Valid (d : Decimal) : Prop where
  sign : d.sign = decimalPos ∨ d.sign = decimalNeg
  scale : d.scale ≤ decMaxScale

/-- What a decimal stands for. -/
def Decimal.number (d : Decimal) : ℚ :=
  (if d.sign = decimalPos then 1 else -1) * d.mantissa / 10 ^ d.scale

/-- The sign of a number, from the flag in the internal format. -/
def signOf (negative : Bool) : UInt8 := if negative then decimalNeg else decimalPos

theorem signOf_valid {d : Decimal} (valid : d.Valid) : signOf (d.sign != 0) = d.sign := by
  rcases valid.sign with sign | sign <;> rw [sign] <;> rfl

theorem Decimal.holds_mantissa (d : Decimal) : Holds [d.lo32, d.mid32, d.hi32] 3 d.mantissa :=
  holds_value _

theorem holds_diFromDec (d : Decimal) : Holds (diFromDec d).bitsnum 3 d.mantissa := d.holds_mantissa

theorem Decimal.mantissa_lt (d : Decimal) : d.mantissa < 2 ^ 96 := d.holds_mantissa.lt

variable {number n position : Nat} {running : List UInt32}

/-- Three words make up a decimal of their number. -/
theorem decFromDI_eq {bitsnum : List UInt32} (held : Holds bitsnum 3 number) (scale : Nat)
    (sign : Bool) :
    decFromDI ⟨bitsnum, scale, sign⟩ = .make (signOf sign) scale number := by
  have word : ∀ position, bitsnum.getD position 0 =
      UInt32.ofNat (number / 2 ^ (32 * position)) := by
    intro position
    apply UInt32.toNat_inj.mp
    rw [held.getD_toNat, UInt32.toNat_ofNat']
  rw [decFromDI, Decimal.make]
  rw [word 0, word 1, word 2, Nat.mul_zero, pow_zero, Nat.div_one]
  rfl

theorem Decimal.make_mantissa (sign : UInt8) (scale : Nat) {mantissa : Nat}
    (small : mantissa < 2 ^ 96) :
    (Decimal.make sign scale mantissa).mantissa = mantissa := by
  rw [Decimal.mantissa, Decimal.make, value_cons, value_cons, value_cons, value_nil,
    UInt32.toNat_ofNat', UInt32.toNat_ofNat', UInt32.toNat_ofNat']
  omega

/-! ## The product of two arrays -/

theorem rippleAdd_spec (p : List UInt32) (carry : UInt32) :
    Holds (rippleAdd p carry) p.length ((value p + carry.toNat) % 2 ^ (32 * p.length)) := by
  induction p generalizing carry with
  | nil => exact ⟨rfl, (Nat.mod_one _).symm⟩
  | cons word rest ih =>
    have below := word.toNat_lt
    have carried := carry.toNat_lt
    have high : (UInt32.ofNat ((word.toNat + carry.toNat) / 2 ^ 32)).toNat =
        (word.toNat + carry.toNat) / 2 ^ 32 := by
      rw [UInt32.toNat_ofNat']
      exact Nat.mod_eq_of_lt (by omega)
    have whole : value (word :: rest) + carry.toNat =
        word.toNat + carry.toNat + 2 ^ 32 * value rest := by
      rw [value_cons]
      ring
    have sum : word.toNat + UInt32.toNat 0 + carry.toNat = word.toNat + carry.toNat := rfl
    rw [rippleAdd, whole]
    simp only [variantAdd, sum]
    split_ifs with none
    · have zero : (word.toNat + carry.toNat) / 2 ^ 32 = 0 := by rw [← high, none, UInt32.toNat_zero]
      apply Holds.cons_carry
      rw [zero, zero_add, Nat.mod_eq_of_lt (value_lt rest)]
      exact holds_value rest
    · have rest_held := ih (UInt32.ofNat ((word.toNat + carry.toNat) / 2 ^ 32))
      rw [high, add_comm (value rest)] at rest_held
      exact rest_held.cons_carry

/-- A word added at a position. -/
theorem rippleAt_spec (held : Holds running n number) (inside : position ≤ n) (word : UInt32) :
    Holds (running.take position ++ rippleAdd (running.drop position) word) n
      ((number + 2 ^ (32 * position) * word.toNat) % 2 ^ (32 * n)) := by
  have lower := held.take inside
  have upper := rippleAdd_spec (running.drop position) word
  rw [(held.drop position).length_eq, (held.drop position).value_eq] at upper
  have joined := lower.append upper
  have power : 2 ^ (32 * n) = 2 ^ (32 * position) * 2 ^ (32 * (n - position)) := by
    rw [← pow_add]
    congr 1
    omega
  rw [Nat.add_sub_of_le inside] at joined
  rw [power, Nat.mod_mul, Nat.add_mul_mod_self_left, Nat.add_mul_div_left _ _ (by positivity)]
  exact joined

theorem mulRow_spec (word : UInt32) {b : List UInt32} (overflow : UInt32)
    (held : Holds running n number) (room : position + b.length ≤ n) :
    Holds (mulRow word position overflow b running) n ((number + 2 ^ (32 * position) *
        ((value b * word.toNat + overflow.toNat) % 2 ^ (32 * b.length))) % 2 ^ (32 * n)) := by
  induction b generalizing running number position overflow with
  | nil =>
    rw [mulRow, List.length_nil, mul_zero, pow_zero, Nat.mod_one, mul_zero, add_zero,
      Nat.mod_eq_of_lt held.lt]
    exact held
  | cons word' rest ih =>
    rw [List.length_cons] at room
    have product : word'.toNat * word.toNat ≤ (2 ^ 32 - 1) * (2 ^ 32 - 1) :=
      Nat.mul_le_mul (Nat.le_sub_one_of_lt word'.toNat_lt) (Nat.le_sub_one_of_lt word.toNat_lt)
    have carried := overflow.toNat_lt
    have high : (UInt32.ofNat ((word'.toNat * word.toNat + overflow.toNat) / 2 ^ 32)).toNat =
        (word'.toNat * word.toNat + overflow.toNat) / 2 ^ 32 := by
      rw [UInt32.toNat_ofNat']
      exact Nat.mod_eq_of_lt (by omega)
    have added := rippleAt_spec held (show position ≤ n by omega)
      (UInt32.ofNat (word'.toNat * word.toNat + overflow.toNat))
    have next := ih (UInt32.ofNat ((word'.toNat * word.toNat + overflow.toNat) / 2 ^ 32)) added
      (show position + 1 + rest.length ≤ n by omega)
    rw [high, UInt32.toNat_ofNat', Nat.mod_add_mod] at next
    have whole : value (word' :: rest) * word.toNat + overflow.toNat =
        word'.toNat * word.toNat + overflow.toNat + 2 ^ 32 * (value rest * word.toNat) := by
      rw [value_cons]
      ring
    have digits : ∀ low higher : Nat, 2 ^ (32 * position) * (low + 2 ^ 32 * higher) =
        2 ^ (32 * position) * low + 2 ^ (32 * (position + 1)) * higher := by
      intro low higher
      rw [mul_add (32 : Nat), mul_one, pow_add]
      ring
    rw [whole, List.length_cons, mul_add, mul_one, add_comm (32 * rest.length),
      pow_add 2 32, Nat.mod_mul, Nat.add_mul_mod_self_left,
      Nat.add_mul_div_left _ _ (by norm_num), add_comm (_ / 2 ^ 32), digits,
      ← add_assoc]
    exact next

/-- Without overflow from the rows the rows add up to the product. -/
theorem mulRows_spec {a b : List UInt32}
    (narrow : ∀ word : UInt32, value b * word.toNat < 2 ^ (32 * b.length))
    (held : Holds running n number) (room : position + a.length + b.length ≤ n + 1) :
    Holds (mulRows b position a running) n
      ((number + 2 ^ (32 * position) * (value a * value b)) % 2 ^ (32 * n)) := by
  induction a generalizing running number position with
  | nil =>
    rw [mulRows, value_nil, zero_mul, mul_zero, add_zero, Nat.mod_eq_of_lt held.lt]
    exact held
  | cons word rest ih =>
    rw [List.length_cons] at room
    have row := mulRow_spec word 0 held (show position + b.length ≤ n by omega)
    rw [UInt32.toNat_zero, add_zero, Nat.mod_eq_of_lt (narrow word)] at row
    have next := ih row (show position + 1 + rest.length + b.length ≤ n + 1 by omega)
    have whole : number + 2 ^ (32 * position) * (value (word :: rest) * value b) =
        number + 2 ^ (32 * position) * (value b * word.toNat) +
          2 ^ (32 * (position + 1)) * (value rest * value b) := by
      rw [value_cons, mul_add (32 : Nat), mul_one, pow_add]
      ring
    rw [Nat.mod_add_mod] at next
    rw [whole]
    exact next

/-! ## The product with ten -/

/-- The product of a mantissa with ten, as far as it goes: a place of the scale
is given up when it does not fit. -/
def timesTen (sign : UInt8) (scale mantissa : Nat) : Except Error Decimal :=
  if mantissa = 0 then .ok (.make decimalPos 0 0)
  else if 10 * mantissa < 2 ^ 96 then .ok (.make sign scale (10 * mantissa))
  else if 0 < scale then .ok (.make sign (scale - 1) mantissa)
  else .error .overflow

theorem beyondThree_iff {p : List UInt32} (held : Holds p n number) :
    intIsZero (p.drop 3) = true ↔ number < 2 ^ 96 := by
  rw [intIsZero_iff (held.drop 3)]
  exact Nat.div_eq_zero_iff_lt (by norm_num)

/-- The product of three words with ten, after the divisions that make it
fit. -/
theorem diMul_ten {a : Internal} {mantissa : Nat} (held : Holds a.bitsnum 3 mantissa)
    (nonzero : mantissa ≠ 0) (allowed : a.scale < 256) :
    ∃ running turns, diMul a ⟨[10, 0, 0], 0, false⟩ =
        (⟨running.take 3, a.scale - turns, a.sign⟩, !intIsZero (running.drop 3)) ∧
      Holds running 6 (10 * mantissa / 10 ^ turns) ∧
      turns = if 10 * mantissa < 2 ^ 96 ∨ a.scale = 0 then 0 else 1 := by
  have ten_held : Holds ([10, 0, 0] : List UInt32) 3 10 := ⟨rfl, rfl⟩
  have narrow : ∀ word : UInt32, value ([10, 0, 0] : List UInt32) * word.toNat <
      2 ^ (32 * ([10, 0, 0] : List UInt32).length) := by
    intro word
    have below := word.toNat_lt
    rw [ten_held.value_eq, ten_held.length_eq]
    omega
  have small := held.lt
  have room : 0 + a.bitsnum.length + 3 ≤ 6 + 1 := by
    rw [held.length_eq]
    norm_num
  have product := mulRows_spec narrow (holds_zeros 6) room
  rw [held.value_eq, ten_held.value_eq, zero_add, mul_zero, pow_zero, one_mul,
    mul_comm mantissa, Nat.mod_eq_of_lt (by omega)] at product
  have scale_eq : byte (a.scale + 0) = a.scale := Nat.mod_eq_of_lt allowed
  obtain ⟨turns, left, result, divided⟩ := divideUntil_spec
    (fun held' => beyondThree_iff held') product 0
  generalize divided_eq : divideUntil (fun p => intIsZero (p.drop 3))
    (byte (a.scale + 0)) (mulRows [10, 0, 0] 0 a.bitsnum (List.replicate 6 0)) 0 = outcome at *
  obtain ⟨scale, running, remainder⟩ := outcome
  rw [scale_eq] at left divided
  dsimp only at left result divided
  -- one division takes the product back to the mantissa
  have turns_eq : turns = if 10 * mantissa < 2 ^ 96 ∨ a.scale = 0 then 0 else 1 := by
    rcases Nat.eq_zero_or_pos turns with zero | some
    · subst zero
      have ended := divided.ended
      rw [if_pos (by omega)]
    · have first := divided.unwanted 0 some
      have within := divided.within
      rw [if_neg (by omega)]
      by_contra more
      have second := divided.unwanted 1 (by omega)
      omega
  have last : remainder = 0 := by
    split_ifs at turns_eq
    · exact divided.untouched turns_eq
    · rw [divided.digit 0 turns_eq, pow_zero, Nat.div_one, Nat.mul_mod_right]
  refine ⟨running, turns, ?_, result, turns_eq⟩
  have some : ¬ intIsZero a.bitsnum = true := by
    rw [intIsZero_iff held]
    exact nonzero
  rw [diMul, if_neg some]
  dsimp only
  rw [divided_eq]
  rw [last, if_neg (by norm_num), Bool.bne_false, left]

/-- A product that fits, with an allowed scale, is the result. -/
theorem varDecMul_of_fits {left right : Decimal} {scale : Nat} {sign : Bool}
    (multiplied : diMul (diFromDec left) (diFromDec right) =
      (⟨running.take 3, scale, sign⟩, !intIsZero (running.drop 3)))
    (held : Holds running n number) (room : 3 ≤ n) (fits : number < 2 ^ 96)
    (allowed : scale ≤ decMaxScale) :
    varDecMul left right = .ok (.make (signOf sign) scale number) := by
  have kept := held.take room
  rw [Nat.mod_eq_of_lt fits] at kept
  rw [varDecMul, multiplied, (beyondThree_iff held).mpr fits]
  dsimp only
  rw [Bool.not_true, if_neg Bool.false_ne_true, if_neg (Nat.not_lt.mpr allowed), decFromDI_eq kept]

theorem varDecMul_ten {d : Decimal} (valid : d.Valid) :
    varDecMul d (smallDecimal 10) = timesTen d.sign d.scale d.mantissa := by
  have held := holds_diFromDec d
  have allowed := valid.scale
  rw [timesTen]
  split_ifs with zero fits places
  · have cleared : diMul (diFromDec d) (diFromDec (smallDecimal 10)) = (diClear, false) := by
      rw [diMul, if_pos ((intIsZero_iff held).mpr zero)]
    rw [varDecMul, cleared]
    rfl
  all_goals
    obtain ⟨running, turns, multiplied, result, turns_eq⟩ :=
      diMul_ten held zero (allowed.trans_lt (by decide))
    have flag := (signOf_valid valid).symm
    have scale_eq : (diFromDec d).scale = d.scale := rfl
    rw [scale_eq] at turns_eq
  · rw [if_pos (.inl fits)] at turns_eq
    subst turns_eq
    rw [pow_zero, Nat.div_one] at result
    rw [flag]
    exact varDecMul_of_fits multiplied result (by norm_num) fits allowed
  · rw [if_neg (not_or.mpr ⟨fits, places.ne'⟩)] at turns_eq
    subst turns_eq
    rw [pow_one, Nat.mul_div_cancel_left _ (by norm_num)] at result
    rw [flag]
    exact varDecMul_of_fits multiplied result (by norm_num) d.mantissa_lt
      ((Nat.sub_le _ _).trans allowed)
  · rw [if_pos (.inr (Nat.eq_zero_of_not_pos places))] at turns_eq
    subst turns_eq
    rw [pow_zero, Nat.div_one] at result
    have overflowed : intIsZero (running.drop 3) = false := by
      rw [← Bool.not_eq_true, beyondThree_iff result]
      exact fits
    have ten : diMul (diFromDec d) (diFromDec (smallDecimal 10)) = _ := multiplied
    rw [varDecMul, ten, overflowed]
    rfl

end WineRedRose.Decimals
