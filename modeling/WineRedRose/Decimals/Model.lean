import WineRedRose.Library.Words

/-!
# Decimal arithmetic

The arithmetic on `DECIMAL`s of `dlls/oleaut32/vartype.c`: numbers of 96 bits
with a decimal scale and a sign.  Numbers of several `DWORD`s are lists with
the lowest word first, and the routines on them follow the loops of the source.
A `DWORD` plus one is a `DWORD`, so the carry that the rounding loops test for
never shows.
-/

namespace WineRedRose.Decimals

open Library.Words

/-- The results other than `S_OK`. -/
inductive Error where
  /-- `DISP_E_OVERFLOW` -/
  | overflow
  /-- `DISP_E_DIVBYZERO` -/
  | divByZero
  /-- `E_INVALIDARG` -/
  | invalidArg
deriving DecidableEq, Repr

/-- A `DECIMAL`. -/
structure Decimal where
  sign : UInt8
  scale : Nat
  hi32 : UInt32
  mid32 : UInt32
  lo32 : UInt32
deriving DecidableEq, Repr

/-- A `VARIANT_DI`. -/
structure Internal where
  /-- Three words. -/
  bitsnum : List UInt32
  scale : Nat
  sign : Bool
deriving DecidableEq, Repr

def decimalPos : UInt8 := 0

def decimalNeg : UInt8 := 0x80

def decMaxScale : Nat := 28

/-- A `BYTE` that is added to. -/
def byte (n : Nat) : Nat := n % 256

/-! ## Words -/

/-- The sum of two words and a carry, and the new carry. -/
def variantAdd (ulLeft ulRight high : UInt32) : UInt32 × UInt32 :=
  let quadPart := ulLeft.toNat + ulRight.toNat + high.toNat
  (UInt32.ofNat quadPart, UInt32.ofNat (quadPart / 2 ^ 32))

/-- The product of two words with a carry added, and the new carry. -/
def variantMul (ulLeft ulRight high : UInt32) : UInt32 × UInt32 :=
  let quadPart := ulLeft.toNat * ulRight.toNat + high.toNat
  (UInt32.ofNat quadPart, UInt32.ofNat (quadPart / 2 ^ 32))

section

variable (p : List UInt32) (m : UInt8)

/-- `VARIANT_int_iszero` -/
def intIsZero : Bool := p.all (· == 0)

/-- The loop of a division from the highest word down.  Leading zero words,
which the source skips, stay zero. -/
def divSteps (divisor : Nat) : List UInt32 → List UInt32 × Nat
  | [] => ([], 0)
  | word :: rest =>
    let (quotient, remainder) := divSteps divisor rest
    let dividend := remainder <<< 32 + word.toNat
    (UInt32.ofNat (dividend / divisor) :: quotient, dividend % divisor)

/-- `VARIANT_int_divbychar`: the quotient in place and the remainder. -/
def intDivByChar (divisor : UInt8) : List UInt32 × Nat :=
  if divisor = 0 then (p, 0xff)
  else if divisor = 1 then (p, 0)
  else divSteps divisor.toNat p

/-- The loop of a multiplication from the lowest word up. -/
def mulSteps (m : UInt32) : (overflow : UInt32) → List UInt32 → List UInt32
  | _, [] => []
  | overflow, word :: rest =>
    let (low, high) := variantMul word m overflow
    low :: mulSteps m high rest

/-- `VARIANT_int_mulbychar` -/
def intMulByChar : List UInt32 := mulSteps m.toUInt32 0 p

/-- The loop that carries on once the shorter number has ended. -/
def carrySteps : (carry : Nat) → List UInt32 → List UInt32
  | _, [] => []
  | carry, word :: rest =>
    if carry = 0 then word :: rest
    else
      let sum := word.toNat + carry
      UInt32.ofNat sum :: carrySteps (sum / 2 ^ 32) rest

/-- The loop over the words of both numbers. -/
def addSteps : (carry : Nat) → (v p : List UInt32) → List UInt32
  | carry, v, [] => carrySteps carry v
  | _, [], _ :: _ => []
  | carry, word :: v, word' :: p =>
    let sum := word.toNat + word'.toNat + carry
    UInt32.ofNat sum :: addSteps (sum / 2 ^ 32) v p

/-- `VARIANT_int_add`; the carry left at the end is not used by any caller. -/
def intAdd (v p : List UInt32) : List UInt32 := if p.length ≤ v.length then addSteps 0 v p else v

/-- All words moved up by one. -/
def shiftWord : List UInt32 := 0 :: p.dropLast

/-- The loop that moves bits from each word to the next. -/
def shiftBits (shift : UInt32) : (shifted : UInt32) → List UInt32 → List UInt32
  | _, [] => []
  | shifted, word :: rest =>
    (word <<< shift ||| shifted) :: shiftBits shift (word >>> (32 - shift)) rest

/-- `VARIANT_int_shiftleft` -/
def intShiftLeft (shift : Nat) : List UInt32 :=
  let moved := shiftWord^[shift / 32] p
  if shift % 32 = 0 then moved
  else shiftBits (UInt32.ofNat (shift % 32)) 0 moved

end

/-- The rounding loop, with a sum of 32 bits. -/
def roundUp : List UInt32 → List UInt32
  | [] => []
  | word :: rest =>
    let digit := (word + 1).toNat
    UInt32.ofNat (digit &&& 0xffffffff) ::
      if digit > 0xffffffff then roundUp rest else rest

/-- Divisions by ten until a number is as wanted, but no more than so many:
what is left of the count, the number and the last remainder. -/
def divideUntil (wanted : List UInt32 → Bool) :
    (count : Nat) → (p : List UInt32) → (remainder : Nat) → Nat × List UInt32 × Nat
  | 0, p, remainder => (0, p, remainder)
  | count + 1, p, remainder =>
    if wanted p then (count + 1, p, remainder)
    else
      let (quotient, remainder) := intDivByChar p 10
      divideUntil wanted count quotient remainder

/-- More words, all zero. -/
def padTo (n : Nat) (p : List UInt32) : List UInt32 := p ++ List.replicate (n - p.length) 0

/-! ## Long division -/

/-- The complement of the divisor in so many words. -/
def negDivisor (n : Nat) (divisor : List UInt32) : List UInt32 := intAdd
    ((List.range n).map fun i => if i < divisor.length then ~~~(divisor.getD i 0) else 0xffffffff)
    [1]

/-- Leading zero words are skipped: the words left to process. -/
def skipZeroWords (n : Nat) : (left : Nat) → List UInt32 → Nat × List UInt32
  | 0, low => (0, low)
  | left + 1, low =>
    if low.getD (n - 1) 0 = 0 then skipZeroWords n left (intShiftLeft low 32)
    else (left + 1, low)

def setLowBit : List UInt32 → List UInt32
  | [] => []
  | word :: rest => (word ||| 1) :: rest

/-- One bit of the quotient. -/
def divideBit (n : Nat) (negdivisor p : List UInt32) : List UInt32 :=
  let p := intShiftLeft p 1
  let tempsub := intAdd (p.drop n) negdivisor
  if tempsub.getD (n - 1) 0 &&& 0x80000000 = 0 then setLowBit (p.take n) ++ tempsub
  else p

def divideBits (n : Nat) (negdivisor : List UInt32) : (count : Nat) → List UInt32 → List UInt32
  | 0, p => p
  | count + 1, p => divideBits n negdivisor count (divideBit n negdivisor p)

/-- The words of the local array `tempsub`, for a difference and the complement. -/
def tempsubLength : Nat := 8

/-- `VARIANT_int_div`: quotient and remainder in `2 * n` words.  With more words
than `tempsub` has room for the source writes outside it. -/
def intDiv (p : List UInt32) (n : Nat) (divisor : List UInt32)
    (_room : 2 * n ≤ tempsubLength := by decide) : List UInt32 :=
  let (left, low) := skipZeroWords n n (p.take n)
  divideBits n (negDivisor n divisor) (32 * left) (low ++ List.replicate n 0)

/-! ## Additions with loss of digits -/

/-- A number with its scale, which may be negative on the way. -/
structure Scaled where
  digits : List UInt32
  scale : Int
deriving DecidableEq, Repr

/-- Divides by ten while nothing is lost. -/
def lowerExactly : (count : Nat) → (t : List UInt32) → Scaled → Scaled
  | 0, _, chosen => chosen
  | count + 1, t, chosen =>
    let (quotient, remainder) := intDivByChar t 10
    if remainder = 0 then
      lowerExactly count quotient ⟨quotient.take chosen.digits.length, chosen.scale - 1⟩
    else chosen

/-- Multiplies by ten while the number does not need another word. -/
def raise : (count : Nat) → (t : List UInt32) → Scaled → Scaled
  | 0, _, chosen => chosen
  | count + 1, t, chosen =>
    let t := intMulByChar t 10
    if t.getD chosen.digits.length 0 = 0 then
      raise count t ⟨t.take chosen.digits.length, chosen.scale + 1⟩
    else chosen

/-- Divides by ten and drops the remainders. -/
def lower : (count : Nat) → (t : List UInt32) → Scaled → Scaled
  | 0, _, chosen => chosen
  | count + 1, t, chosen =>
    let (quotient, _) := intDivByChar t 10
    lower count quotient ⟨quotient.take chosen.digits.length, chosen.scale - 1⟩

/-- The number with the bigger scale is scaled down. -/
def scaleDown (by' : (count : Nat) → (t : List UInt32) → Scaled → Scaled)
    (tn : Nat) (a b : Scaled) : Scaled × Scaled :=
  if a.scale < b.scale then (a, by' (b.scale - a.scale).toNat (padTo tn b.digits) b)
  else (by' (a.scale - b.scale).toNat (padTo tn a.digits) a, b)

/-- The number with the smaller scale is scaled up. -/
def scaleUp (tn : Nat) (a b : Scaled) : Scaled × Scaled :=
  if b.scale < a.scale then (a, raise (a.scale - b.scale).toNat (padTo tn b.digits) b)
  else (raise (b.scale - a.scale).toNat (padTo tn a.digits) a, b)

/-- The three attempts to give both numbers one scale. -/
def alignScales (tn : Nat) (a b : Scaled) : Scaled × Scaled :=
  let (a, b) := if a.scale = b.scale then (a, b) else scaleDown lowerExactly tn a b
  let (a, b) := if a.scale = b.scale then (a, b) else scaleUp tn a b
  if a.scale = b.scale then (a, b) else scaleDown lower tn a b

/-- Adds, and takes a digit from both numbers while the sum is too long. -/
def addOrShorten (tn : Nat) : (fuel : Nat) → (a b : Scaled) → Scaled × Scaled × Bool
  | 0, a, b => (a, b, true)
  | fuel + 1, a, b =>
    let t := intAdd (padTo tn a.digits) b.digits
    if intIsZero (t.drop a.digits.length) then (⟨t.take a.digits.length, a.scale⟩, b, false)
    else
      let a : Scaled := ⟨(intDivByChar a.digits 10).1, a.scale - 1⟩
      let b : Scaled := ⟨(intDivByChar b.digits 10).1, b.scale - 1⟩
      if intIsZero a.digits || intIsZero b.digits then (a, b, true)
      else addOrShorten tn fuel a b

/-- `VARIANT_int_addlossy`: both numbers afterwards and whether one of them
has vanished.  The fuel is more than a number of that many words has digits. -/
def intAddLossy (a b : Scaled) : Scaled × Scaled × Bool :=
  let an := a.digits.length
  let bn := b.digits.length
  if intIsZero a.digits then
    let (left, digits, _) := divideUntil
      (fun p => decide (bn ≤ an) || intIsZero (p.drop an)) (32 * bn) b.digits 0
    let scale := b.scale - ((32 * bn - left : Nat) : Int)
    (⟨digits.take an, scale⟩, ⟨digits, scale⟩, false)
  else if intIsZero b.digits then (a, b, false)
  else
    let tn := max (an + 1) (bn + 1)
    let (a, b) := alignScales tn a b
    if intIsZero a.digits || intIsZero b.digits then (a, b, true)
    else addOrShorten tn (32 * bn + 1) a b

/-! ## Conversions -/

/-- `VARIANT_DIFromDec` -/
def diFromDec (source : Decimal) : Internal :=
  ⟨[source.lo32, source.mid32, source.hi32], source.scale, source.sign != 0⟩

/-- `VARIANT_DecFromDI` -/
def decFromDI (source : Internal) : Decimal :=
  { sign := if source.sign then decimalNeg else decimalPos
    scale := source.scale
    lo32 := source.bitsnum.getD 0 0
    mid32 := source.bitsnum.getD 1 0
    hi32 := source.bitsnum.getD 2 0 }

/-- A cleared `VARIANT_DI`. -/
def diClear : Internal := ⟨[0, 0, 0], 0, false⟩

/-! ## Multiplication -/

/-- Adds a word to the lowest one and carries on. -/
def rippleAdd : List UInt32 → (carry : UInt32) → List UInt32
  | [], _ => []
  | word :: rest, carry =>
    let (low, high) := variantAdd word 0 carry
    low :: if high = 0 then rest else rippleAdd rest high

/-- The inner loop over the words of the second operand.  What overflows from
the last word is dropped. -/
def mulRow (word : UInt32) :
    (position : Nat) → (overflow : UInt32) → List UInt32 → (running : List UInt32) → List UInt32
  | _, _, [], running => running
  | position, overflow, word' :: rest, running =>
    let (low, high) := variantMul word' word overflow
    mulRow word (position + 1) high rest
      (running.take position ++ rippleAdd (running.drop position) low)

/-- The outer loop over the words of the first operand; words above the last
one that is not zero, which the source skips, add nothing. -/
def mulRows (b : List UInt32) :
    (position : Nat) → List UInt32 → (running : List UInt32) → List UInt32
  | _, [], running => running
  | position, word :: rest, running =>
    mulRows b (position + 1) rest (mulRow word position 0 b running)

/-- `VARIANT_DI_mul`: the result and whether it overflowed. -/
def diMul (a b : Internal) : Internal × Bool :=
  if intIsZero a.bitsnum then (diClear, false)
  else
    let running := mulRows b.bitsnum 0 a.bitsnum (List.replicate 6 0)
    let (scale, running, remainder) := divideUntil
      (fun p => intIsZero (p.drop 3)) (byte (a.scale + b.scale)) running 0
    let running := if remainder ≥ 5 then roundUp running else running
    (⟨running.take 3, scale, a.sign != b.sign⟩, !intIsZero (running.drop 3))

def varDecMul (pDecLeft pDecRight : Decimal) : Except Error Decimal :=
  let (result, overflowed) := diMul (diFromDec pDecLeft) (diFromDec pDecRight)
  if overflowed then .error .overflow
  else if result.scale > decMaxScale then
    let (excess, bitsnum, _) := divideUntil intIsZero (result.scale - decMaxScale) result.bitsnum 0
    if excess > 0 then .ok (decFromDI ⟨bitsnum, 0, false⟩)
    else .ok (decFromDI ⟨bitsnum, decMaxScale, result.sign⟩)
  else .ok (decFromDI result)

/-! ## Division -/

/-- The loop that finds the quotient digit by digit; it does not end within the
fuel when there is no result. -/
def divideLoop (divisor : List UInt32) (roundRemainder : Bool) :
    (fuel : Nat) → (quotient : Scaled) → (remainderplusquotient : List UInt32) →
      (remainderscale : Int) → Option Scaled
  | 0, _, _, _ => none
  | fuel + 1, quotient, remainderplusquotient, remainderscale =>
    let divided := intDiv remainderplusquotient 4 divisor
    let (quotient, _, underflow) := intAddLossy quotient ⟨divided.take 4, remainderscale⟩
    if roundRemainder then
      -- the remainder is cleared, so the loop ends here
      if divided.getD 4 0 ≥ 5 then some ⟨roundUp quotient.digits, quotient.scale⟩
      else some quotient
    else
      let remainder := intMulByChar (divided.drop 4) 10
      if underflow || intIsZero remainder then some quotient
      else
        divideLoop divisor roundRemainder fuel quotient (remainder ++ remainder)
          (remainderscale + 1)

/-- Multiplies by ten up to the scale zero. -/
def raiseToZero : (count : Nat) → List UInt32 → Except Error (List UInt32)
  | 0, bitsnum => .ok bitsnum
  | count + 1, bitsnum =>
    let t := intMulByChar (padTo 8 bitsnum) 10
    if intIsZero (t.drop 3) then raiseToZero count (t.take 3)
    else .error .overflow

/-- The scale of a quotient is made positive, if this can be done. -/
def finishQuotient (quotient : Scaled) (sign : Bool) : Except Error Internal := do
  let bitsnum ← raiseToZero (-quotient.scale).toNat quotient.digits
  let scale := quotient.scale.toNat
  if scale ≤ 255 then pure ⟨bitsnum, scale, sign⟩ else pure diClear

/-- More turns than the loop of a division takes. -/
def divideFuel : Nat := 100

/-- `VARIANT_DI_div` -/
def diDiv (dividend divisor : Internal) (roundRemainder : Bool) : Option (Except Error Internal) :=
  if intIsZero divisor.bitsnum then some (.error .divByZero)
  else if intIsZero dividend.bitsnum then some (.ok diClear)
  else do
    let scale : Int := dividend.scale - divisor.scale
    let quotient ← divideLoop divisor.bitsnum roundRemainder divideFuel
      ⟨[0, 0, 0], scale⟩ (padTo 8 dividend.bitsnum) scale
    pure (finishQuotient quotient (dividend.sign != divisor.sign))

/-- Digits beyond the maximal scale are removed, with rounding. -/
def limitScale (result : Internal) : Internal :=
  if result.scale > decMaxScale then
    let (excess, bitsnum, remainder) := divideUntil intIsZero
      (result.scale - decMaxScale) result.bitsnum 0
    if excess > 0 then ⟨bitsnum, 0, false⟩
    else if remainder ≥ 5 then ⟨roundUp bitsnum, decMaxScale, result.sign⟩
    else ⟨bitsnum, decMaxScale, result.sign⟩
  else result

/-- `VARIANT_do_division` -/
def doDivision (pDecLeft pDecRight : Decimal) (round : Bool) : Option (Except Error Decimal) := do
  let divided ← diDiv (diFromDec pDecLeft) (diFromDec pDecRight) round
  pure (divided.map fun result => decFromDI (limitScale result))

/-! ## Rounding -/

/-- A decimal without sign, scale and higher words. -/
def smallDecimal (n : UInt32) : Decimal := ⟨decimalPos, 0, 0, 0, n⟩

/-- Repeated multiplications by ten. -/
def powerOfTen : (count : Nat) → Decimal → Except Error Decimal
  | 0, divisor => .ok divisor
  | count + 1, divisor => do
      let divisor ← varDecMul divisor (smallDecimal 10)
      powerOfTen count divisor

def varDecRound (pDecIn : Decimal) (cDecimals : Int) : Option (Except Error Decimal) :=
  if cDecimals < 0 ∨ pDecIn.sign &&& ~~~decimalNeg ≠ 0 ∨ pDecIn.scale > decMaxScale then
    some (.error .invalidArg)
  else if cDecimals ≥ pDecIn.scale then some (.ok pDecIn)
  else
    match powerOfTen (pDecIn.scale - cDecimals.toNat) (smallDecimal 1) with
    | .error error => some (.error error)
    | .ok divisor => do
        let divided ← doDivision pDecIn divisor true
        pure (divided.map fun result => { result with scale := cDecimals.toNat })

end WineRedRose.Decimals
