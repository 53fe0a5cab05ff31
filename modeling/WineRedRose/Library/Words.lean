import Mathlib.Tactic

/-!
# Numbers written in words

A list of words of 32 bits, the lowest one first, is read as a number.  A list
of given length holds every number below a power of `2 ^ 32` exactly once, so
an operation on lists is described by the number and the length it produces.
-/

namespace WineRedRose.Library.Words

open List

/-- The number written in words, the lowest first. -/
def value (words : List UInt32) : Nat := Nat.ofDigits (2 ^ 32) (words.map UInt32.toNat)

@[simp]
theorem value_nil : value [] = 0 := rfl

@[simp]
theorem value_cons (word : UInt32) (rest : List UInt32) :
    value (word :: rest) = word.toNat + 2 ^ 32 * value rest := by
  rw [value, map_cons, Nat.ofDigits_cons, value]

theorem value_append (first second : List UInt32) :
    value (first ++ second) = value first + 2 ^ (32 * first.length) * value second := by
  rw [value, map_append, Nat.ofDigits_append, length_map, value, value, pow_mul]

section

variable (words : List UInt32)
include words

theorem value_lt : value words < 2 ^ (32 * words.length) := by
  have digits : ∀ digit ∈ words.map UInt32.toNat, digit < 2 ^ 32 := by
    intro digit member
    obtain ⟨word, _, rfl⟩ := mem_map.mp member
    exact word.toNat_lt
  have bound := Nat.ofDigits_lt_base_pow_length (by norm_num) digits
  rwa [length_map, ← pow_mul] at bound

variable {count : Nat}

omit words in
theorem value_replicate_zero : value (replicate count 0) = 0 := by
  induction count with
  | zero => rfl
  | succ count ih =>
    rw [replicate_succ, value_cons, ih]
    rfl

theorem value_eq_zero_iff : value words = 0 ↔ words.all (· == 0) = true := by
  induction words with
  | nil => simp
  | cons word rest ih =>
    rw [value_cons, all_cons, Bool.and_eq_true, ← ih, beq_iff_eq, ← UInt32.toNat_inj]
    show _ ↔ word.toNat = 0 ∧ _
    omega

theorem value_split : value (words.take count) + 2 ^ (32 * count) * value (words.drop count) =
      value words ∧ value (words.take count) < 2 ^ (32 * count) := by
  have low := value_lt (words.take count)
  rcases le_total count words.length with inside | beyond
  · have split := value_append (words.take count) (words.drop count)
    rw [take_append_drop] at split
    rw [length_take_of_le inside] at split low
    exact ⟨split.symm, low⟩
  · have small := Nat.pow_le_pow_right two_pos (Nat.mul_le_mul_left 32 beyond)
    rw [take_of_length_le beyond] at low ⊢
    rw [drop_of_length_le beyond, value_nil]
    exact ⟨rfl, low.trans_le small⟩

/-- The words from a position on hold the quotient by a power. -/
theorem value_drop : value (words.drop count) = value words / 2 ^ (32 * count) := by
  rcases value_split words with ⟨split, low⟩
  rw [← split, Nat.add_mul_div_left _ _ (by positivity), Nat.div_eq_of_lt low, zero_add]

/-- The words up to a position hold the remainder by a power. -/
theorem value_take : value (words.take count) = value words % 2 ^ (32 * count) := by
  rcases value_split words with ⟨split, low⟩
  rw [← split, Nat.add_mul_mod_self_left, Nat.mod_eq_of_lt low]

/-! ## Lists that hold a number -/

/-- A list of so many words that hold a number. -/
structure Holds (words : List UInt32) (count number : Nat) : Prop where
  length_eq : words.length = count
  value_eq : value words = number

theorem holds_value : Holds words words.length (value words) := ⟨rfl, rfl⟩

end

theorem holds_zeros (count : Nat) : Holds (replicate count 0) count 0 :=
  ⟨length_replicate, value_replicate_zero⟩

namespace Holds

variable {words more : List UInt32} {count count' number number' : Nat}

section

variable (held : Holds words count number)
include held

theorem lt : number < 2 ^ (32 * count) := by
  rw [← held.length_eq, ← held.value_eq]
  exact value_lt words

theorem take (within : count' ≤ count) :
    Holds (words.take count') count' (number % 2 ^ (32 * count')) := by
  constructor
  · rw [length_take_of_le (held.length_eq ▸ within)]
  · rw [value_take, held.value_eq]

theorem drop (count' : Nat) :
    Holds (words.drop count') (count - count') (number / 2 ^ (32 * count')) := by
  constructor
  · rw [length_drop, held.length_eq]
  · rw [value_drop, held.value_eq]

theorem append (held' : Holds more count' number') :
    Holds (words ++ more) (count + count') (number + 2 ^ (32 * count) * number') := by
  constructor
  · rw [length_append, held.length_eq, held'.length_eq]
  · rw [value_append, held.value_eq, held'.value_eq, held.length_eq]

omit held in
theorem cons (word : UInt32) (held : Holds words count number) :
    Holds (word :: words) (count + 1) (word.toNat + 2 ^ 32 * number) := by
  constructor
  · rw [length_cons, held.length_eq]
  · rw [value_cons, held.value_eq]

omit held in
/-- A lowest word cut off from a number that carries on into the others. -/
theorem cons_carry {rest : Nat}
    (held : Holds words count ((number / 2 ^ 32 + rest) % 2 ^ (32 * count))) :
    Holds (UInt32.ofNat number :: words) (count + 1)
      ((number + 2 ^ 32 * rest) % 2 ^ (32 * (count + 1))) := by
  have split : (number + 2 ^ 32 * rest) % 2 ^ (32 * (count + 1)) =
      number % 2 ^ 32 + 2 ^ 32 * ((number / 2 ^ 32 + rest) % 2 ^ (32 * count)) := by
    rw [mul_add, mul_one, add_comm (32 * count), pow_add, Nat.mod_mul,
      Nat.add_mul_mod_self_left, Nat.add_mul_div_left _ _ (by norm_num)]
  rw [split, ← UInt32.toNat_ofNat']
  exact held.cons _

/-- The word at a position is the digit there. -/
theorem getD_toNat (position : Nat) :
    (words.getD position 0).toNat = number / 2 ^ (32 * position) % 2 ^ 32 := by
  rw [← held.value_eq, ← value_drop]
  clear held
  induction words generalizing position with
  | nil => simp
  | cons word rest ih =>
    cases position with
    | zero =>
      have below := word.toNat_lt
      rw [drop_zero, value_cons, getD_cons_zero]
      omega
    | succ position => exact ih position

end

end Holds

end WineRedRose.Library.Words
