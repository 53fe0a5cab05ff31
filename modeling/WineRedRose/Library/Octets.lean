import Mathlib.Tactic

/-!
# Numbers written in octets

A list of octets, the lowest one first, is read as an unsigned number or as a
number in two's complement.  The number in two's complement does not change
when sign octets are added at the end; a list in which the last octet is not
such an extension is the shortest one with its value.
-/

namespace WineRedRose.Library.Octets

open List

/-- The number written in octets, the lowest first. -/
def unsigned (octets : List UInt8) : Nat := Nat.ofDigits 256 (octets.map UInt8.toNat)

/-- The value of an octet as the last one of a number in two's complement. -/
def topValue (octet : UInt8) : Int := if octet < 0x80 then octet.toNat else octet.toNat - 256

/-- The number written in two's complement, the lowest octet first. -/
def signed (octets : List UInt8) : Int :=
  match octets.getLast? with
  | none => 0
  | some last => unsigned octets.dropLast + 256 ^ (octets.length - 1) * topValue last

@[simp]
theorem unsigned_nil : unsigned [] = 0 := rfl

@[simp]
theorem unsigned_cons (octet : UInt8) (rest : List UInt8) :
    unsigned (octet :: rest) = octet.toNat + 256 * unsigned rest := by
  rw [unsigned, map_cons, Nat.ofDigits_cons, unsigned]

theorem unsigned_append (first second : List UInt8) :
    unsigned (first ++ second) = unsigned first + 256 ^ first.length * unsigned second := by
  rw [unsigned, map_append, Nat.ofDigits_append, length_map, unsigned, unsigned]

theorem unsigned_lt (octets : List UInt8) : unsigned octets < 256 ^ octets.length := by
  have digits : ∀ digit ∈ octets.map UInt8.toNat, digit < 256 := by
    intro digit member
    obtain ⟨octet, _, rfl⟩ := mem_map.mp member
    exact octet.toNat_lt
  have bound := Nat.ofDigits_lt_base_pow_length (by norm_num) digits
  rwa [length_map] at bound

theorem unsigned_reverse_lt (octets : List UInt8) :
    unsigned octets.reverse < 256 ^ octets.length := by
  simpa using unsigned_lt octets.reverse

theorem unsigned_replicate_zero (n : Nat) : unsigned (replicate n 0) = 0 := by
  induction n with
  | zero => rfl
  | succ n ih =>
    rw [replicate_succ, unsigned_cons, ih]
    rfl

theorem unsigned_reverse_cons (octet : UInt8) (rest : List UInt8) :
    unsigned (octet :: rest).reverse = octet.toNat * 256 ^ rest.length + unsigned rest.reverse := by
  rw [reverse_cons, unsigned_append, length_reverse, unsigned_cons, unsigned_nil]
  ring

/-- So many octets of a number, the lowest first. -/
def octetsOf : (count n : Nat) → List UInt8
  | 0, _ => []
  | count + 1, n => UInt8.ofNat (n % 256) :: octetsOf count (n / 256)

variable {count : Nat}

@[simp]
theorem octetsOf_length (n : Nat) : (octetsOf count n).length = count := by
  induction count generalizing n with
  | zero => rfl
  | succ count ih => rw [octetsOf, length_cons, ih]

theorem unsigned_octetsOf {count n : Nat} (fits : n < 256 ^ count) :
    unsigned (octetsOf count n) = n := by
  induction count generalizing n with
  | zero =>
    rw [octetsOf, unsigned_nil]
    omega
  | succ count ih =>
    have rest : n / 256 < 256 ^ count := by exact Nat.div_lt_of_lt_mul (by rwa [mul_comm])
    rw [octetsOf, unsigned_cons, ih rest, UInt8.toNat_ofNat']
    omega

@[simp]
theorem signed_nil : signed [] = 0 := rfl

theorem signed_concat (octets : List UInt8) (last : UInt8) :
    signed (octets ++ [last]) = unsigned octets + 256 ^ octets.length * topValue last := by
  rw [signed, getLast?_concat]
  simp only [dropLast_concat, length_append, length_singleton, Nat.add_sub_cancel]

/-! ## Sign octets -/

variable {octet last : UInt8} {octets : List UInt8}

theorem lt_0x80_iff : octet < 0x80 ↔ octet.toNat < 128 := UInt8.lt_iff_toNat_lt

theorem le_0x7f_iff : octet ≤ 0x7f ↔ octet < 0x80 := by
  rw [UInt8.le_iff_toNat_le, lt_0x80_iff]
  exact Nat.lt_succ_iff.symm

theorem topValue_of_ge (negative : ¬ octet < 0x80) : topValue octet = octet.toNat - 256 :=
  if_neg negative

theorem topValue_range (octet : UInt8) : -128 ≤ topValue octet ∧ topValue octet ≤ 127 := by
  have small := octet.toNat_lt
  rw [topValue]
  split_ifs with positive
  · rw [lt_0x80_iff] at positive
    omega
  · rw [lt_0x80_iff] at positive
    omega

theorem eq_ff_of_topValue (value : topValue octet = -1) : octet = 0xff := by
  apply UInt8.toNat_inj.mp
  show octet.toNat = 255
  rw [topValue] at value
  split_ifs at value
  omega

theorem eq_zero_of_topValue (value : topValue octet = 0) : octet = 0 := by
  have small := octet.toNat_lt
  apply UInt8.toNat_inj.mp
  show octet.toNat = 0
  rw [topValue] at value
  split_ifs at value <;> omega

/-- An octet `0xff` after one from `0x80` on changes nothing. -/
theorem signed_concat_ff (negative : ¬ last < 0x80) :
    signed (octets ++ [last] ++ [0xff]) = signed (octets ++ [last]) := by
  rw [signed_concat, signed_concat, unsigned_append, topValue_of_ge negative,
    length_append, length_singleton, pow_succ]
  simp [topValue]
  ring

/-- With a zero octet at the end the number is the unsigned one. -/
theorem signed_zero : signed (octets ++ [0]) = unsigned octets := by
  rw [signed_concat]
  simp [topValue]

theorem signed_eq_unsigned (octets : List UInt8) (positive : last < 0x80) :
    signed (octets ++ [last]) = unsigned (octets ++ [last]) := by
  rw [signed_concat, unsigned_append, topValue, if_pos positive]
  simp

/-! ## Shortest lists -/

/-- The numbers that so many octets can hold. -/
theorem signed_range (octets : List UInt8) :
    -(256 ^ octets.length : Int) ≤ 2 * signed octets ∧ 2 * signed octets < 256 ^ octets.length := by
  rcases eq_nil_or_concat octets with rfl | ⟨front, last, rfl⟩
  · simp
  · have top := topValue_range last
    have low := unsigned_lt front
    rw [concat_eq_append, signed_concat, length_append, length_singleton, pow_succ]
    constructor <;> nlinarith

/-- The last octet is more than a copy of the sign below it. -/
def Tight (octets : List UInt8) : Prop := ∀ front next last, octets = front ++ [next] ++ [last] →
    ¬ (last = 0 ∧ next < 0x80) ∧ ¬ (last = 0xff ∧ ¬ next < 0x80)

/-- The number of a tight list does not fit into one octet less. -/
theorem Tight.beyond (tight : Tight octets) (more : 1 < octets.length) :
    2 * signed octets < -(256 ^ (octets.length - 1) : Int) ∨
      (256 ^ (octets.length - 1) : Int) ≤ 2 * signed octets := by
  obtain ⟨front, last, rfl⟩ := (eq_nil_or_concat octets).resolve_left (by rintro rfl; simp at more)
  obtain ⟨front, next, rfl⟩ := (eq_nil_or_concat front).resolve_left (by rintro rfl; simp at more)
  rw [concat_eq_append, concat_eq_append] at tight ⊢
  have notCopy := tight front next last rfl
  have count : (front ++ [next] ++ [last]).length - 1 = front.length + 1 := by simp
  rw [count, signed_concat, unsigned_append, length_append,
    length_singleton, unsigned_cons, unsigned_nil]
  have low : (unsigned front : Int) < 256 ^ front.length := by exact_mod_cast unsigned_lt front
  have small := next.toNat_lt
  push_cast
  rw [pow_succ]
  generalize (256 : Int) ^ front.length = scale at *
  rcases lt_trichotomy (topValue last) 0 with negative | zero | greater
  · left
    by_cases minusOne : topValue last = -1
    · have full : last = 0xff := eq_ff_of_topValue minusOne
      have below : next.toNat < 128 := not_not.mp fun above => notCopy.2 ⟨full, above⟩
      rw [minusOne]
      nlinarith
    · have less : topValue last ≤ -2 := by omega
      nlinarith
  · right
    have null : last = 0 := eq_zero_of_topValue zero
    have above : ¬ next.toNat < 128 := fun below => notCopy.1 ⟨null, below⟩
    rw [zero]
    nlinarith
  · right
    nlinarith

/-- A number that fits into some octets has no longer tight list. -/
theorem Tight.length_le {count : Nat} (tight : Tight octets) (some : 0 < count)
    (low : -(256 ^ count : Int) ≤ 2 * signed octets) (high : 2 * signed octets < 256 ^ count) :
    octets.length ≤ count := by
  by_contra longer
  have power : (256 ^ count : Int) ≤ 256 ^ (octets.length - 1) := by
    exact_mod_cast Nat.pow_le_pow_right (by norm_num) (by omega)
  rcases tight.beyond (by omega) with below | above <;> omega

/-- Fewer octets cannot hold the number of a tight list. -/
theorem Tight.le_length {octets' : List UInt8} (tight : Tight octets) (nonempty : octets' ≠ [])
    (same : signed octets' = signed octets) :
    octets.length ≤ octets'.length := by
  obtain ⟨low, high⟩ := signed_range octets'
  rw [same] at low high
  exact tight.length_le (length_pos_iff.mpr nonempty) low high

theorem tight_singleton : Tight [octet] := by
  intro front next last split
  have lengths := congrArg length split
  simp at lengths

theorem tight_concat (front : List UInt8) {next : UInt8} (notZero : ¬ (last = 0 ∧ next < 0x80))
    (notFull : ¬ (last = 0xff ∧ ¬ next < 0x80)) :
    Tight (front ++ [next] ++ [last]) := by
  intro front' next' last' split
  obtain ⟨initial, lasts⟩ := append_inj' split rfl
  obtain ⟨_, nexts⟩ := append_inj' initial rfl
  cases lasts
  cases nexts
  exact ⟨notZero, notFull⟩

/-- A last octet that is not a sign octet is never too much. -/
theorem tight_of_last (front : List UInt8) (notZero : last ≠ 0) (notFull : last ≠ 0xff) :
    Tight (front ++ [last]) := by
  rcases eq_nil_or_concat front with rfl | ⟨front, next, rfl⟩
  · exact tight_singleton
  · rw [concat_eq_append]
    exact tight_concat front (fun zero => notZero zero.1) fun full => notFull full.1

/-! ## Octets at the end -/

/-- The octets of one value at the end, and what comes before them. -/
theorem exists_trailing (octet : UInt8) (octets : List UInt8) :
    ∃ kept count, octets = kept ++ replicate count octet ∧
      ∀ front last, kept = front ++ [last] → last ≠ octet := by
  induction octets using reverseRecOn with
  | nil => exact ⟨[], 0, rfl, fun front last split => by simp at split⟩
  | append_singleton octets last ih =>
    by_cases same : last = octet
    · subst same
      obtain ⟨kept, count, split, stops⟩ := ih
      refine ⟨kept, count + 1, ?_, stops⟩
      rw [split, replicate_succ', append_assoc]
    · refine ⟨octets ++ [last], 0, by simp, ?_⟩
      intro front last' split
      cases (append_inj' split rfl).2
      exact same

theorem unsigned_append_zeros : unsigned (octets ++ replicate count 0) = unsigned octets := by
  rw [unsigned_append, unsigned_replicate_zero, mul_zero, add_zero]

/-- Of octets `0xff` at the end one is enough. -/
theorem signed_append_ffs :
    signed (octets ++ replicate (count + 1) 0xff) = signed (octets ++ [0xff]) := by
  induction count with
  | zero => rfl
  | succ count ih =>
    have split : octets ++ replicate (count + 1 + 1) 0xff =
        octets ++ replicate count 0xff ++ [0xff] ++ [0xff] := by
      rw [replicate_succ', replicate_succ']
      simp
    rw [split, signed_concat_ff (by decide), ← ih, replicate_succ', append_assoc]

end WineRedRose.Library.Octets
