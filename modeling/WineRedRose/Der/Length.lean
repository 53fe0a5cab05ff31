import WineRedRose.Der.Model
import WineRedRose.Library.Octets

/-!
# The header of a DER value

A length field is either one octet below `0x80` or an octet that counts the
octets after it, which hold the number.  The functions that read a header
accept exactly the fields of at most five octets whose number is smaller than
the whole input; they do not compare it with what follows the field.  The
function that writes a header writes the shortest field.
-/

namespace WineRedRose.Der

open Library.Octets Library.Reads List

/-- The octets of a length field and the number written in them. -/
inductive LengthField : List UInt8 → Nat → Prop
  | short (octet : UInt8) (below : octet < 0x80) : LengthField [octet] octet.toNat
  | long (octet : UInt8) (octets : List UInt8)
      (count : octet.toNat = 0x80 + octets.length) (some : octets ≠ []) :
      LengthField (octet :: octets) (unsigned octets.reverse)

/-- The input starts with a tag and a length field that is not too long to be
read; a field of more than one octet is followed by something. -/
structure Header
    (data field contents : List UInt8) (len : Nat) : Prop where
  split : ∃ tag, data = tag :: (field ++ contents)
  written : LengthField field len
  few : field.length ≤ 5
  followed : field.length = 1 ∨ contents ≠ []

variable {field data contents : List UInt8} {len : Nat} {octet : UInt8}

theorem LengthField.length_pos (written : LengthField field len) : 0 < field.length := by
  cases written <;> simp

theorem LengthField.lt (written : LengthField field len) (few : field.length ≤ 5) :
    len < 2 ^ 32 := by
  cases written with
  | short octet below =>
    have small := octet.toNat_lt
    omega
  | long octet octets count some =>
    have four : octets.length ≤ 4 := Nat.le_of_succ_le_succ few
    calc unsigned octets.reverse < 256 ^ octets.length := unsigned_reverse_lt octets
      _ ≤ 256 ^ 4 := Nat.pow_le_pow_right (by norm_num) four
      _ = 2 ^ 32 := by norm_num

theorem Header.length (header : Header data field contents len) :
    data.length = 1 + field.length + contents.length := by
  obtain ⟨tag, rfl⟩ := header.split
  rw [length_cons, length_append]
  omega

/-! ## The number of length octets -/

theorem getLenBytes_long {count : Nat} (counts : octet.toNat = 0x80 + count) (some : 0 < count) :
    getLenBytes octet = 1 + count := by
  have above : ¬ octet ≤ 0x80 := by
    rw [UInt8.le_iff_toNat_le]
    show ¬ octet.toNat ≤ 128
    omega
  have small := octet.toNat_lt
  rw [getLenBytes, if_neg above, UInt8.toNat_and]
  show 1 + (octet.toNat &&& (2 ^ 7 - 1)) = _
  rw [Nat.and_two_pow_sub_one_eq_mod]
  omega

theorem LengthField.getLenBytes {octets : List UInt8}
    (written : LengthField (octet :: octets) len) :
    getLenBytes octet = (octet :: octets).length := by
  cases written with
  | short octet below => exact if_pos (UInt8.le_of_lt below)
  | long octet octets count some =>
    rw [getLenBytes_long count (length_pos_iff.mpr some), length_cons, add_comm]

/-- The second byte tells how long the field is. -/
theorem Header.readAt_one (header : Header data field contents len) :
    ∃ octet, readAt data 1 = (.success octet : Outcome Error UInt8) ∧
      getLenBytes octet = field.length := by
  obtain ⟨tag, rfl⟩ := header.split
  have written := header.written
  cases field with
  | nil => exact absurd written.length_pos (lt_irrefl 0)
  | cons octet octets => exact ⟨octet, rfl, written.getLenBytes⟩

/-! ## Reading a header -/

theorem lengthOctets_eq (front octets rest : List UInt8) (out : Nat)
    (fits : out * 256 ^ octets.length + unsigned octets.reverse < 2 ^ 32) :
    lengthOctets (front ++ octets ++ rest) octets.length front.length out =
      .success (out * 256 ^ octets.length + unsigned octets.reverse) := by
  induction octets generalizing front out with
  | nil =>
    rw [length_nil, lengthOctets, reverse_nil, unsigned_nil]
    simp
  | cons octet octets ih =>
    rw [unsigned_reverse_cons, length_cons, pow_succ] at fits
    have positive : 0 < 256 ^ octets.length := by positivity
    have shifted : out * 256 < 2 ^ 32 := by nlinarith
    have shift : dword (out <<< 8) ||| octet.toNat = out * 256 + octet.toNat := by
      have exactly : dword (out <<< 8) = out <<< 8 := by
        rw [dword, Nat.shiftLeft_eq]
        exact Nat.mod_eq_of_lt shifted
      rw [exactly, ← Nat.shiftLeft_add_eq_or_of_lt octet.toNat_lt, Nat.shiftLeft_eq]
    have next := ih (front ++ [octet]) (out * 256 + octet.toNat) (by nlinarith)
    rw [length_append, length_singleton] at next
    rw [length_cons, lengthOctets, readAt_middle, success_bind, shift,
      append_cons front, next, unsigned_reverse_cons, pow_succ]
    congr 1
    ring

/-- A long field is read if it is neither too long nor cut off. -/
theorem getLengthIndefinite_long {count cbEncoded : Nat} (rest : List UInt8) (tag : UInt8)
    (counts : octet.toNat = 0x80 + count) (positive : 0 < count) :
    getLengthIndefinite (tag :: octet :: rest) cbEncoded =
      if cbEncoded ≤ 1 then .failure .asn1Corrupt
      else if 1 + count > 5 then .failure .asn1Large
      else if 1 + count + 2 > cbEncoded then .failure .asn1Corrupt
      else lengthOctets (tag :: octet :: rest) count 2 0 >>= fun out =>
        if dword (out + 1) > cbEncoded then .failure .asn1Eod else .success out := by
  have high : ¬ octet ≤ 0x7f := by
    rw [le_0x7f_iff, lt_0x80_iff]
    omega
  have notIndefinite : octet ≠ 0x80 := by
    rintro rfl
    have : (128 : Nat) = 0x80 + count := counts
    omega
  have second : readAt (tag :: octet :: rest) 1 = (.success octet : Outcome Error UInt8) := rfl
  rw [getLengthIndefinite, second, success_bind, if_neg high, if_neg notIndefinite,
    getLenBytes_long counts positive]
  dsimp only
  rw [Nat.add_sub_cancel_left]
  rfl

/-- With a header, the number is compared with the size of the whole input. -/
theorem Header.getLengthIndefinite (header : Header data field contents len) :
    getLengthIndefinite data data.length =
      if dword (len + 1) > data.length then .failure .asn1Eod
      else .success len := by
  obtain ⟨tag, rfl⟩ := header.split
  have bound := header.written.lt header.few
  have few := header.few
  have followed := header.followed
  cases header.written with
  | short octet below =>
    have small : dword (octet.toNat + 1) = octet.toNat + 1 :=
      Nat.mod_eq_of_lt (by have := octet.toNat_lt; omega)
    rw [small]
    simp [getLengthIndefinite, readAt, le_0x7f_iff.mpr below]
  | long octet octets count some =>
    have positive : 0 < octets.length := length_pos_iff.mpr some
    have nonempty : 0 < contents.length := by
      rcases followed with one | nonempty
      · rw [length_cons] at one
        omega
      · exact length_pos_iff.mpr nonempty
    rw [length_cons] at few
    have loop := lengthOctets_eq [tag, octet] octets contents 0
      (by rw [zero_mul, zero_add]; exact bound)
    rw [zero_mul, zero_add] at loop
    rw [cons_append, getLengthIndefinite_long _ tag count positive, if_neg (by simp),
      if_neg (by omega), if_neg (by simp; omega)]
    exact (congrArg (· >>= _) loop).trans rfl

/-- Without a header an input is refused or announces no length. -/
theorem getLengthIndefinite_cases (data : List UInt8) :
    (∃ error, getLengthIndefinite data data.length = .failure error) ∨
      getLengthIndefinite data data.length = .success cmsgIndefiniteLength ∨
      ∃ field contents len, Header data field contents len := by
  match data with
  | [] => exact .inl ⟨_, rfl⟩
  | [_] => exact .inl ⟨_, rfl⟩
  | tag :: octet :: rest =>
    by_cases below : octet < 0x80
    · exact .inr (.inr ⟨[octet], rest, octet.toNat, ⟨tag, rfl⟩,
        .short octet below, by simp, .inl rfl⟩)
    by_cases indefinite : octet = 0x80
    · subst indefinite
      exact .inr (.inl rfl)
    obtain ⟨count, counts⟩ : ∃ count, octet.toNat = 0x80 + count :=
      ⟨octet.toNat - 0x80, by rw [lt_0x80_iff] at below; omega⟩
    have positive : 0 < count := by
      rcases Nat.eq_zero_or_pos count with rfl | positive
      · exact absurd (UInt8.toNat_inj.mp counts) indefinite
      · exact positive
    rw [getLengthIndefinite_long rest tag counts positive, if_neg (by simp)]
    by_cases many : 1 + count > 5
    · rw [if_pos many]
      exact .inl ⟨_, rfl⟩
    rw [if_neg many]
    by_cases short : 1 + count + 2 > (tag :: octet :: rest).length
    · rw [if_pos short]
      exact .inl ⟨_, rfl⟩
    have enough : count < rest.length := by
      simp at short
      omega
    have taken : (rest.take count).length = count := length_take_of_le enough.le
    refine .inr (.inr ⟨octet :: rest.take count, rest.drop count,
      unsigned (rest.take count).reverse, ⟨tag, ?_⟩,
      .long octet _ (by rw [taken, counts]) ?_, ?_, .inr ?_⟩)
    · rw [cons_append, take_append_drop]
    · exact length_pos_iff.mp (by rw [taken]; exact positive)
    · rw [length_cons, taken]
      omega
    · exact length_pos_iff.mp (by rw [length_drop]; omega)

/-- A definite length is accepted when it is smaller than the input. -/
theorem getLengthIndefinite_eq_success_iff (small : data.length < 2 ^ 32)
    (definite : len ≠ cmsgIndefiniteLength) : getLengthIndefinite data data.length = .success len ↔
      ∃ field contents, Header data field contents len ∧ len < data.length := by
  constructor
  · intro accepted
    rcases getLengthIndefinite_cases data with
      ⟨error, failed⟩ | indefinite | ⟨field, contents, written, header⟩
    · rw [failed] at accepted
      cases accepted
    · rw [indefinite] at accepted
      cases accepted
      exact absurd rfl definite
    · rw [header.getLengthIndefinite] at accepted
      split_ifs at accepted with less
      obtain rfl : written = len := Outcome.success.inj accepted
      have bound := header.written.lt header.few
      have notTop : written ≠ 0xffffffff := definite
      have exactly : dword (written + 1) = written + 1 := Nat.mod_eq_of_lt (by omega)
      exact ⟨field, contents, header, by omega⟩
  · rintro ⟨field, contents, header, less⟩
    have exactly : dword (len + 1) = len + 1 := Nat.mod_eq_of_lt (by omega)
    rw [header.getLengthIndefinite, exactly, if_neg (by omega)]

theorem getLen_eq_success_iff (small : data.length < 2 ^ 32) :
    getLen data data.length = .success len ↔
      ∃ field contents, Header data field contents len ∧ len < data.length := by
  rw [getLen, bind_eq_success_iff]
  constructor
  · rintro ⟨read, accepted, kept⟩
    split_ifs at kept with indefinite
    cases kept
    exact (getLengthIndefinite_eq_success_iff small indefinite).mp accepted
  · rintro ⟨field, contents, header, less⟩
    have definite : len ≠ cmsgIndefiniteLength := by
      rw [cmsgIndefiniteLength]
      omega
    exact ⟨len, (getLengthIndefinite_eq_success_iff small definite).mpr
      ⟨field, contents, header, less⟩, if_neg definite⟩

theorem getLengthIndefinite_ne_outside (data : List UInt8) :
    getLengthIndefinite data data.length ≠ .outside := by
  rcases getLengthIndefinite_cases data with
    ⟨error, failed⟩ | indefinite | ⟨field, contents, written, header⟩
  · simp [failed]
  · simp [indefinite]
  · rw [header.getLengthIndefinite]
    split_ifs <;> simp

theorem getLen_ne_outside : getLen data data.length ≠ .outside := by
  rw [getLen, Ne, bind_eq_outside_iff]
  rintro (outside | ⟨len, _, outside⟩)
  · exact getLengthIndefinite_ne_outside data outside
  · split_ifs at outside

/-- What a decoder finds at the start of its input. -/
theorem getLen_cases (small : data.length < 2 ^ 32) :
    (∃ error, getLen data data.length = .failure error) ∨
      ∃ field contents len, Header data field contents len ∧ len < data.length ∧
      getLen data data.length = .success len := by
  cases read : getLen data data.length with
  | success len =>
    obtain ⟨field, contents, header, less⟩ := (getLen_eq_success_iff small).mp read
    exact .inr ⟨field, contents, len, header, less, rfl⟩
  | failure error => exact .inl ⟨error, rfl⟩
  | outside => exact absurd read getLen_ne_outside

/-- The number in a length field is determined by the input. -/
theorem Header.unique {field' contents' : List UInt8} {len' : Nat}
    (header : Header data field contents len) (header' : Header data field' contents' len') :
    field = field' ∧ contents = contents' ∧ len = len' := by
  obtain ⟨octet, read, count⟩ := header.readAt_one
  obtain ⟨octet', read', count'⟩ := header'.readAt_one
  rw [read] at read'
  cases read'
  obtain ⟨tag, rfl⟩ := header.split
  obtain ⟨tag', same⟩ := header'.split
  have lengths : field.length = field'.length := count.symm.trans count'
  obtain ⟨rfl, rfl⟩ := append_inj (cons.inj same).2 lengths
  refine ⟨rfl, rfl, ?_⟩
  have written := header.written
  have written' := header'.written
  cases written with
  | short octet below =>
    cases written' with
    | short => rfl
    | long _ _ _ some => exact absurd rfl some
  | long octet octets count some =>
    cases written' with
    | short => exact absurd rfl some
    | long => rfl

/-! ## Writing a length -/

theorem and_topByte {temp : Nat} (small : temp < 2 ^ 32) :
    temp &&& 0xff000000 = 0 ↔ temp < 256 ^ 3 := by
  have shifted : temp &&& 0xff000000 = (temp >>> 24 &&& (2 ^ 8 - 1)) <<< 24 := by
    show temp &&& 255 <<< 24 = _
    apply Nat.eq_of_testBit_eq
    intro position
    simp only [Nat.testBit_and, Nat.testBit_shiftLeft, Nat.testBit_shiftRight]
    by_cases high : position ≥ 24
    · simp [high]
    · simp [high]
  rw [shifted, Nat.and_two_pow_sub_one_eq_mod, Nat.shiftLeft_eq, Nat.shiftRight_eq_div_pow]
  omega

theorem storeLenBytes_eq (significantBytes : Nat) (stored : List UInt8) :
    storeLenBytes significantBytes len stored =
      (octetsOf significantBytes len).reverse ++ stored := by
  induction significantBytes generalizing len stored with
  | zero => rfl
  | succ significantBytes ih =>
    have low : len &&& 0xff = len % 256 := Nat.and_two_pow_sub_one_eq_mod len 8
    rw [storeLenBytes, ih, low, Nat.shiftRight_eq_div_pow, octetsOf, reverse_cons, append_assoc]
    rfl

/-- The loop finds how many octets the length needs. -/
theorem significantLenBytes_spec {count : Nat} (few : count ≤ 4) (positive : 0 < len)
    (fits : len < 256 ^ count) : ∃ needed, significantLenBytes (len * 256 ^ (4 - count)) count =
      needed + 1 ∧ needed < count ∧ 256 ^ needed ≤ len ∧ len < 256 ^ (needed + 1) := by
  induction count with
  | zero => omega
  | succ count ih =>
    have split : 256 ^ count * 256 ^ (4 - (count + 1)) = 256 ^ 3 := by
      rw [← pow_add]
      congr 1
      omega
    have positiveShift : 0 < 256 ^ (4 - (count + 1)) := by positivity
    have inWord : len * 256 ^ (4 - (count + 1)) < 2 ^ 32 := by
      rw [pow_succ] at fits
      nlinarith
    rw [significantLenBytes]
    by_cases fewer : len < 256 ^ count
    · have less : len * 256 ^ (4 - (count + 1)) < 256 ^ 3 := by nlinarith
      have shifted : dword ((len * 256 ^ (4 - (count + 1))) <<< 8) = len * 256 ^ (4 - count) := by
        have next : 4 - count = 4 - (count + 1) + 1 := by omega
        rw [Nat.shiftLeft_eq, dword, Nat.mod_eq_of_lt (by omega), next, pow_succ 256, mul_assoc]
      rw [if_pos ((and_topByte inWord).mpr less), shifted]
      obtain ⟨needed, found, below, bounds⟩ := ih (by omega) fewer
      exact ⟨needed, found, by omega, bounds⟩
    · have notLess : ¬ len * 256 ^ (4 - (count + 1)) < 256 ^ 3 := by nlinarith
      rw [if_neg (mt (and_topByte inWord).mp notLess)]
      exact ⟨count, rfl, by omega, by omega, fits⟩

/-- What is written is the shortest field for the length. -/
structure IsShortestField (field : List UInt8) (len : Nat) : Prop where
  written : LengthField field len
  few : field.length ≤ 5
  shortest : ∀ field', LengthField field' len → field.length ≤ field'.length

theorem encodeLen_spec (small : len < 2 ^ 32) : ∃ field, IsShortestField field len ∧
      encodeLen len none = .success (field.length, []) ∧ ∀ available, field.length ≤ available →
      encodeLen len (some available) = .success (field.length, field) := by
  by_cases low : len ≤ 0x7f
  · have value : (UInt8.ofNat len).toNat = len := by
      rw [UInt8.toNat_ofNat']
      omega
    refine ⟨[UInt8.ofNat len], ⟨?_, by simp, fun _ other => other.length_pos⟩, ?_, ?_⟩
    · have short := LengthField.short (UInt8.ofNat len) (lt_0x80_iff.mpr (by omega))
      rwa [value] at short
    · simp [encodeLen, encodeLenBytesNeeded, low]
    · intro available enough
      have positive : ¬ available < 1 := not_lt.mpr enough
      simp [encodeLen, encodeLenBytesNeeded, low, positive]
  · obtain ⟨needed, found, below, least, fits⟩ :=
      significantLenBytes_spec (le_refl 4) (by omega : 0 < len) (by omega)
    rw [Nat.sub_self, pow_zero, mul_one] at found
    have first : (UInt8.ofNat (needed + 1 ||| 0x80)).toNat = 0x80 + (needed + 1) := by
      interval_cases needed <;> rfl
    have stored : storeLenBytes (needed + 1) len [] = (octetsOf (needed + 1) len).reverse := by
      rw [storeLenBytes_eq, append_nil]
    refine ⟨UInt8.ofNat (needed + 1 ||| 0x80) ::
      (octetsOf (needed + 1) len).reverse, ⟨?_, ?_, ?_⟩, ?_, ?_⟩
    · have long := LengthField.long (UInt8.ofNat (needed + 1 ||| 0x80))
        (octetsOf (needed + 1) len).reverse
        (by rw [first, length_reverse, octetsOf_length])
        (length_pos_iff.mp (by simp))
      rwa [reverse_reverse, unsigned_octetsOf fits] at long
    · simp
      omega
    · intro field' other
      cases other with
      | short octet short =>
        have := lt_0x80_iff.mp short
        omega
      | long octet octets count some =>
        have fewer : needed < octets.length :=
          (Nat.pow_lt_pow_iff_right (by norm_num)).mp (least.trans_lt (unsigned_reverse_lt octets))
        simp
        omega
    · simp [encodeLen, encodeLenBytesNeeded, low, found]
    · intro available enough
      have notLess : ¬ available < needed + 1 + 1 := by simpa using enough
      simp [encodeLen, encodeLenBytesNeeded, low, found, stored, notLess]

end WineRedRose.Der
