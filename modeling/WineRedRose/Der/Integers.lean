import Mathlib.Data.Nat.Bitwise
import WineRedRose.Der.Sizes

/-!
# Integers are encoded in the shortest way and decoded again

An encoder of integers lops off the sign bytes of a little-endian blob and puts
one back when the rest would read as a number of the other sign.  Unless the
blob consists of `0xff` bytes only, the contents found this way are the
shortest with the value of the blob, and the decoders give the value back.
-/

namespace WineRedRose.Der

open Library.Octets Library.Reads List UInt8 Option

/-! ## Contents of an integer -/

/-- The contents, lowest byte first, from what the encoder keeps and adds. -/
def significant (pbData : List UInt8) (significantBytes : Nat) (pad : Option UInt8) : List UInt8 :=
  pbData.take significantBytes ++ pad.toList

variable {kept rest field contents : List UInt8}

theorem lopOff_append (octet : UInt8) (kept : List UInt8) (count : Nat) (rest : List UInt8)
    (stops : ∀ front last, kept = front ++ [last] → last ≠ octet) :
    lopOff (kept ++ replicate count octet ++ rest) octet (kept.length + count) =
      .success kept.length := by
  induction count generalizing rest with
  | zero =>
    rcases eq_nil_or_concat kept with rfl | ⟨front, last, rfl⟩
    · rfl
    · rw [concat_eq_append] at stops ⊢
      have top : readAt (front ++ [last] ++ replicate 0 octet ++ rest)
          front.length = (.success last : Outcome Error UInt8) := by
        rw [replicate_zero, append_nil]
        exact readAt_middle front last [] rest
      rw [length_append, length_singleton]
      rw [lopOff, top, success_bind, if_neg (stops front last rfl), pure_eq_success]
  | succ count ih =>
    have same : kept ++ replicate (count + 1) octet ++ rest =
        kept ++ replicate count octet ++ octet :: rest := by
      rw [replicate_succ']
      simp
    have top : readAt (kept ++ replicate count octet ++ octet :: rest)
        (kept.length + count) = (.success octet : Outcome Error UInt8) := by
      apply readAt_of_some
      simp
    rw [same, ← add_assoc, lopOff, top, success_bind, if_pos rfl, ih]

theorem lopOff_trailing (octet : UInt8) (kept : List UInt8) (count : Nat)
    (stops : ∀ front last, kept = front ++ [last] → last ≠ octet) :
    lopOff (kept ++ replicate count octet) octet (kept ++ replicate count octet).length =
      .success kept.length := by
  rw [length_append, length_replicate]
  simpa using lopOff_append octet kept count [] stops

/-- The byte below those that are lopped off. -/
theorem topByte_append (front : List UInt8) (last : UInt8) :
    topByte (front ++ [last] ++ rest) (front.length + 1) = .success last := by
  rw [topByte, dwordPred, if_neg (Nat.succ_ne_zero _), Nat.add_sub_cancel]
  exact readAt_middle front last [] rest

/-- What an encoder of a number finds: some bytes are kept, and with the byte
added they are the shortest contents with the value. -/
def FindsContents (pbData : List UInt8) (found : Outcome Error (Nat × Option UInt8))
    (value : Int) : Prop :=
  ∃ significantBytes pad, found = .success (significantBytes, pad) ∧
    0 < significantBytes ∧ significantBytes ≤ pbData.length ∧
    signed (significant pbData significantBytes pad) = value ∧
    Tight (significant pbData significantBytes pad)

theorem significant_append (pad : Option UInt8) :
    significant (kept ++ rest) kept.length pad = kept ++ pad.toList := by
  rw [significant, take_left]

theorem not_lt_0x80_iff {octet : UInt8} : octet > 0x7f ↔ ¬ octet < 0x80 := by
  rw [← le_0x7f_iff, UInt8.not_le]

variable {pbData : List UInt8}

theorem positiveBytes_spec (nonempty : pbData ≠ []) :
    FindsContents pbData (positiveBytes pbData pbData.length) (unsigned pbData) := by
  obtain ⟨kept, count, rfl, stops⟩ := exists_trailing 0 pbData
  have lopped := lopOff_trailing 0 kept count stops
  rcases eq_nil_or_concat kept with rfl | ⟨front, last, rfl⟩
  · rw [nil_append] at *
    obtain ⟨count, rfl⟩ : ∃ more, count = more + 1 :=
      Nat.exists_eq_succ_of_ne_zero fun zero => nonempty (by rw [zero]; rfl)
    refine ⟨1, none, ?_, Nat.one_pos, by simp, ?_, ?_⟩
    · rw [positiveBytes, lopped]
      rfl
    · rw [unsigned_replicate_zero]
      rfl
    · exact tight_singleton
  · rw [concat_eq_append] at *
    have notZero : last ≠ 0 := stops front last rfl
    have kept : (front ++ [last]).length = front.length + 1 := by simp
    have found : positiveBytes (front ++ [last] ++ replicate count 0)
        (front ++ [last] ++ replicate count 0).length = .success ((front ++ [last]).length,
            if last > 0x7f then some 0 else none) := by
      rw [positiveBytes, lopped, success_bind, kept]
      dsimp only
      rw [if_neg (Nat.succ_ne_zero _), topByte_append, success_bind, pure_eq_success]
    refine ⟨_, _, found, by simp, by simp, ?_, ?_⟩
    · rw [significant_append, unsigned_append_zeros]
      split_ifs with high
      · exact signed_zero
      · rw [toList_none, append_nil]
        exact signed_eq_unsigned front (not_not.mp (mt not_lt_0x80_iff.mpr high))
    · rw [significant_append]
      split_ifs with high
      · exact tight_concat front (fun zero => not_lt_0x80_iff.mp high zero.2)
          (fun full => absurd full.1 (by decide))
      · rw [toList_none, append_nil]
        refine tight_of_last front notZero ?_
        rintro rfl
        exact high (by decide)

variable {front : List UInt8} {valueOf : List UInt8 → Int}

/-- A negative blob that is not made of `0xff` bytes only. -/
theorem negativeBytes_spec {top : UInt8} (ends : pbData = front ++ [top]) (negative : ¬ top < 0x80)
    (notFull : ∃ octet ∈ pbData, octet ≠ 0xff) :
    FindsContents pbData (negativeBytes pbData pbData.length) (signed pbData) := by
  obtain ⟨kept, count, rfl, stops⟩ := exists_trailing 0xff pbData
  have lopped := lopOff_trailing 0xff kept count stops
  rcases eq_nil_or_concat kept with rfl | ⟨front, last, rfl⟩
  · obtain ⟨octet, member, different⟩ := notFull
    rw [nil_append, mem_replicate] at member
    exact absurd member.2 different
  · rw [concat_eq_append] at *
    have notFull : last ≠ 0xff := stops front last rfl
    have kept : (front ++ [last]).length = front.length + 1 := by simp
    have found : negativeBytes (front ++ [last] ++ replicate count 0xff)
        (front ++ [last] ++ replicate count 0xff).length =
          .success ((front ++ [last]).length, if last < 0x80 then some 0xff else none) := by
      rw [negativeBytes, lopped, success_bind, kept, topByte_append, success_bind, pure_eq_success]
    -- without a byte to lop off, the last one carries the sign
    have sign : count = 0 → ¬ last < 0x80 := by
      rintro rfl
      rw [replicate_zero, append_nil] at ends
      cases (append_inj' ends rfl).2
      exact negative
    refine ⟨_, _, found, by simp, by simp, ?_, ?_⟩
    · rw [significant_append]
      cases count with
      | zero =>
        rw [if_neg (sign rfl)]
        rfl
      | succ count =>
        rw [signed_append_ffs]
        split_ifs with low
        · rfl
        · rw [toList_none, append_nil, signed_concat_ff low]
    · rw [significant_append]
      split_ifs with low
      · exact tight_concat front (fun zero => absurd zero.1 (by decide)) (fun full => full.2 low)
      · rw [toList_none, append_nil]
        refine tight_of_last front ?_ notFull
        rintro rfl
        exact low (by decide)

/-- For a blob of `0xff` bytes the byte looked at lies before the blob. -/
theorem negativeBytes_full (small : pbData.length < 2 ^ 32)
    (full : ∀ octet ∈ pbData, octet = 0xff) :
    negativeBytes pbData pbData.length = .outside := by
  obtain ⟨count, rfl⟩ : ∃ count, pbData = replicate count 0xff := ⟨_, eq_replicate_of_mem full⟩
  have lopped := lopOff_trailing 0xff [] count (by simp)
  rw [nil_append] at lopped
  have beyond : (replicate count (0xff : UInt8)).length ≤ dwordPred 0 := by
    show _ ≤ 0xffffffff
    omega
  rw [negativeBytes, lopped, success_bind, length_nil, topByte, readAt_of_le beyond, outside_bind]

/-! ## Encodings -/

/-- The bytes are an integer of that value, in any form that can be read. -/
def IsInteger (bytes : List UInt8) (value : Int) : Prop :=
  ∃ field contents, bytes = asnInteger :: (field ++ contents) ∧
    LengthField field contents.length ∧ contents ≠ [] ∧
    signed contents.reverse = value

structure IsShortestInteger (bytes : List UInt8) (value : Int) : Prop where
  integer : IsInteger bytes value
  shortest : ∀ bytes', IsInteger bytes' value → bytes.length ≤ bytes'.length

/-- An integer with these contents, lowest byte first. -/
abbrev integer (field contents : List UInt8) : List UInt8 :=
  asnInteger :: (field ++ contents.reverse)

/-- A length field for more contents is not shorter. -/
theorem IsShortestField.length_le {field' : List UInt8} {len len' : Nat}
    (shortest : IsShortestField field len) (written : LengthField field' len') (less : len ≤ len') :
    field.length ≤ field'.length := by
  cases written with
  | short octet below =>
    have low : (UInt8.ofNat len).toNat = len := by
      rw [toNat_ofNat']
      have := octet.toNat_lt
      omega
    have short := LengthField.short (UInt8.ofNat len)
      (lt_0x80_iff.mpr (by rw [lt_0x80_iff] at below; omega))
    rw [low] at short
    simpa using shortest.shortest _ short
  | long octet octets count some =>
    have bound := unsigned_reverse_lt octets
    have long := LengthField.long octet (octetsOf octets.length len).reverse
      (by rw [count, length_reverse, octetsOf_length])
      (length_pos_iff.mp (by
        rw [length_reverse, octetsOf_length]
        exact length_pos_iff.mpr some))
    rw [reverse_reverse, unsigned_octetsOf (less.trans_lt bound)] at long
    simpa using shortest.shortest _ long

/-- Tight contents behind the shortest length field are the shortest. -/
theorem isShortestInteger_of_tight (nonempty : contents ≠ []) (tight : Tight contents)
    (shortest : IsShortestField field contents.length) :
    IsShortestInteger (integer field contents) (signed contents) := by
  refine ⟨⟨field, contents.reverse, rfl, ?_, ?_, ?_⟩, ?_⟩
  · rw [length_reverse]
    exact shortest.written
  · simpa using nonempty
  · rw [reverse_reverse]
  · rintro _ ⟨field', contents', rfl, written, nonempty', same⟩
    have fewer := tight.le_length (by simpa using nonempty') same
    rw [length_reverse] at fewer
    have short := shortest.length_le written fewer
    simp
    omega

/-- The encoder from the significant bytes on. -/
theorem encodeSignificant_spec {significantBytes : Nat} {pad : Option UInt8}
    (bounded : significantBytes ≤ pbData.length)
    (found : significant pbData significantBytes pad = contents) :
    ∃ field, IsShortestField field (dword contents.length) ∧
      ∀ dwFlags, encodeSignificant pbData significantBytes pad dwFlags none =
      .success (dword (1 + field.length + contents.length), []) ∧
      ∀ available, allocFlag dwFlags = true ∨
      dword (1 + field.length + contents.length) ≤ available →
      encodeSignificant pbData significantBytes pad dwFlags (some available) =
      .success (dword (1 + field.length + contents.length), integer field contents) := by
  have count : significantBytes + pad.toList.length = contents.length := by
    rw [← found, significant, length_append, length_take_of_le bounded]
  have copied : copyReversed pbData 0 significantBytes =
      .success (pbData.take significantBytes).reverse := by
    have copied := copyReversed_append [] (pbData.take significantBytes)
      (pbData.drop significantBytes)
    rwa [nil_append, take_append_drop, length_nil, length_take_of_le bounded] at copied
  have reversed : contents.reverse = pad.toList ++ (pbData.take significantBytes).reverse := by
    rw [← found, significant, reverse_append]
    cases pad <;> rfl
  obtain ⟨field, shortest, sized, encoded⟩ :=
    encodeLen_spec (Nat.mod_lt contents.length (by norm_num))
  refine ⟨field, shortest, fun dwFlags => ⟨?_, ?_⟩⟩
  · rw [encodeSignificant, count, dword]
    dsimp only
    rw [sized, success_bind, add_assoc, count]
    rfl
  · intro available enough
    have space : encodeEnsureSpace dwFlags available
        (dword (1 + field.length + contents.length)) = .success () := by
      rw [encodeEnsureSpace]
      rcases enough with allocated | enough
      · rw [if_pos allocated]
        rfl
      · rw [if_neg (not_lt.mpr enough), ite_self]
        rfl
    rw [encodeSignificant, count, dword]
    dsimp only
    rw [sized, success_bind, add_assoc, count]
    rw [space, success_bind, encoded _ (le_refl _), success_bind, copied, success_bind, integer,
      reversed]
    simp

/-! ## Decoding -/

/-- Called for the size and then with a structure of that size, a decoder
stores a blob inside of the structure that has the value. -/
def DecodesTo (decode : Option Nat → Outcome Error (Decoded Blob))
    (valueOf : List UInt8 → Int) (value : Int) : Prop :=
  ∃ sized filled blob, decode none = .success sized ∧
    decode (some sized.pcbStructInfo) = .success filled ∧
    filled.structInfo = some blob ∧
    Blob.Within sizeofBlob blob sized.pcbStructInfo ∧
    blob.data.length = blob.cbData ∧ valueOf blob.data = value

theorem DecodesTo.sizeEnough {decode : Option Nat → Outcome Error (Decoded Blob)} {value : Int}
    (decodes : DecodesTo decode valueOf value) :
    SizeEnough (Blob.Within sizeofBlob) decode := by
  obtain ⟨sized, filled, blob, reported, success, stored, within, -⟩ := decodes
  intro sized' reported'
  obtain rfl := Outcome.success.inj (reported.symm.trans reported')
  exact ⟨filled, blob, success, stored, within⟩

/-- The contents are found behind the tag and the length field. -/
theorem integer_split (field contents : List UInt8) :
    integer field contents = (asnInteger :: field) ++ contents.reverse ++ [] := by
  simp

theorem length_tag_cons : (asnInteger :: field).length = 1 + field.length := Nat.add_comm _ _

/-- Without a leading zero byte the number is the same. -/
theorem unsigned_stripped (body : List UInt8) :
    unsigned (if body.head? == some 0 then body.tail else body).reverse =
      unsigned body.reverse := by
  split_ifs with zero
  · cases body with
    | nil => rfl
    | cons octet body =>
      obtain rfl : octet = 0 := by simpa using zero
      rw [tail_cons, unsigned_reverse_cons]
      simp
  · rfl

section

variable (shortest : IsShortestField field contents.length)
include shortest

theorem IsShortestField.integerHeader :
    Header (integer field contents) field contents.reverse contents.length := by
  have reversed : IsShortestField field contents.reverse.length := by rwa [length_reverse]
  have header := reversed.header asnInteger
  rwa [length_reverse] at header

theorem IsShortestField.integer_length :
    (integer field contents).length = 1 + field.length + contents.length := by
  rw [shortest.integerHeader.length, length_reverse]

theorem IsShortestField.getLen_integer (small : contents.length + 16 < 2 ^ 32) :
    getLen (integer field contents) (integer field contents).length = .success contents.length := by
  have total := shortest.integer_length
  have few := shortest.few
  exact (getLen_eq_success_iff (by omega)).mpr
    ⟨field, contents.reverse, shortest.integerHeader, by omega⟩

/-- A decoder that fills the structure inside of it, and with the value. -/
theorem IsShortestField.decodesTo {next : Option Room → (lenBytes dataLen : Nat) →
      Outcome Error (Decoded Blob)} {value : Int} {sized : Decoded Blob}
    (small : contents.length + 16 < 2 ^ 32) (dwFlags : UInt32)
    (reported : next none field.length contents.length = .success sized)
    (fills : FillsWithin (Blob.Within sizeofBlob) sized.pcbStructInfo
      (next (some ⟨sized.pcbStructInfo, sizeofBlob⟩) field.length contents.length))
    (stores : ∀ filled blob, next (some ⟨sized.pcbStructInfo, sizeofBlob⟩) field.length
      contents.length = .success filled → filled.structInfo = some blob →
        blob.data.length = blob.cbData ∧ valueOf blob.data = value) :
    DecodesTo (decodeTwice sizeofBlob (fun pvStructInfo =>
          withLength (integer field contents) (integer field contents).length
            (next pvStructInfo)) dwFlags)
      valueOf value := by
  have opened := fun room => withLength_of_header shortest.integerHeader
    (shortest.getLen_integer small) (next room)
  rw [← opened] at reported
  obtain ⟨filled, blob, success, stored, within⟩ := fills
  refine ⟨sized, filled, blob, decodeTwice_none reported, ?_, stored, within,
    stores filled blob success stored⟩
  rw [decodeTwice_again reported, opened, success]

theorem asnDecodeInteger_decodesTo (small : contents.length + 16 < 2 ^ 32) (dwFlags : UInt32) :
    DecodesTo (asnDecodeInteger (integer field contents) (integer field contents).length dwFlags)
      signed (signed contents) := by
  refine shortest.decodesTo small dwFlags rfl
    ((integerContents_within_iff shortest.integerHeader).mpr ⟨length_reverse.ge, small⟩) ?_
  intro filled blob success stored
  rw [integerContents] at success
  dsimp only at success
  rw [decodeCheckSpace_self, success_bind, ← length_tag_cons, ← @length_reverse _ contents,
    integer_split, copyReversed_append, success_bind, reverse_reverse] at success
  cases success
  cases stored
  exact ⟨length_reverse.symm, rfl⟩

theorem asnDecodeUnsignedInteger_decodesTo (small : contents.length + 16 < 2 ^ 32)
    (dwFlags : UInt32) :
    DecodesTo (asnDecodeUnsignedInteger (integer field contents)
        (integer field contents).length dwFlags)
      (fun data => unsigned data) (unsigned contents) := by
  have value := unsigned_stripped contents.reverse
  refine shortest.decodesTo small dwFlags rfl
    ((unsignedIntegerContents_within_iff shortest.integerHeader).mpr ⟨length_reverse.ge, small⟩) ?_
  intro filled blob success stored
  rw [unsignedIntegerContents] at success
  dsimp only at success
  rw [decodeCheckSpace_self, success_bind, ← length_tag_cons, ← @length_reverse _ contents,
    integer_split, leadingZero_append, success_bind, copyReversed_stripped, success_bind] at success
  cases success
  cases stored
  rw [reverse_reverse] at value
  exact ⟨length_stripped contents.reverse, congrArg Nat.cast value⟩

end

/-! ### Numbers of 32 bits -/

theorem pushByte_toNat (val : UInt32) (octet : UInt8) :
    (pushByte val octet).toNat = (val.toNat * 256 + octet.toNat) % 2 ^ 32 := by
  have small := octet.toNat_lt
  have shifted : val.toNat <<< 8 % 2 ^ 32 = (val.toNat % 2 ^ 24) <<< 8 := by
    rw [Nat.shiftLeft_eq, Nat.shiftLeft_eq]
    omega
  rw [pushByte, UInt32.toNat_or, UInt32.toNat_shiftLeft, toNat_toUInt32]
  show val.toNat <<< 8 % 2 ^ 32 ||| octet.toNat = _
  rw [shifted, ← Nat.shiftLeft_add_eq_or_of_lt small, Nat.shiftLeft_eq]
  omega

theorem foldl_pushByte_toNat (body : List UInt8) (val : UInt32) : (body.foldl pushByte val).toNat =
      (val.toNat * 256 ^ body.length + unsigned body.reverse) % 2 ^ 32 := by
  induction body generalizing val with
  | nil => simp
  | cons octet body ih =>
    rw [foldl_cons, ih, pushByte_toNat, unsigned_reverse_cons,
      length_cons, pow_succ, Nat.add_mod, Nat.mod_mul_mod, ← Nat.add_mod]
    congr 1
    ring

/-- The number of a negative list is the unsigned one less a power. -/
theorem signed_eq_unsigned_sub (front : List UInt8) {last : UInt8} (negative : ¬ last < 0x80) :
    signed (front ++ [last]) = unsigned (front ++ [last]) - 256 ^ (front ++ [last]).length := by
  rw [signed_concat, unsigned_append, topValue_of_ge negative,
    length_append, length_singleton, pow_succ, unsigned_cons,
    unsigned_nil]
  push_cast
  ring

theorem and_0x80_eq_zero_iff (octet : UInt8) : octet &&& 0x80 = 0 ↔ octet < 0x80 := by
  have small := octet.toNat_lt
  rw [← UInt8.toNat_inj, UInt8.toNat_and, lt_0x80_iff]
  show octet.toNat &&& 2 ^ 7 = 0 ↔ _
  rw [Nat.and_two_pow, Nat.testBit_eq_decide_div_mod_eq]
  by_cases low : octet.toNat < 128
  · have even : octet.toNat / 128 % 2 = 0 := by omega
    simp [even, low]
  · have odd : octet.toNat / 128 % 2 = 1 := by omega
    simp [odd, low]

/-- Shifting in the contents from the fill on gives the number. -/
theorem shifted_value (nonempty : contents ≠ []) (few : contents.length ≤ 4) :
    (contents.reverse.foldl pushByte (signFillOf contents.reverse)).toInt32.toInt =
      signed contents := by
  obtain ⟨front, last, rfl⟩ := (eq_nil_or_concat contents).resolve_left nonempty
  rw [concat_eq_append] at *
  have range := signed_range (front ++ [last])
  have power : (256 : Int) ^ (front ++ [last]).length ≤ 2 ^ 32 := by
    have natural : 256 ^ (front ++ [last]).length ≤ 256 ^ 4 :=
      Nat.pow_le_pow_right (by norm_num) few
    exact_mod_cast natural
  have total := foldl_pushByte_toNat (front ++ [last]).reverse
    (signFillOf (front ++ [last]).reverse)
  rw [reverse_reverse, length_reverse] at total
  have residue : (((front ++ [last]).reverse.foldl pushByte
        (signFillOf (front ++ [last]).reverse)).toNat : Int) =
          signed (front ++ [last]) % 2 ^ 32 := by
    rw [total]
    push_cast
    by_cases positive : last < 0x80
    · have fill : signFillOf (front ++ [last]).reverse = 0 := by
        simp [signFillOf, (and_0x80_eq_zero_iff last).mpr positive]
      rw [fill, signed_eq_unsigned front positive]
      simp
    · have fill : signFillOf (front ++ [last]).reverse = 0xffffffff := by
        simp [signFillOf, mt (and_0x80_eq_zero_iff last).mp positive]
      have full : ((0xffffffff : UInt32).toNat : Int) = 2 ^ 32 - 1 := rfl
      rw [fill, full, signed_eq_unsigned_sub front positive]
      symm
      rw [← Int.add_mul_emod_self_left _ 4294967296 (256 ^ (front ++ [last]).length)]
      congr 1
      ring
  show BitVec.toInt _ = _
  rw [BitVec.toInt_eq_toNat_bmod]
  show Int.bmod ((foldl pushByte _ _).toNat : Int) (2 ^ 32) = _
  rw [residue]
  show Int.bmod (signed (front ++ [last]) % ((2 ^ 32 : Nat) : Int)) (2 ^ 32) = _
  rw [Int.emod_bmod]
  exact Int.bmod_eq_of_le (by norm_num; omega) (by norm_num; omega)

/-- A number of 32 bits is decoded as one. -/
theorem asnDecodeInt_eq (shortest : IsShortestField field contents.length)
    (nonempty : contents ≠ []) (few : contents.length ≤ 4) (dwFlags : UInt32) :
    ∃ filled val, asnDecodeInt (integer field contents)
          (integer field contents).length dwFlags (some 4) = .success filled ∧
        filled.structInfo = some val ∧ val.toInt = signed contents := by
  have small : contents.length + 16 < 2 ^ 32 := by omega
  have notMore : ¬ contents.length > 4 := not_lt.mpr few
  have opened : ∀ pvStructInfo, asnDecodeIntInternal (integer field contents)
          (integer field contents).length pvStructInfo =
        intContents (integer field contents) pvStructInfo
          field.length contents.length := fun pvStructInfo =>
    withLength_of_header shortest.integerHeader (shortest.getLen_integer small) _
  have fill := signFill_append (asnInteger :: field) contents.reverse []
  have shifted := shiftIn_append (asnInteger :: field) contents.reverse []
    (signFillOf contents.reverse)
  rw [← integer_split, length_tag_cons, length_reverse] at fill shifted
  have sized : _ = Outcome.success _ := (opened none).trans (if_neg notMore)
  have filled := (opened (some ⟨4, 4⟩)).trans (if_neg notMore)
  dsimp only at filled
  rw [decodeCheckSpace_self, success_bind, fill, success_bind, shifted, success_bind] at filled
  exact ⟨_, _, (decodeTwice_again sized).trans filled, rfl, shifted_value nonempty few⟩

/-! ## Round trips -/

/-- The bytes that an encoder writes, in the size it reports, are the shortest
integer with the value, and the decoders give the value back. -/
structure RoundTrip
    (encode : UInt32 → Option Nat → Outcome Error (Nat × List UInt8))
    (decode : List UInt8 → UInt32 → Option Nat → Outcome Error (Decoded Blob))
    (valueOf : List UInt8 → Int) (value : Int) (bytes : List UInt8) : Prop where
  sized : ∀ dwFlags, encode dwFlags none = .success (bytes.length, [])
  written : ∀ dwFlags available, allocFlag dwFlags = true ∨ bytes.length ≤ available →
      encode dwFlags (some available) = .success (bytes.length, bytes)
  shortest : IsShortestInteger bytes value
  decoded : ∀ dwFlags, DecodesTo (decode bytes dwFlags) valueOf value
  decodedInt : -2 ^ 31 ≤ value → value < 2 ^ 31 → ∀ dwFlags, ∃ filled val,
    asnDecodeInt bytes bytes.length dwFlags (some 4) = .success filled ∧
      filled.structInfo = some val ∧ val.toInt = value

/-- The value fits into contents whose decoded size does not wrap. -/
def ShortEnough (value : Int) : Prop := ∃ contents, contents ≠ [] ∧ signed contents = value ∧
    contents.length + 16 < 2 ^ 32

theorem exists_roundTrip_iff {encode : UInt32 → Option Nat → Outcome Error (Nat × List UInt8)}
    {decode : List UInt8 → UInt32 → Option Nat → Outcome Error (Decoded Blob)} {value : Int}
    {found : Outcome Error (Nat × Option UInt8)} (finds : FindsContents pbData found value)
    (encodes : ∀ significantBytes pad, found = .success (significantBytes, pad) →
      encode = encodeSignificant pbData significantBytes pad)
    (decodes : ∀ field contents, IsShortestField field contents.length →
      contents.length + 16 < 2 ^ 32 → signed contents = value → ∀ dwFlags,
        DecodesTo (decode (integer field contents) dwFlags) valueOf value)
    (fits : ∀ bytes : List UInt8, bytes.length < 2 ^ 32 →
      SizeEnough (Blob.Within sizeofBlob) (decode bytes 0) → IntegerFits bytes) :
    (∃ bytes, RoundTrip encode decode valueOf value bytes) ↔ ShortEnough value := by
  obtain ⟨significantBytes, pad, success, positive, bounded, same, tight⟩ := finds
  have encodes := encodes significantBytes pad success
  generalize contents_eq : significant pbData significantBytes pad = contents at same tight
  have nonempty : contents ≠ [] := by
    rw [← contents_eq, significant]
    intro nil
    have lengths := congrArg length nil
    rw [length_append, length_take_of_le bounded, length_nil] at lengths
    omega
  obtain ⟨field, shortest, spec⟩ := encodeSignificant_spec bounded contents_eq
  constructor
  · rintro ⟨bytes, trip⟩
    have reported := trip.sized 0
    have stored := trip.written 0 bytes.length (.inr (le_refl _))
    rw [encodes, (spec 0).1] at reported
    have size := (Prod.mk.inj (Outcome.success.inj reported)).1
    rw [encodes, (spec 0).2 _ (.inr size.le)] at stored
    obtain rfl := (Prod.mk.inj (Outcome.success.inj stored)).2
    have total : (integer field contents).length = 1 + field.length + contents.length := by
      simp
      omega
    have word : dword (1 + field.length + contents.length) < 2 ^ 32 := Nat.mod_lt _ (by norm_num)
    have exactly : dword contents.length = contents.length := Nat.mod_eq_of_lt (by omega)
    rw [exactly] at shortest
    have integerFits := fits _ (by omega) (trip.decoded 0).sizeEnough
    have small := (integerFits rfl field contents.reverse contents.length
      shortest.integerHeader (by omega)).2
    exact ⟨contents, nonempty, same, small⟩
  · rintro ⟨contents', nonempty', same', small'⟩
    have fewer := tight.le_length nonempty' (same'.trans same.symm)
    have exactly : dword contents.length = contents.length := Nat.mod_eq_of_lt (by omega)
    rw [exactly] at shortest
    have total := shortest.integer_length
    have few := shortest.few
    have word : dword (1 + field.length + contents.length) = (integer field contents).length := by
      rw [total]
      exact Nat.mod_eq_of_lt (by omega)
    refine ⟨integer field contents, ?_, ?_, ?_, decodes field contents shortest (by omega) same, ?_⟩
    · intro dwFlags
      rw [encodes, (spec dwFlags).1, word]
    · intro dwFlags available enough
      rw [← word] at enough ⊢
      rw [encodes, (spec dwFlags).2 available enough]
    · rw [← same]
      exact isShortestInteger_of_tight nonempty tight shortest
    · intro low high dwFlags
      have fewBytes : contents.length ≤ 4 :=
        tight.length_le (by norm_num) (by rw [same]; norm_num; omega)
          (by rw [same]; norm_num; omega)
      rw [← same]
      exact asnDecodeInt_eq shortest nonempty fewBytes dwFlags

/-- Contents whose number is not negative read the same without a sign. -/
theorem signed_eq_unsigned_of_nonneg (positive : 0 ≤ signed contents) :
    signed contents = unsigned contents := by
  rcases eq_nil_or_concat contents with rfl | ⟨front, last, rfl⟩
  · rfl
  · rw [concat_eq_append] at *
    by_cases low : last < 0x80
    · exact signed_eq_unsigned front low
    · have bound : (unsigned (front ++ [last]) : Int) < 256 ^ (front ++ [last]).length := by
        exact_mod_cast unsigned_lt _
      rw [signed_eq_unsigned_sub front low] at positive
      omega

variable {pcbEncoded : Option Nat}

/-- The encoder looks at the last byte first. -/
theorem asnEncodeInteger_concat {top : UInt8} (ends : pbData = front ++ [top]) (dwFlags : UInt32) :
    asnEncodeInteger pbData pbData.length dwFlags pcbEncoded =
      signedBytes pbData pbData.length top >>= fun found =>
        encodeSignificant pbData found.1 found.2 dwFlags pcbEncoded := by
  have last : readAt pbData (pbData.length - 1) = (.success top : Outcome Error UInt8) := by
    rw [ends, length_append, length_singleton, Nat.add_sub_cancel]
    exact readAt_append front top []
  have nonempty : ¬ pbData.length = 0 := by
    rw [ends]
    simp
  rw [asnEncodeInteger, if_neg nonempty, last, success_bind]

theorem asnEncodeInteger_full (nonempty : pbData ≠ []) (small : pbData.length < 2 ^ 32)
    (full : ∀ octet ∈ pbData, octet = 0xff) (dwFlags : UInt32) :
    asnEncodeInteger pbData pbData.length dwFlags pcbEncoded = .outside := by
  obtain ⟨front, top, ends⟩ := (eq_nil_or_concat pbData).resolve_left nonempty
  rw [concat_eq_append] at ends
  obtain rfl : top = 0xff := full top (by rw [ends]; simp)
  have negative : (0xff : UInt8) &&& 0x80 ≠ 0 := by decide
  rw [asnEncodeInteger_concat ends, signedBytes, if_pos negative, negativeBytes_full small full,
    outside_bind]

theorem asnEncodeInteger_roundTrip_iff (nonempty : pbData ≠ []) (small : pbData.length < 2 ^ 32) :
    (∃ bytes, RoundTrip (asnEncodeInteger pbData pbData.length)
        (fun bytes => asnDecodeInteger bytes bytes.length) signed
        (signed pbData) bytes) ↔
      (∃ octet ∈ pbData, octet ≠ 0xff) ∧ ShortEnough (signed pbData) := by
  by_cases notFull : ∃ octet ∈ pbData, octet ≠ 0xff
  · obtain ⟨front, top, ends⟩ := (eq_nil_or_concat pbData).resolve_left nonempty
    rw [concat_eq_append] at ends
    have finds : FindsContents pbData (signedBytes pbData pbData.length top) (signed pbData) := by
      rw [signedBytes]
      split_ifs with negative
      · exact negativeBytes_spec ends (mt (and_0x80_eq_zero_iff top).mpr negative) notFull
      · have low := (and_0x80_eq_zero_iff top).mp (not_not.mp negative)
        have same : signed pbData = unsigned pbData := by
          rw [ends]
          exact signed_eq_unsigned front low
        rw [same]
        exact positiveBytes_spec nonempty
    rw [exists_roundTrip_iff finds ?_ ?_ ?_]
    · exact (and_iff_right notFull).symm
    · intro significantBytes pad found
      funext dwFlags pcbEncoded
      rw [asnEncodeInteger_concat ends, found, success_bind]
    · intro field contents shortest short same dwFlags
      rw [← same]
      exact asnDecodeInteger_decodesTo shortest short dwFlags
    · intro bytes small enough
      exact (asnDecodeInteger_sizeEnough_iff small 0).mp enough
  · refine iff_of_false ?_ fun both => notFull both.1
    rintro ⟨bytes, trip⟩
    have full : ∀ octet ∈ pbData, octet = 0xff := by simpa using notFull
    have sized := trip.sized 0
    rw [asnEncodeInteger_full nonempty small full] at sized
    cases sized

theorem asnEncodeUnsignedInteger_roundTrip_iff (nonempty : pbData ≠ []) :
    (∃ bytes, RoundTrip (asnEncodeUnsignedInteger pbData pbData.length)
        (fun bytes => asnDecodeUnsignedInteger bytes bytes.length)
        (fun data => unsigned data) (unsigned pbData) bytes) ↔
      ShortEnough (unsigned pbData) := by
  refine exists_roundTrip_iff (positiveBytes_spec nonempty) ?_ ?_ ?_
  · intro significantBytes pad found
    funext dwFlags pcbEncoded
    rw [asnEncodeUnsignedInteger, if_neg (mt length_eq_zero_iff.mp nonempty), found, success_bind]
  · intro field contents shortest short same dwFlags
    have positive : 0 ≤ signed contents := by
      rw [same]
      exact Int.natCast_nonneg _
    rw [signed_eq_unsigned_of_nonneg positive] at same
    rw [← same]
    exact asnDecodeUnsignedInteger_decodesTo shortest short dwFlags
  · intro bytes small enough
    exact (asnDecodeUnsignedInteger_sizeEnough_iff small 0).mp enough

/-- A blob is encoded in the shortest way and decoded again exactly when its
value is short enough and, with a sign, not all of its bytes are `0xff`. -/
theorem integers_round_trip_iff (pbData : List UInt8) (nonempty : pbData ≠ [])
    (small : pbData.length < 2 ^ 32) :
    ((∃ bytes, RoundTrip (asnEncodeInteger pbData pbData.length)
          (fun bytes => asnDecodeInteger bytes bytes.length) signed
          (signed pbData) bytes) ↔
        (∃ octet ∈ pbData, octet ≠ 0xff) ∧ ShortEnough (signed pbData)) ∧
      ((∃ bytes, RoundTrip (asnEncodeUnsignedInteger pbData pbData.length)
          (fun bytes => asnDecodeUnsignedInteger bytes bytes.length)
          (fun data => unsigned data) (unsigned pbData) bytes) ↔
        ShortEnough (unsigned pbData)) :=
  ⟨asnEncodeInteger_roundTrip_iff nonempty small, asnEncodeUnsignedInteger_roundTrip_iff nonempty⟩

/-- The blob of -128 in two bytes makes the round trip. -/
theorem integer_round_trip_two_bytes : ∃ bytes, RoundTrip (asnEncodeInteger [0x80, 0xff] 2)
      (fun bytes => asnDecodeInteger bytes bytes.length) signed
      (signed [0x80, 0xff]) bytes :=
  (integers_round_trip_iff [0x80, 0xff] (by decide) (by decide)).1.mpr
    ⟨⟨0x80, by decide, by decide⟩, [0x80, 0xff], by decide, rfl, by decide⟩

/-- The blob of -1 in one byte makes the encoder read before the blob. -/
theorem minus_one_is_not_encoded : asnEncodeInteger [0xff] 1 0 none = .outside ∧
      ¬ ∃ bytes, RoundTrip (asnEncodeInteger [0xff] 1)
        (fun bytes => asnDecodeInteger bytes bytes.length) signed
        (signed [0xff]) bytes := by
  have outside : asnEncodeInteger [0xff] 1 0 none = .outside := by decide
  refine ⟨outside, ?_⟩
  rintro ⟨bytes, trip⟩
  have sized := trip.sized 0
  cases sized

end WineRedRose.Der
