import WineRedRose.Der.Loops

/-!
# Decoders read their input

An accepted length is smaller than the input, but the header is not counted,
so the contents may end behind the input.  When they do not, and when they are
not empty for a bit string, every decoder reads inside of its input.
-/

namespace WineRedRose.Der

open Library.Octets Library.Reads List

/-! ## Behind the header -/

variable {info : Type} {data field contents front body rest : List UInt8} {len : Nat} {tag : UInt8}

section

variable (header : Header data field contents len)
include header

theorem withLength_of_header (accepted : getLen data data.length = .success len)
    (next : (lenBytes dataLen : Nat) → Outcome Error info) :
    withLength data data.length next = next field.length len := by
  obtain ⟨octet, second, count⟩ := header.readAt_one
  rw [withLength, accepted, success_bind, second, success_bind, count]

omit header in
theorem withLength_of_failure {error : Error} (failed : getLen data data.length = .failure error)
    (next : (lenBytes dataLen : Nat) → Outcome Error info) :
    withLength data data.length next = .failure error := by
  rw [withLength, failed, failure_bind]

theorem asnDecodeBitsInternal_of_header (accepted : getLen data data.length = .success len)
    (dwFlags : UInt32) (pvStructInfo : Option Room) :
    asnDecodeBitsInternal data data.length dwFlags pvStructInfo =
      bitsContents data dwFlags pvStructInfo field.length len := by
  obtain ⟨octet, second, count⟩ := header.readAt_one
  rw [asnDecodeBitsInternal, second, success_bind, accepted, success_bind, count]

theorem Header.split_contents (count : Nat) : ∃ front, data =
      front ++ contents.take count ++ contents.drop count ∧ front.length = 1 + field.length := by
  obtain ⟨tag, rfl⟩ := header.split
  refine ⟨tag :: field, ?_, ?_⟩
  · rw [append_assoc, take_append_drop, cons_append]
  · rw [length_cons, add_comm]

/-- Contents that fit are a part of the input right behind the header. -/
theorem Header.exists_body (fits : len ≤ contents.length) : ∃ front body rest, data =
      front ++ body ++ rest ∧ front.length = 1 + field.length ∧ body.length = len := by
  obtain ⟨front, whole, start⟩ := header.split_contents len
  exact ⟨front, _, _, whole, start, length_take_of_le fits⟩

end

/-! ## No read outside -/

/-- Every length that is accepted is covered by the contents. -/
def ContentsInside (data : List UInt8) : Prop :=
  ∀ field contents len, Header data field contents len → len < data.length → len ≤ contents.length

theorem decodeCheckSpace_bind_ne_outside {available bytesNeeded : Nat} {next : Outcome Error info}
    (safe : next ≠ .outside) :
    (decodeCheckSpace available bytesNeeded >>= fun _ => next) ≠ .outside := by
  rw [decodeCheckSpace]
  split_ifs
  · simp
  · exact safe

/-- The first byte of the contents is looked at when there is one. -/
theorem leadingZero_append : leadingZero (front ++ body ++ rest) front.length body.length =
      .success (body.head? == some 0) := by
  cases body with
  | nil => rfl
  | cons octet body =>
    rw [leadingZero, if_neg (by simp), readAt_middle, success_bind]
    simp

/-- What is copied after a zero byte has been removed. -/
theorem copyReversed_stripped :
    copyReversed (front ++ body ++ rest) (front.length + if body.head? == some 0 then 1 else 0)
        (body.length - if body.head? == some 0 then 1 else 0) =
      .success (if body.head? == some 0 then body.tail else body).reverse := by
  split_ifs with zero
  · cases body with
    | nil => cases zero
    | cons octet body =>
      have copied := copyReversed_append (front ++ [octet]) body rest
      rw [length_append, length_singleton] at copied
      rw [append_cons front octet body, length_cons, Nat.add_sub_cancel, copied, tail_cons]
  · exact copyReversed_append front body rest

theorem length_stripped (body : List UInt8) :
    (if body.head? == some 0 then body.tail else body).reverse.length =
      body.length - if body.head? == some 0 then 1 else 0 := by
  rw [length_reverse]
  split_ifs <;> simp

/-- The fill for the sign depends on the first byte of the contents. -/
def signFillOf (body : List UInt8) : UInt32 :=
  match body with
  | [] => 0
  | octet :: _ => if octet &&& 0x80 ≠ 0 then 0xffffffff else 0

theorem signFill_append (front body rest : List UInt8) :
    signFill (front ++ body ++ rest) front.length body.length = .success (signFillOf body) := by
  cases body with
  | nil => rfl
  | cons octet body =>
    rw [signFill, if_neg (by simp), readAt_middle, success_bind]
    rfl

section

variable (small : data.length < 2 ^ 32) (inside : ContentsInside data)
include small inside

/-- What comes after the header only has to stay inside for contents that do. -/
theorem withLength_ne_outside {next : (lenBytes dataLen : Nat) → Outcome Error info}
    (safe : ∀ front body rest, data = front ++ body ++ rest →
      ∀ lenBytes, front.length = 1 + lenBytes →
        next lenBytes body.length ≠ .outside) :
    withLength data data.length next ≠ .outside := by
  rcases getLen_cases small with ⟨error, failed⟩ | ⟨field, contents, len, header, less, accepted⟩
  · rw [withLength_of_failure failed]
    simp
  · rw [withLength_of_header header accepted]
    obtain ⟨front, body, rest, whole, start, rfl⟩ :=
      header.exists_body (inside field contents len header less)
    exact safe front body rest whole field.length start

theorem asnDecodeDerBlob_ne_outside (dwFlags : UInt32) (pvStructInfo : Option Room) :
    asnDecodeDerBlob data data.length dwFlags pvStructInfo ≠ .outside := by
  refine withLength_ne_outside small inside ?_
  intro front body rest whole lenBytes start
  have lengths := congrArg length whole
  rw [length_append, length_append] at lengths
  have exactly : dword (1 + lenBytes + body.length) = 1 + lenBytes + body.length :=
    Nat.mod_eq_of_lt (by omega)
  cases pvStructInfo with
  | none => simp [derBlobContents]
  | some room =>
    refine decodeCheckSpace_bind_ne_outside ?_
    split_ifs
    · simp
    · simp
    · rw [exactly, readBlock_of_le (by omega)]
      simp

theorem asnDecodeBitsInternal_ne_outside (two : 2 ≤ data.length)
    (nonempty : ∀ field contents, ¬ Header data field contents 0) (dwFlags : UInt32)
    (pvStructInfo : Option Room) :
    asnDecodeBitsInternal data data.length dwFlags pvStructInfo ≠ .outside := by
  rcases getLen_cases small with ⟨error, failed⟩ | ⟨field, contents, len, header, less, accepted⟩
  · rw [asnDecodeBitsInternal, readAt_of_lt two, success_bind, failed, failure_bind]
    simp
  have fits := inside field contents len header less
  have positive : 0 < len := by
    refine Nat.pos_of_ne_zero ?_
    rintro rfl
    exact nonempty field contents header
  have whole := header.length
  have exactly : dwordPred len = len - 1 := if_neg positive.ne'
  have first : 1 + field.length < data.length := by omega
  rw [asnDecodeBitsInternal_of_header header accepted]
  cases pvStructInfo with
  | none => simp [bitsContents]
  | some room =>
    rw [bitsContents]
    refine decodeCheckSpace_bind_ne_outside ?_
    rw [readAt_of_lt first, success_bind]
    split_ifs
    · simp
    · rw [exactly, readBlock_of_le (by omega)]
      simp

theorem asnDecodeIntegerInternal_ne_outside (pvStructInfo : Option Room) :
    asnDecodeIntegerInternal data data.length pvStructInfo ≠ .outside := by
  refine withLength_ne_outside small inside ?_
  rintro front body rest rfl lenBytes start
  cases pvStructInfo with
  | none => simp [integerContents]
  | some room =>
    refine decodeCheckSpace_bind_ne_outside ?_
    rw [← start, copyReversed_append]
    simp

theorem asnDecodeUnsignedIntegerInternal_ne_outside (some : data ≠ [])
    (pvStructInfo : Option Room) :
    asnDecodeUnsignedIntegerInternal data data.length pvStructInfo ≠ .outside := by
  rw [asnDecodeUnsignedIntegerInternal, readAt_of_lt (length_pos_of_ne_nil some), success_bind]
  split_ifs
  · refine withLength_ne_outside small inside ?_
    rintro front body rest rfl lenBytes start
    cases pvStructInfo with
    | none => simp [unsignedIntegerContents]
    | some room =>
      refine decodeCheckSpace_bind_ne_outside ?_
      rw [← start, leadingZero_append, success_bind]
      dsimp only
      rw [copyReversed_stripped]
      simp
  · simp

theorem asnDecodeIntInternal_ne_outside (pvStructInfo : Option Room) :
    asnDecodeIntInternal data data.length pvStructInfo ≠ .outside := by
  refine withLength_ne_outside small inside ?_
  rintro front body rest rfl lenBytes start
  unfold intContents
  split_ifs
  · simp
  cases pvStructInfo with
  | none => simp
  | some room =>
    refine decodeCheckSpace_bind_ne_outside ?_
    rw [← start, signFill_append, success_bind, shiftIn_append]
    simp

theorem asnDecodeOidIgnoreTag_ne_outside (pvStructInfo : Option Room) :
    asnDecodeOidIgnoreTag data data.length pvStructInfo ≠ .outside := by
  refine withLength_ne_outside small inside ?_
  rintro front body rest rfl lenBytes start
  rw [oidContents, ← start]
  cases body with
  | nil =>
    cases pvStructInfo with
    | none => simp [oidSizing]
    | some room => exact decodeCheckSpace_bind_ne_outside (by simp [oidFilling])
  | cons octet body =>
    obtain ⟨needed, sized, _⟩ := oidSizing_spec front octet body rest
    rw [length_cons, sized, success_bind]
    cases pvStructInfo with
    | none =>
      dsimp only
      split_ifs <;> simp
    | some room =>
      refine decodeCheckSpace_bind_ne_outside ?_
      cases complete : dottedText (octet :: body) with
      | some text =>
        rw [Option.isSome_some, oidFilling_complete front octet body rest room.pbData complete]
        simp
      | none =>
        rw [oidFilling, if_neg (Nat.succ_ne_zero _), readAt_middle, success_bind]
        simp

end

/-! ## Accepted lengths -/

/-- The contents of that length end inside of the input, and the length is the
number written in the length octets. -/
def LengthInside (data : List UInt8) (len : Nat) : Prop := ∃ octet, data[1]? = some octet ∧
    1 + getLenBytes octet + len ≤ data.length ∧
    LengthField ((data.drop 1).take (getLenBytes octet)) len

/-- When the decoder of bit strings, which does not look at the tag, is called:
behind the tag of a bit string, or for an item of a sequence, whose length has
been read, behind the context tags of unique identifiers and reasons. -/
def BitsCalled (data : List UInt8) : Prop := data.head? = some asnBitstring ∨
    2 ≤ data.length ∧ data.head? ∈ [0x81, 0x82, 0x83].map some

/-- Accepted lengths lie inside of the input, and no decoder reads outside. -/
structure ReadsInside (data : List UInt8) : Prop where
  indefinite : ∀ len, getLengthIndefinite data data.length = .success len →
    len ≠ cmsgIndefiniteLength → LengthInside data len
  definite : ∀ len, getLen data data.length = .success len → LengthInside data len
  derBlob : ∀ dwFlags pvStructInfo,
    asnDecodeDerBlob data data.length dwFlags pvStructInfo ≠ .outside
  bits : BitsCalled data → ∀ dwFlags pvStructInfo,
    asnDecodeBitsInternal data data.length dwFlags pvStructInfo ≠ .outside
  integer : ∀ pvStructInfo, asnDecodeIntegerInternal data data.length pvStructInfo ≠ .outside
  unsignedInteger : ∀ pvStructInfo,
    asnDecodeUnsignedIntegerInternal data data.length pvStructInfo ≠ .outside
  int : ∀ pvStructInfo, asnDecodeIntInternal data data.length pvStructInfo ≠ .outside
  oid : ∀ pvStructInfo, asnDecodeOidIgnoreTag data data.length pvStructInfo ≠ .outside

/-- The input has a byte, and a length below the size of the input does not
exceed what follows its field.  A bit string has a second byte, and the length
zero is not written there. -/
structure CoversContents (data : List UInt8) : Prop where
  nonempty : data ≠ []
  inside : ContentsInside data
  bits : BitsCalled data →
    2 ≤ data.length ∧ ∀ field contents, ¬ Header data field contents 0

theorem Header.lengthInside_iff (header : Header data field contents len) :
    LengthInside data len ↔ len ≤ contents.length := by
  have whole := header.length
  obtain ⟨octet, second, count⟩ := header.readAt_one
  obtain ⟨tag, rfl⟩ := header.split
  constructor
  · rintro ⟨octet', found, fits, _⟩
    rw [readAt_of_some found] at second
    cases second
    omega
  · intro fits
    cases found : (tag :: (field ++ contents))[1]? with
    | none => simp [readAt, found] at second
    | some octet' =>
      rw [readAt_of_some found] at second
      cases second
      refine ⟨octet, found, by omega, ?_⟩
      rw [count, drop_one, tail_cons, take_left]
      exact header.written

theorem readsInside_of_coversContents (small : data.length < 2 ^ 32)
    (covers : CoversContents data) :
    ReadsInside data := by
  obtain ⟨nonempty, inside, bits⟩ := covers
  refine
    { indefinite := ?_
      definite := ?_
      derBlob := asnDecodeDerBlob_ne_outside small inside
      bits := fun called =>
        asnDecodeBitsInternal_ne_outside small inside (bits called).1 (bits called).2
      integer := asnDecodeIntegerInternal_ne_outside small inside
      unsignedInteger := asnDecodeUnsignedIntegerInternal_ne_outside small inside nonempty
      int := asnDecodeIntInternal_ne_outside small inside
      oid := asnDecodeOidIgnoreTag_ne_outside small inside }
  · intro len accepted definite
    obtain ⟨field, contents, header, less⟩ :=
      (getLengthIndefinite_eq_success_iff small definite).mp accepted
    exact header.lengthInside_iff.mpr (inside field contents len header less)
  · intro len accepted
    obtain ⟨field, contents, header, less⟩ := (getLen_eq_success_iff small).mp accepted
    exact header.lengthInside_iff.mpr (inside field contents len header less)

/-- An empty bit string makes the decoder copy almost `2 ^ 32` bytes. -/
theorem asnDecodeBitsInternal_empty (small : data.length < 2 ^ 32)
    (header : Header data field contents 0) :
    asnDecodeBitsInternal data data.length 0 (some ⟨23, sizeofBitBlob⟩) = .outside := by
  have less : 0 < data.length := by
    have := header.length
    omega
  have accepted : getLen data data.length = .success 0 :=
    (getLen_eq_success_iff small).mpr ⟨field, contents, header, less⟩
  have pred : dwordPred 0 = 0xffffffff := rfl
  have beyond : data.length < 2 + field.length + 0xffffffff := by omega
  have space : decodeCheckSpace 23 (dword (dwordPred 0 + sizeofBitBlob)) = .success () := rfl
  have copies : nocopyFlag 0 = false := rfl
  rw [asnDecodeBitsInternal_of_header header accepted, bitsContents]
  rw [copies, if_neg Bool.false_ne_true, space, success_bind, pred, readBlock_of_lt beyond]
  rcases readAt_cases with ⟨octet, found⟩ | beyond'
  · rw [found]
    rfl
  · rw [beyond', outside_bind]

theorem coversContents_of_readsInside (small : data.length < 2 ^ 32) (reads : ReadsInside data) :
    CoversContents data := by
  refine
    { nonempty := ?_
      inside := ?_
      bits := ?_ }
  · rintro rfl
    exact reads.unsignedInteger none rfl
  · intro field contents len header less
    exact header.lengthInside_iff.mp (reads.definite len
      ((getLen_eq_success_iff small).mpr ⟨field, contents, header, less⟩))
  · intro called
    constructor
    · by_contra short
      apply reads.bits called 0 none
      rw [asnDecodeBitsInternal, readAt_of_le (by omega), outside_bind]
    · intro field contents header
      exact reads.bits called 0 _ (asnDecodeBitsInternal_empty small header)

/-- The header written for contents is read back, by both functions. -/
def HeaderReadBack (tag : UInt8) (contents : List UInt8) : Prop :=
  ∃ field, encodeLen contents.length (some 5) = .success (field.length, field) ∧
    let data := tag :: (field ++ contents)
    getLengthIndefinite data (dword data.length) = .success contents.length ∧
      getLen data (dword data.length) = .success contents.length

/-- Only one octet is written for the length of nothing. -/
theorem IsShortestField.header (tag : UInt8) (shortest : IsShortestField field contents.length) :
    Header (tag :: (field ++ contents)) field contents contents.length := by
  refine ⟨⟨tag, rfl⟩, shortest.written, shortest.few, ?_⟩
  by_cases empty : contents = []
  · subst empty
    have one := shortest.shortest [0] (LengthField.short 0 (by decide))
    have positive := shortest.written.length_pos
    exact .inl (le_antisymm one positive)
  · exact .inr empty

/-- With less than the header in view, a long field is refused. -/
theorem getLengthIndefinite_long_field {cbEncoded : Nat} (written : LengthField field len)
    (five : field.length = 5) (short : cbEncoded ≤ 4) :
    getLengthIndefinite (tag :: (field ++ contents)) cbEncoded = .failure .asn1Corrupt := by
  cases written with
  | short octet below => simp at five
  | long octet octets count some =>
    have four : octets.length = 4 := by simpa using five
    rw [four] at count
    have tooShort : 1 + 4 + 2 > cbEncoded := by omega
    rw [cons_append, getLengthIndefinite_long _ tag count (by norm_num), if_pos tooShort,
      if_neg (by norm_num : ¬ 1 + 4 > 5), ite_self]

/-- A number from `2 ^ 24` on takes all the octets that can be read. -/
theorem LengthField.five (written : LengthField field len) (few : field.length ≤ 5)
    (large : 256 ^ 3 ≤ len) : field.length = 5 := by
  cases written with
  | short octet below =>
    have := octet.toNat_lt
    omega
  | long octet octets count some =>
    have more : 3 < octets.length :=
      (Nat.pow_lt_pow_iff_right (by norm_num)).mp (large.trans_lt (unsigned_reverse_lt octets))
    rw [length_cons] at few ⊢
    omega

theorem headerReadBack_iff (small : contents.length < 2 ^ 32 - 1) :
    HeaderReadBack tag contents ↔ contents.length < 2 ^ 32 - 6 := by
  obtain ⟨field, shortest, _, encoded⟩ := encodeLen_spec (by omega : contents.length < 2 ^ 32)
  have header := shortest.header tag
  have whole := header.length
  have few := shortest.few
  constructor
  · rintro ⟨field', encoded', accepted, _⟩
    rw [encoded 5 few] at encoded'
    obtain rfl : field = field' := (Prod.mk.inj (Outcome.success.inj encoded')).2
    by_contra large
    have five : field.length = 5 := shortest.written.five few (by omega)
    have wrapped : dword (tag :: (field ++ contents)).length ≤ 4 := by
      rw [dword]
      omega
    rw [getLengthIndefinite_long_field shortest.written five wrapped] at accepted
    cases accepted
  · intro less
    have exactly : dword (tag :: (field ++ contents)).length =
        (tag :: (field ++ contents)).length := Nat.mod_eq_of_lt (by omega)
    have definite : contents.length ≠ cmsgIndefiniteLength := by
      rw [cmsgIndefiniteLength]
      omega
    refine ⟨field, encoded 5 few, ?_⟩
    dsimp only
    rw [exactly]
    exact ⟨(getLengthIndefinite_eq_success_iff (by omega) definite).mpr
        ⟨field, contents, header, by omega⟩,
      (getLen_eq_success_iff (by omega)).mpr ⟨field, contents, header, by omega⟩⟩

/-- Exactly the inputs whose accepted lengths are covered by what follows the
header, and are not zero for bit strings, are read inside; and a written header is
read back unless the size of the whole value wraps. -/
theorem accepted_lengths_inside_iff (data : List UInt8) (tag : UInt8) (contents : List UInt8) :
    (data.length < 2 ^ 32 → (ReadsInside data ↔ CoversContents data)) ∧
      (contents.length < 2 ^ 32 - 1 →
        (HeaderReadBack tag contents ↔ contents.length < 2 ^ 32 - 6)) :=
  ⟨fun small => ⟨coversContents_of_readsInside small, readsInside_of_coversContents small⟩,
    fun small => headerReadBack_iff small⟩

/-- A bit string of one byte of bits and an empty octet string are read inside,
and the header of a value of one byte is read back. -/
theorem accepted_length_inside_one_byte : ReadsInside [0x03, 0x02, 0x00, 0x7f] ∧
      ReadsInside [0x04, 0x00] ∧ HeaderReadBack 0x04 [0x7f] := by
  have bits : Header [0x03, 0x02, 0x00, 0x7f] [0x02] [0x00, 0x7f] 2 :=
    ⟨⟨0x03, rfl⟩, .short 0x02 (by decide), by decide, .inl rfl⟩
  have octets : Header [0x04, 0x00] [0x00] [] 0 :=
    ⟨⟨0x04, rfl⟩, .short 0x00 (by decide), by decide, .inl rfl⟩
  refine ⟨((accepted_lengths_inside_iff _ 0x04 []).1 (by decide)).mpr ⟨by decide, ?_, ?_⟩,
    ((accepted_lengths_inside_iff _ 0x04 []).1 (by decide)).mpr ⟨by decide, ?_, ?_⟩,
    ((accepted_lengths_inside_iff [] 0x04 [0x7f]).2 (by decide)).mpr (by decide)⟩
  · intro field contents len header _
    obtain ⟨-, rfl, rfl⟩ := bits.unique header
    exact by decide
  · refine fun _ => ⟨by decide, fun field contents header => ?_⟩
    obtain ⟨-, -, wrong⟩ := bits.unique header
    cases wrong
  · intro field contents len header _
    obtain ⟨-, rfl, rfl⟩ := octets.unique header
    exact by decide
  · intro called
    exact absurd called (by simp [BitsCalled, asnBitstring])

/-- A tag and the length one are accepted without the byte they announce, and
the byte is then read behind the input. -/
theorem length_of_missing_byte_accepted : getLengthIndefinite [0x04, 0x01] 2 = .success 1 ∧
      getLen [0x04, 0x01] 2 = .success 1 ∧ ¬ LengthInside [0x04, 0x01] 1 ∧
      asnDecodeDerBlob [0x04, 0x01] 2 0 (some ⟨19, 16⟩) = .outside := by
  refine ⟨by decide, by decide, ?_, by decide⟩
  rintro ⟨octet, second, fits, _⟩
  cases second
  exact absurd fits (by decide)

end WineRedRose.Der
