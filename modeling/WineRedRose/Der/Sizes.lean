import WineRedRose.Der.Reading

/-!
# The size a decoder reports

A decoder that is called without a structure reports how many bytes it needs;
the same call with a structure of that size should fill it without leaving it.
The exact conditions under which this holds are found decoder by decoder: they
bound the contents so that no sum wraps, and they keep the contents inside of
the input.
-/

namespace WineRedRose.Der

open Library.Octets Library.Reads List

/-! ## Structures of a given size -/

/-- The fixed part and what the data pointer covers lie in so many bytes. -/
def Blob.Within (sizeofInfo : Nat) (blob : Blob) (n : Nat) : Prop := sizeofInfo ≤ n ∧
    ∃ offset, blob.pbData = .output offset ∧
      offset + blob.cbData ≤ n ∧ offset + blob.data.length ≤ n

def BitBlob.Within (blob : BitBlob) (n : Nat) : Prop := Blob.Within sizeofBitBlob blob.toBlob n

/-- The pointer and the text with its terminator lie in so many bytes; without
a text the pointer is null. -/
def Oid.Within (oid : Oid) (n : Nat) : Prop := sizeofPointer ≤ n ∧
    match oid.pszObjId with
    | .null => oid.text = []
    | .output offset => offset + (oid.text.length + 1) ≤ n
    | .input _ => False

/-- A call without a structure reports a size with which the call succeeds and
stays inside of the structure. -/
def SizeEnough {info : Type} (within : info → Nat → Prop)
    (decode : Option Nat → Outcome Error (Decoded info)) : Prop :=
  ∀ sized, decode none = .success sized → ∃ filled structInfo,
      decode (some sized.pcbStructInfo) = .success filled ∧ filled.structInfo = some structInfo ∧
        within structInfo sized.pcbStructInfo

variable {info : Type} {within : info → Nat → Prop} {sizeofInfo : Nat} {dwFlags : UInt32}
  {decode : Option Nat → Outcome Error (Decoded info)}

theorem decodeCheckSpace_self (n : Nat) : decodeCheckSpace n n = .success () := if_neg (lt_irrefl n)

theorem decodeEnsureSpace_self (dwFlags : UInt32) (n : Nat) :
    decodeEnsureSpace dwFlags n n = .success () := by
  rw [decodeEnsureSpace, decodeCheckSpace_self]
  split_ifs <;> rfl

/-- A call fills a structure, which lies in so many bytes. -/
def FillsWithin (within : info → Nat → Prop) (n : Nat)
    (outcome : Outcome Error (Decoded info)) : Prop :=
  ∃ filled structInfo, outcome = .success filled ∧ filled.structInfo = some structInfo ∧
    within structInfo n

section Twice

variable {decoder : Option Room → Outcome Error (Decoded info)} {sized : Decoded info}

theorem decodeTwice_none (reported : decoder none = .success sized) :
    decodeTwice sizeofInfo decoder dwFlags none = .success sized := by
  rw [decodeTwice, reported]
  rfl

/-- With the size that was reported, the structure is filled. -/
theorem decodeTwice_again (reported : decoder none = .success sized) :
    decodeTwice sizeofInfo decoder dwFlags (some sized.pcbStructInfo) =
      decoder (some ⟨sized.pcbStructInfo, sizeofInfo⟩) := by
  rw [decodeTwice, reported, success_bind]
  dsimp only
  rw [decodeEnsureSpace_self, success_bind]

/-- Once the size is reported, the second call decides. -/
theorem sizeEnough_iff (reported : decode none = .success sized) : SizeEnough within decode ↔
      FillsWithin within sized.pcbStructInfo (decode (some sized.pcbStructInfo)) := by
  constructor
  · exact fun enough => enough sized reported
  · intro fills sized' reported'
    cases reported.symm.trans reported'
    exact fills

theorem sizeEnough_decodeTwice_iff (reported : decoder none = .success sized) :
    SizeEnough within (decodeTwice sizeofInfo decoder dwFlags) ↔
      FillsWithin within sized.pcbStructInfo
        (decoder (some ⟨sized.pcbStructInfo, sizeofInfo⟩)) := by
  rw [sizeEnough_iff (decodeTwice_none reported), decodeTwice_again reported]

end Twice

/-- A decoder that reports no size has nothing to keep. -/
theorem sizeEnough_of_not_success (silent : ∀ sized, decode none ≠ .success sized) :
    SizeEnough within decode :=
  fun sized reported => absurd reported (silent sized)

/-! ## Bit strings -/

/-- A bit string that is accepted is copied, has contents and these lie in the
input; its size does not wrap. -/
def BitsFit (data : List UInt8) (dwFlags : UInt32) : Prop := data.head? = some asnBitstring →
    ∀ field contents len, Header data field contents len → len < data.length →
      nocopyFlag dwFlags = false ∧ 0 < len ∧ len ≤ contents.length ∧ len + 23 < 2 ^ 32

theorem maskLast_length (cUnusedBits : Nat) (data : List UInt8) :
    (maskLast cUnusedBits data).length = data.length := by
  rcases eq_nil_or_concat data with rfl | ⟨front, last, rfl⟩
  · rfl
  · simp [maskLast]

section Contents

variable {data field contents : List UInt8} {len : Nat} {condition : List UInt8 → Nat → Prop}

/-- The second call for a bit string behind its header. -/
theorem bitsContents_within_iff (header : Header data field contents len) (less : len < data.length)
    (small : data.length < 2 ^ 32) {n : Nat}
    (needed : n = if nocopyFlag dwFlags then sizeofBitBlob
      else dword (dwordPred len + sizeofBitBlob)) :
    FillsWithin BitBlob.Within n
        (bitsContents data dwFlags (some ⟨n, sizeofBitBlob⟩) field.length len) ↔
      nocopyFlag dwFlags = false ∧ 0 < len ∧ len ≤ contents.length ∧ len + 23 < 2 ^ 32 := by
  have whole := header.length
  rw [bitsContents]
  rw [← needed, decodeCheckSpace_self, success_bind]
  constructor
  · rintro ⟨filled, blob, run, stored, fixed, offset, output, _⟩
    obtain ⟨octet, _, run⟩ := bind_eq_success_iff.mp run
    cases copies : nocopyFlag dwFlags with
    | true =>
      rw [copies, if_pos rfl] at run
      cases run
      cases stored
      cases output
    | false =>
      rw [copies, if_neg Bool.false_ne_true] at run needed
      obtain ⟨copied, read, _⟩ := bind_eq_success_iff.mp run
      have inside := (readBlock_eq_success_iff.mp read).1
      rw [needed, dword, sizeofBitBlob] at fixed
      rcases Nat.eq_zero_or_pos len with rfl | positive
      · exact absurd fixed (by decide)
      · have pred : dwordPred len = len - 1 := if_neg positive.ne'
        exact ⟨rfl, positive, by omega, by omega⟩
  · rintro ⟨copies, positive, fits, noWrap⟩
    have pred : dwordPred len = len - 1 := if_neg positive.ne'
    have exactly : dword (len - 1 + sizeofBitBlob) = len - 1 + sizeofBitBlob :=
      Nat.mod_eq_of_lt (by rw [sizeofBitBlob]; omega)
    rw [copies, if_neg Bool.false_ne_true, pred, exactly] at needed
    have first : 1 + field.length < data.length := by omega
    have inside : 2 + field.length + (len - 1) ≤ data.length := by omega
    rw [readAt_of_lt first, success_bind, copies, if_neg Bool.false_ne_true, pred,
      readBlock_of_le inside, success_bind]
    refine ⟨_, _, rfl, rfl, by omega, sizeofBitBlob, rfl, ?_, ?_⟩
    · show sizeofBitBlob + (len - 1) ≤ n
      omega
    · rw [maskLast_length, length_take, length_drop]
      omega

/-- There is one header at most, so a condition on headers is about that one. -/
theorem Header.forall_iff (header : Header data field contents len) (less : len < data.length) :
    (∀ field' contents' len', Header data field' contents' len' →
      len' < data.length → condition contents' len') ↔
        condition contents len := by
  constructor
  · intro holds
    exact holds field contents len header less
  · intro holds field' contents' len' header' _
    obtain ⟨-, rfl, rfl⟩ := header.unique header'
    exact holds

/-- Behind a check of the tag only inputs with that tag matter. -/
theorem sizeEnough_tagged_iff {tag : UInt8} {inner : Option Nat → Outcome Error (Decoded info)}
    (checked : ∀ available, decode available = readAt data 0 >>= fun found =>
      if found = tag then inner available else .failure .asn1Badtag) :
    SizeEnough within decode ↔ (data.head? = some tag → SizeEnough within inner) := by
  obtain rfl : decode = _ := funext checked
  cases data with
  | nil => exact iff_of_true (sizeEnough_of_not_success nofun) nofun
  | cons found rest =>
    by_cases same : found = tag
    · simp [readAt, same]
    · refine iff_of_true (sizeEnough_of_not_success fun sized reported => ?_)
        (fun head => absurd (Option.some.inj head) same)
      cases (if_neg same).symm.trans reported

/-- An input that is refused reports no size, and another one has one header. -/
theorem sizeEnough_iff_of_header (small : data.length < 2 ^ 32)
    (silent : ∀ error, getLen data data.length = .failure error →
      ∀ sized, decode none ≠ .success sized)
    (opened : ∀ field contents len, Header data field contents len → len < data.length →
      getLen data data.length = .success len →
        (SizeEnough within decode ↔ condition contents len)) :
    SizeEnough within decode ↔ ∀ field contents len, Header data field contents len →
      len < data.length → condition contents len := by
  rcases getLen_cases small with ⟨error, failed⟩ | ⟨field, contents, len, header, less, accepted⟩
  · refine iff_of_true (sizeEnough_of_not_success (silent error failed)) ?_
    intro field contents len header less
    have accepted := (getLen_eq_success_iff small).mpr ⟨field, contents, header, less⟩
    rw [failed] at accepted
    cases accepted
  · rw [opened field contents len header less accepted, header.forall_iff less]

/-- A decoder behind a header that always reports a size. -/
theorem sizeEnough_withLength_iff (dwFlags : UInt32)
    {next : Option Room → (lenBytes dataLen : Nat) → Outcome Error (Decoded info)}
    {reported : (lenBytes dataLen : Nat) → Decoded info}
    (small : data.length < 2 ^ 32)
    (reports : ∀ lenBytes dataLen,
      next none lenBytes dataLen = .success (reported lenBytes dataLen))
    (fills : ∀ field contents len, Header data field contents len → len < data.length →
      (FillsWithin within (reported field.length len).pcbStructInfo
          (next (some ⟨(reported field.length len).pcbStructInfo, sizeofInfo⟩) field.length len) ↔
        condition contents len)) :
    SizeEnough within (decodeTwice sizeofInfo
          (fun pvStructInfo => withLength data data.length (next pvStructInfo))
          dwFlags) ↔
      ∀ field contents len, Header data field contents len →
        len < data.length → condition contents len := by
  refine sizeEnough_iff_of_header small ?_ ?_
  · intro error failed sized success
    rw [decodeTwice, withLength_of_failure failed] at success
    cases success
  · intro field contents len header less accepted
    have first : withLength data data.length (next none) =
        .success (reported field.length len) := by
      rw [withLength_of_header header accepted, reports]
    rw [sizeEnough_decodeTwice_iff first, withLength_of_header header accepted,
      fills field contents len header less]

theorem asnDecodeBits_sizeEnough_iff (small : data.length < 2 ^ 32) :
    SizeEnough BitBlob.Within (asnDecodeBits data data.length dwFlags) ↔ BitsFit data dwFlags := by
  have inner : SizeEnough BitBlob.Within (decodeTwice sizeofBitBlob
        (asnDecodeBitsInternal data data.length dwFlags) dwFlags) ↔
      ∀ field contents len, Header data field contents len →
        len < data.length → nocopyFlag dwFlags = false ∧ 0 < len ∧
          len ≤ contents.length ∧ len + 23 < 2 ^ 32 := by
    refine sizeEnough_iff_of_header small ?_ ?_
    · intro error failed sized success
      obtain ⟨sized, success, _⟩ := bind_eq_success_iff.mp success
      obtain ⟨octet, _, success⟩ := bind_eq_success_iff.mp success
      rw [failed] at success
      cases success
    · intro field contents len header less accepted
      rw [sizeEnough_decodeTwice_iff (asnDecodeBitsInternal_of_header header accepted dwFlags none),
        asnDecodeBitsInternal_of_header header accepted,
        bitsContents_within_iff header less small rfl]
  rw [BitsFit, ← inner]
  cases data with
  | nil => exact iff_of_true (sizeEnough_of_not_success nofun) nofun
  | cons found rest => exact sizeEnough_tagged_iff fun _ => rfl

/-! ## Integers -/

/-- An integer that is accepted lies in the input, and its size does not
wrap. -/
def IntegerFits (data : List UInt8) : Prop := data.head? = some asnInteger →
    ∀ field contents len, Header data field contents len → len < data.length →
      len ≤ contents.length ∧ len + 16 < 2 ^ 32

theorem integerContents_within_iff (header : Header data field contents len) :
    FillsWithin (Blob.Within sizeofBlob) (dword (len + sizeofBlob)) (integerContents data
        (some ⟨dword (len + sizeofBlob), sizeofBlob⟩) field.length len) ↔
      len ≤ contents.length ∧ len + 16 < 2 ^ 32 := by
  have whole := header.length
  have bound := header.written.lt header.few
  rw [integerContents]
  rw [decodeCheckSpace_self, success_bind]
  constructor
  · rintro ⟨filled, blob, run, stored, fixed, _⟩
    obtain ⟨copied, read, _⟩ := bind_eq_success_iff.mp run
    refine ⟨?_, ?_⟩
    · by_contra beyond
      rw [copyReversed_outside (by omega) (by omega)] at read
      cases read
    · rw [dword, sizeofBlob] at fixed
      omega
  · rintro ⟨fits, noWrap⟩
    have exactly : dword (len + sizeofBlob) = len + sizeofBlob := Nat.mod_eq_of_lt noWrap
    obtain ⟨front, body, rest, rfl, start, rfl⟩ := header.exists_body fits
    rw [exactly, ← start, copyReversed_append, success_bind]
    refine ⟨_, _, rfl, rfl, Nat.le_add_left _ _, sizeofBlob, rfl, ?_, ?_⟩
    · rw [add_comm]
    · rw [length_reverse, add_comm]

theorem asnDecodeInteger_sizeEnough_iff (small : data.length < 2 ^ 32) (dwFlags : UInt32) :
    SizeEnough (Blob.Within sizeofBlob) (asnDecodeInteger data data.length dwFlags) ↔
      IntegerFits data := by
  have reports : ∀ lenBytes dataLen, integerContents data none lenBytes dataLen =
        .success ⟨dword (dataLen + sizeofBlob), dword (1 + lenBytes + dataLen),
          none⟩ := fun _ _ => rfl
  have inner := sizeEnough_withLength_iff dwFlags small reports
    fun field contents len header _ => integerContents_within_iff header
  rw [IntegerFits, ← inner]
  exact sizeEnough_tagged_iff fun _ => rfl

theorem unsignedIntegerContents_within_iff (header : Header data field contents len) :
    FillsWithin (Blob.Within sizeofBlob) (dword (len + sizeofBlob)) (unsignedIntegerContents data
        (some ⟨dword (len + sizeofBlob), sizeofBlob⟩) field.length len) ↔
      len ≤ contents.length ∧ len + 16 < 2 ^ 32 := by
  have whole := header.length
  have bound := header.written.lt header.few
  rw [unsignedIntegerContents]
  dsimp only
  rw [decodeCheckSpace_self, success_bind]
  constructor
  · rintro ⟨filled, blob, run, stored, fixed, _⟩
    obtain ⟨strip, looked, run⟩ := bind_eq_success_iff.mp run
    obtain ⟨copied, read, _⟩ := bind_eq_success_iff.mp run
    refine ⟨?_, ?_⟩
    · by_contra beyond
      have one : 1 + field.length < data.length ∧ 0 < len := by
        rw [leadingZero, if_neg (by omega)] at looked
        obtain ⟨octet, found, _⟩ := bind_eq_success_iff.mp looked
        obtain ⟨less, _⟩ := List.getElem?_eq_some_iff.mp (readAt_eq_success_iff.mp found)
        exact ⟨less, by omega⟩
      have removed : (if strip then 1 else 0) ≤ 1 := by split_ifs <;> omega
      rw [copyReversed_outside (by omega) (by omega)] at read
      cases read
    · rw [dword, sizeofBlob] at fixed
      omega
  · rintro ⟨fits, noWrap⟩
    have exactly : dword (len + sizeofBlob) = len + sizeofBlob := Nat.mod_eq_of_lt noWrap
    obtain ⟨front, body, rest, rfl, start, rfl⟩ := header.exists_body fits
    have removed : (if body.head? == some 0 then 1 else 0) ≤ body.length := by
      split_ifs with zero
      · cases body with
        | nil => cases zero
        | cons octet body => exact Nat.le_add_left _ _
      · exact Nat.zero_le _
    rw [exactly, ← start, leadingZero_append, success_bind, copyReversed_stripped, success_bind]
    refine ⟨_, _, rfl, rfl, Nat.le_add_left _ _, _, rfl, ?_, ?_⟩
    · show sizeofBlob + _ + (body.length - _) ≤ _
      omega
    · have copied := length_stripped body
      dsimp only
      omega

theorem asnDecodeUnsignedInteger_sizeEnough_iff (small : data.length < 2 ^ 32) (dwFlags : UInt32) :
    SizeEnough (Blob.Within sizeofBlob) (asnDecodeUnsignedInteger data data.length dwFlags) ↔
      IntegerFits data := by
  have reports : ∀ lenBytes dataLen, unsignedIntegerContents data none lenBytes dataLen =
        .success ⟨dword (dataLen + sizeofBlob), dword (1 + lenBytes + dataLen),
          none⟩ := fun _ _ => rfl
  have inner := sizeEnough_withLength_iff dwFlags small reports
    fun field contents len header _ => unsignedIntegerContents_within_iff header
  rw [IntegerFits, ← inner]
  refine sizeEnough_tagged_iff fun available => ?_
  cases data with
  | nil => rfl
  | cons found rest =>
    show decodeTwice _ (fun room => if found = asnInteger then _ else _) _ _ = ite _ _ _
    split_ifs <;> rfl

/-! ## Object identifiers -/

/-- `CRYPT_AsnDecodeOidIgnoreTag` with a text behind the pointer. -/
def decodeOid (data : List UInt8) (pcbStructInfo : Option Nat) : Outcome Error (Decoded Oid) :=
  asnDecodeOidIgnoreTag data data.length
    (pcbStructInfo.map fun available => ⟨available, sizeofPointer⟩)

/-- The text of an identifier that is complete has a size that does not
wrap. -/
def OidFits (data : List UInt8) : Prop :=
  ∀ field contents len, Header data field contents len → len < data.length →
    len ≤ contents.length → ∀ text, dottedText (contents.take len) = some text →
      text.length + 9 < 2 ^ 32

/-- The loop over continued bytes stays inside of the input and stops at the
end of the contents or at a byte that ends a number. -/
theorem continuedBytes_inside {left ptr left' ptr' : Nat} {val val' : UInt32}
    (run : continuedBytes data left ptr val = .success (left', ptr', val')) :
    ptr' + left' = ptr + left ∧ left' ≤ left ∧ (ptr' = ptr ∨ ptr' ≤ data.length) ∧
      (left' = 0 ∨ ∃ octet, data[ptr']? = some octet ∧ octet &&& 0x80 = 0) := by
  induction left generalizing ptr val with
  | zero =>
    cases run
    exact ⟨rfl, le_refl 0, .inl rfl, .inl rfl⟩
  | succ left ih =>
    obtain ⟨octet, found, run⟩ := bind_eq_success_iff.mp run
    rw [readAt_eq_success_iff] at found
    split_ifs at run with last
    · cases run
      exact ⟨rfl, le_refl _, .inl rfl, .inr ⟨octet, found, last⟩⟩
    · obtain ⟨less, _⟩ := List.getElem?_eq_some_iff.mp found
      obtain ⟨total, shorter, reached, stopped⟩ := ih run
      exact ⟨by omega, by omega, .inr (by omega), stopped⟩

/-- The sizing pass reads all of the contents. -/
theorem oidBytesNeeded_inside {fuel left ptr bytesNeeded : Nat} {result : Bool × Nat}
    (enough : left ≤ fuel) (run : oidBytesNeeded data fuel left ptr bytesNeeded = .success result) :
    left = 0 ∨ ptr + left ≤ data.length := by
  induction fuel generalizing left ptr bytesNeeded with
  | zero => exact .inl (Nat.le_zero.mp enough)
  | succ fuel ih =>
    cases left with
    | zero => exact .inl rfl
    | succ left =>
      right
      obtain ⟨⟨left', ptr', val⟩, loop, run⟩ := bind_eq_success_iff.mp run
      obtain ⟨total, shorter, reached, stopped⟩ := continuedBytes_inside loop
      dsimp only at run
      split_ifs at run with finished
      · omega
      · obtain ⟨octet, ended, last⟩ := stopped.resolve_left finished
        obtain ⟨less, _⟩ := List.getElem?_eq_some_iff.mp ended
        rw [readAt_of_some ended, success_bind, if_neg (not_not.mpr last)] at run
        rcases ih (by omega) run with none | inside <;> omega

theorem oidSizing_inside {start : Nat} {result : Bool × Nat} (begins : start ≤ data.length)
    (run : oidSizing data start len = .success result) :
    start + len ≤ data.length := by
  rw [oidSizing] at run
  split_ifs at run with empty
  · omega
  · obtain ⟨octet, found, run⟩ := bind_eq_success_iff.mp run
    obtain ⟨less, _⟩ := List.getElem?_eq_some_iff.mp (readAt_eq_success_iff.mp found)
    rcases oidBytesNeeded_inside (by omega) run with one | inside <;> omega

/-- Both passes over contents that lie in the input. -/
theorem oidContents_sizeEnough_iff (front body rest : List UInt8) {lenBytes : Nat}
    (start : front.length = 1 + lenBytes) :
    SizeEnough Oid.Within (fun pcbStructInfo =>
        oidContents (front ++ body ++ rest)
          (pcbStructInfo.map fun available => ⟨available, sizeofPointer⟩)
          lenBytes body.length) ↔
      ∀ text, dottedText body = some text → text.length + 9 < 2 ^ 32 := by
  cases body with
  | nil =>
    refine iff_of_true ?_ ?_
    · rintro sized ⟨⟩
      exact ⟨_, _, rfl, rfl, le_refl _, rfl⟩
    · rintro text ⟨⟩
      norm_num
  | cons octet body =>
    obtain ⟨needed, sizing, total⟩ := oidSizing_spec front octet body rest
    cases complete : dottedText (octet :: body) with
    | none =>
      refine iff_of_true (sizeEnough_of_not_success fun sized success => ?_) ?_
      · rw [oidContents, ← start, length_cons, sizing, complete] at success
        cases success
      · rintro text ⟨⟩
    | some text =>
      rw [complete, total text complete, Option.isSome_some] at sizing
      have filling := oidFilling_complete front octet body rest sizeofPointer complete
      have reported : oidContents (front ++ octet :: body ++ rest) none
          lenBytes (octet :: body).length = .success ⟨dword (sizeofPointer + (text.length + 1)),
              dword (1 + lenBytes + (octet :: body).length), none⟩ := by
        rw [oidContents, ← start, length_cons, sizing, success_bind]
        rfl
      have filled : oidContents (front ++ octet :: body ++ rest)
          (some ⟨dword (sizeofPointer + (text.length + 1)), sizeofPointer⟩)
          lenBytes (octet :: body).length = .success ⟨dword (sizeofPointer + (text.length + 1)),
              dword (1 + lenBytes + (octet :: body).length),
              some ⟨.output sizeofPointer, text⟩⟩ := by
        rw [oidContents, ← start, length_cons, sizing, success_bind]
        dsimp only
        rw [decodeCheckSpace_self, success_bind, filling, success_bind]
        rfl
      rw [sizeEnough_iff reported]
      dsimp only [Option.map_some]
      rw [filled]
      constructor
      · rintro ⟨_, _, ⟨⟩, ⟨⟩, -, within⟩ _ ⟨⟩
        have inside : sizeofPointer + (text.length + 1) ≤
            dword (sizeofPointer + (text.length + 1)) := within
        rw [dword, sizeofPointer] at inside
        omega
      · intro noWrap
        have exactly : dword (sizeofPointer + (text.length + 1)) =
            sizeofPointer + (text.length + 1) :=
          Nat.mod_eq_of_lt (by
            rw [sizeofPointer]
            have := noWrap text rfl
            omega)
        rw [exactly]
        exact ⟨_, _, rfl, rfl, Nat.le_add_right _ _, le_rfl⟩

theorem decodeOid_sizeEnough_iff (small : data.length < 2 ^ 32) :
    SizeEnough Oid.Within (decodeOid data) ↔ OidFits data := by
  refine sizeEnough_iff_of_header small ?_ ?_
  · intro error failed sized success
    rw [decodeOid, asnDecodeOidIgnoreTag, withLength_of_failure failed] at success
    cases success
  intro field contents len header less accepted
  have whole := header.length
  have opened : ∀ pcbStructInfo, decodeOid data pcbStructInfo = oidContents data
        (pcbStructInfo.map fun available => ⟨available, sizeofPointer⟩)
        field.length len := fun _ => withLength_of_header header accepted _
  by_cases fits : len ≤ contents.length
  · obtain ⟨front, split, start⟩ := header.split_contents len
    have count : (contents.take len).length = len := length_take_of_le fits
    have fill := oidContents_sizeEnough_iff front (contents.take len) (contents.drop len) start
    rw [← split, count] at fill
    rw [show decodeOid data = _ from funext opened, fill]
    exact ⟨fun enough _ => enough, fun enough => enough fits⟩
  · refine iff_of_true (sizeEnough_of_not_success fun sized success => ?_)
      fun inside => absurd inside fits
    rw [opened, oidContents] at success
    obtain ⟨result, sizing, _⟩ := bind_eq_success_iff.mp success
    have inside := oidSizing_inside (by omega) sizing
    omega

end Contents

/-- The exact conditions under which the reported sizes are enough. -/
theorem reported_sizes_enough_iff (data : List UInt8) (small : data.length < 2 ^ 32)
    (dwFlags : UInt32) :
    (SizeEnough BitBlob.Within (asnDecodeBits data data.length dwFlags) ↔ BitsFit data dwFlags) ∧
      (SizeEnough (Blob.Within sizeofBlob)
          (asnDecodeInteger data data.length dwFlags) ↔ IntegerFits data) ∧
      (SizeEnough (Blob.Within sizeofBlob) (asnDecodeUnsignedInteger data data.length dwFlags) ↔
        IntegerFits data) ∧
      (SizeEnough Oid.Within (decodeOid data) ↔ OidFits data) :=
  ⟨asnDecodeBits_sizeEnough_iff small, asnDecodeInteger_sizeEnough_iff small dwFlags,
    asnDecodeUnsignedInteger_sizeEnough_iff small dwFlags,
    decodeOid_sizeEnough_iff small⟩

/-- The sizes reported for eight bits, for an integer, for one with a leading zero
and for the identifier 1.2.840 are enough. -/
theorem reported_size_enough_small :
    SizeEnough BitBlob.Within (asnDecodeBits [0x03, 0x02, 0x00, 0x7f] 4 0) ∧
      SizeEnough (Blob.Within sizeofBlob) (asnDecodeInteger [0x02, 0x01, 0x7f] 3 0) ∧
      SizeEnough (Blob.Within sizeofBlob)
        (asnDecodeUnsignedInteger [0x02, 0x02, 0x00, 0x80] 4 0) ∧
      SizeEnough Oid.Within (decodeOid [0x06, 0x03, 0x2a, 0x86, 0x48]) := by
  have header : ∀ tag (octet : UInt8) contents, octet < 0x80 →
      Header (tag :: octet :: contents) [octet] contents octet.toNat :=
    fun tag octet contents below => ⟨⟨tag, rfl⟩, .short octet below, Nat.le_add_left 1 4, .inl rfl⟩
  have bits := reported_sizes_enough_iff [0x03, 0x02, 0x00, 0x7f] (by decide) 0
  have integer := reported_sizes_enough_iff [0x02, 0x01, 0x7f] (by decide) 0
  have unsigned := reported_sizes_enough_iff [0x02, 0x02, 0x00, 0x80] (by decide) 0
  have oid := reported_sizes_enough_iff [0x06, 0x03, 0x2a, 0x86, 0x48] (by decide) 0
  refine ⟨bits.1.mpr fun _ => ?_, integer.2.1.mpr fun _ => ?_, unsigned.2.2.1.mpr fun _ => ?_,
    oid.2.2.2.mpr ?_⟩
  · exact ((header _ 0x02 _ (by decide)).forall_iff (by decide)).mpr (by decide)
  · exact ((header _ 0x01 _ (by decide)).forall_iff (by decide)).mpr (by decide)
  · exact ((header _ 0x02 _ (by decide)).forall_iff (by decide)).mpr (by decide)
  · refine ((header _ 0x03 _ (by decide)).forall_iff (by decide)).mpr fun _ text written => ?_
    cases written
    decide

/-- For a bit string without contents 23 bytes are reported, which do not even
hold the fixed part, and with them the call reads behind the input. -/
theorem empty_bit_string_reports_too_little :
    (asnDecodeBits [0x03, 0x00] 2 0 none = .success ⟨23, 2, none⟩) ∧
      asnDecodeBits [0x03, 0x00] 2 0 (some 23) = .outside ∧
      ¬ SizeEnough BitBlob.Within (asnDecodeBits [0x03, 0x00] 2 0) := by
  have reported : asnDecodeBits [0x03, 0x00] 2 0 none = .success ⟨23, 2, none⟩ := by decide
  have again : asnDecodeBits [0x03, 0x00] 2 0 (some 23) = .outside := by decide
  refine ⟨reported, again, fun enough => ?_⟩
  obtain ⟨filled, _, success, _⟩ := enough _ reported
  cases success

end WineRedRose.Der
