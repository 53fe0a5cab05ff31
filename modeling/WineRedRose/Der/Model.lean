import WineRedRose.Library.Reads

/-!
# Reading and writing DER

The helpers of `dlls/crypt32` that read and write the header of a DER value,
the decoders of blobs, bit strings, integers and object identifiers, and the
encoders of integers.  The input of a decoder is a block of bytes together
with the length the caller gives for it; a read outside of the block is an
outcome of its own.  Sizes are `DWORD`s, so their arithmetic wraps.

A decoder is called without a structure to learn the size that it needs, and
with a structure to be filled.  What it writes is described by the offset in
the structure and by the bytes.
-/

namespace WineRedRose.Der

open Library.Reads

/-- The last error set by a function that returns `FALSE`. -/
inductive Error where
  | asn1Corrupt
  | asn1Eod
  | asn1Large
  | asn1Badtag
  /-- The needed size has been stored for the caller. -/
  | moreData (bytesNeeded : Nat)
deriving DecidableEq, Repr

/-- A value stored in a `DWORD`. -/
def dword (n : Nat) : Nat := n % 2 ^ 32

/-- One less, in a `DWORD`. -/
def dwordPred (n : Nat) : Nat := if n = 0 then 0xffffffff else n - 1

/-- The length that stands for an indefinite one. -/
def cmsgIndefiniteLength : Nat := 0xffffffff

def asnInteger : UInt8 := 0x02

def asnBitstring : UInt8 := 0x03

/-- `CRYPT_DECODE_NOCOPY_FLAG` is set. -/
def nocopyFlag (dwFlags : UInt32) : Bool := dwFlags &&& 0x1 != 0

/-- `CRYPT_DECODE_ALLOC_FLAG` or `CRYPT_ENCODE_ALLOC_FLAG` is set. -/
def allocFlag (dwFlags : UInt32) : Bool := dwFlags &&& 0x8000 != 0

/-! ## Lengths -/

/-- The number of length bytes announced by the first one. -/
def getLenBytes (octet : UInt8) : Nat := if octet ≤ 0x80 then 1 else 1 + (octet &&& 0x7f).toNat

/-- The loop over the length bytes after the first one. -/
def lengthOctets (pbEncoded : List UInt8) : (lenLen offset out : Nat) → Outcome Error Nat
  | 0, _, out => pure out
  | lenLen + 1, offset, out => do
      let octet ← readAt pbEncoded offset
      lengthOctets pbEncoded lenLen (offset + 1) (dword (out <<< 8) ||| octet.toNat)

def getLengthIndefinite (pbEncoded : List UInt8) (cbEncoded : Nat) :
    Outcome Error Nat :=
  if cbEncoded ≤ 1 then .failure .asn1Corrupt
  else do
    let octet ← readAt pbEncoded 1
    if octet ≤ 0x7f then
      if octet.toNat + 1 > cbEncoded then .failure .asn1Eod
      else pure octet.toNat
    else if octet = 0x80 then pure cmsgIndefiniteLength
    else
      let lenLen := getLenBytes octet
      if lenLen > 5 then .failure .asn1Large
      else if lenLen + 2 > cbEncoded then .failure .asn1Corrupt
      else do
        let out ← lengthOctets pbEncoded (lenLen - 1) 2 0
        -- the counter of the loop has reached zero here
        if dword (out + 0 + 1) > cbEncoded then .failure .asn1Eod
        else pure out

def getLen (pbEncoded : List UInt8) (cbEncoded : Nat) : Outcome Error Nat := do
  let len ← getLengthIndefinite pbEncoded cbEncoded
  if len = cmsgIndefiniteLength then .failure .asn1Corrupt else pure len

/-- The loop that shifts a length up until its top byte is not zero. -/
def significantLenBytes : (temp significantBytes : Nat) → Nat
  | _, 0 => 0
  | temp, significantBytes + 1 =>
    if temp &&& 0xff000000 = 0 then significantLenBytes (dword (temp <<< 8)) significantBytes
    else significantBytes + 1

/-- The loop that stores the bytes of a length from the last one back. -/
def storeLenBytes : (significantBytes len : Nat) → List UInt8 → List UInt8
  | 0, _, stored => stored
  | significantBytes + 1, len, stored =>
    storeLenBytes significantBytes (len >>> 8) (UInt8.ofNat (len &&& 0xff) :: stored)

/-- The number of bytes that `CRYPT_EncodeLen` needs. -/
def encodeLenBytesNeeded (len : Nat) : Nat :=
  if len ≤ 0x7f then 1 else significantLenBytes len 4 + 1

/-- `CRYPT_EncodeLen` without a buffer, or with one of the given size. -/
def encodeLen (len : Nat) (pcbEncoded : Option Nat) : Outcome Error (Nat × List UInt8) :=
  let bytesNeeded := encodeLenBytesNeeded len
  match pcbEncoded with
  | none => pure (bytesNeeded, [])
  | some available =>
    if available < bytesNeeded then .failure (.moreData bytesNeeded)
    else if len ≤ 0x7f then pure (bytesNeeded, [UInt8.ofNat len])
    else
      let significantBytes := significantLenBytes len 4
      pure (bytesNeeded, UInt8.ofNat (significantBytes ||| 0x80) ::
        storeLenBytes significantBytes len [])

/-! ## What decoders fill in -/

/-- Where a pointer in the filled structure leads. -/
inductive Pointer where
  | null
  /-- Into the structure. -/
  | output (offset : Nat)
  /-- Into the input. -/
  | input (offset : Nat)
deriving DecidableEq, Repr

/-- The caller's structure. -/
structure Room where
  /-- The size given in `*pcbStructInfo`. -/
  available : Nat
  /-- Where the data pointer in the structure leads. -/
  pbData : Nat
deriving DecidableEq, Repr

/-- A filled `CRYPT_INTEGER_BLOB` or `CRYPT_DER_BLOB`. -/
structure Blob where
  cbData : Nat
  pbData : Pointer
  /-- The bytes written through the data pointer. -/
  data : List UInt8
deriving DecidableEq, Repr

/-- A filled `CRYPT_BIT_BLOB`. -/
structure BitBlob extends Blob where
  cUnusedBits : Nat
deriving DecidableEq, Repr

/-- A filled pointer to an object identifier. -/
structure Oid where
  pszObjId : Pointer
  /-- The text written through the pointer, without its terminator. -/
  text : List Char
deriving DecidableEq, Repr

/-- What a decoder that returns `TRUE` stores. -/
structure Decoded (info : Type) where
  pcbStructInfo : Nat
  pcbDecoded : Nat
  /-- The structure, when there is one. -/
  structInfo : Option info
deriving DecidableEq, Repr

def sizeofBlob : Nat := 16

def sizeofBitBlob : Nat := 24

def sizeofPointer : Nat := 8

/-- `CRYPT_DecodeCheckSpace`, and the same comparison written out. -/
def decodeCheckSpace (available bytesNeeded : Nat) : Outcome Error Unit :=
  if available < bytesNeeded then .failure (.moreData bytesNeeded) else pure ()

/-- An allocation on behalf of the caller succeeds. -/
def decodeEnsureSpace (dwFlags : UInt32) (available bytesNeeded : Nat) :
    Outcome Error Unit :=
  if allocFlag dwFlags then pure () else decodeCheckSpace available bytesNeeded

/-! ## Decoders -/

/-- Most decoders get the length first and then the number of its bytes. -/
def withLength {info : Type} (pbEncoded : List UInt8) (cbEncoded : Nat)
    (next : (lenBytes dataLen : Nat) → Outcome Error info) :
    Outcome Error info := do
  let dataLen ← getLen pbEncoded cbEncoded
  let octet ← readAt pbEncoded 1
  next (getLenBytes octet) dataLen

section

variable (pbEncoded : List UInt8) (cbEncoded : Nat)

/-- `CRYPT_AsnDecodeDerBlob` behind the header. -/
def derBlobContents (dwFlags : UInt32) (pvStructInfo : Option Room)
    (lenBytes dataLen : Nat) : Outcome Error (Decoded Blob) :=
  let size := dword (1 + lenBytes + dataLen)
  let bytesNeeded :=
    if nocopyFlag dwFlags then sizeofBlob
    else dword (sizeofBlob + (1 + lenBytes + dataLen))
  match pvStructInfo with
  | none => pure ⟨bytesNeeded, size, none⟩
  | some room => do
      decodeCheckSpace room.available bytesNeeded
      if size = 0 then .failure .asn1Corrupt
      else if nocopyFlag dwFlags then pure ⟨bytesNeeded, size, some ⟨size, .input 0, []⟩⟩
      else do
        let data ← readBlock pbEncoded 0 size
        pure ⟨bytesNeeded, size, some ⟨size, .output room.pbData, data⟩⟩

def asnDecodeDerBlob (dwFlags : UInt32)
    (pvStructInfo : Option Room) : Outcome Error (Decoded Blob) :=
  withLength pbEncoded cbEncoded (derBlobContents pbEncoded dwFlags pvStructInfo)

/-- The last byte loses its unused bits. -/
def maskLast (cUnusedBits : Nat) (data : List UInt8) : List UInt8 :=
  match data.getLast? with
  | none => []
  | some last => data.dropLast ++ [last &&& UInt8.ofNat (0xff <<< (cUnusedBits % 32))]

/-- `CRYPT_AsnDecodeBitsInternal` behind the header. -/
def bitsContents (dwFlags : UInt32) (pvStructInfo : Option Room)
    (lenBytes dataLen : Nat) : Outcome Error (Decoded BitBlob) :=
  let cbData := dwordPred dataLen
  let bytesNeeded :=
    if nocopyFlag dwFlags then sizeofBitBlob
    else dword (dwordPred dataLen + sizeofBitBlob)
  let size := dword (1 + lenBytes + dataLen)
  match pvStructInfo with
  | none => pure ⟨bytesNeeded, size, none⟩
  | some room => do
      decodeCheckSpace room.available bytesNeeded
      let cUnusedBits ← readAt pbEncoded (1 + lenBytes)
      if nocopyFlag dwFlags then
        pure ⟨bytesNeeded, size, some ⟨⟨cbData, .input (2 + lenBytes), []⟩, cUnusedBits.toNat⟩⟩
      else do
        -- nothing is copied or masked when no bytes are left
        let data ← readBlock pbEncoded (2 + lenBytes) cbData
        pure ⟨bytesNeeded, size, some ⟨⟨cbData, .output room.pbData,
            maskLast cUnusedBits.toNat data⟩, cUnusedBits.toNat⟩⟩

/-- This decoder looks at the second byte before it gets the length. -/
def asnDecodeBitsInternal (dwFlags : UInt32)
    (pvStructInfo : Option Room) : Outcome Error (Decoded BitBlob) := do
  let octet ← readAt pbEncoded 1
  let dataLen ← getLen pbEncoded cbEncoded
  bitsContents pbEncoded dwFlags pvStructInfo (getLenBytes octet) dataLen

/-- The loop that copies bytes from the last one to the first. -/
def copyReversed (pbEncoded : List UInt8) (start : Nat) : (count : Nat) → Outcome Error (List UInt8)
  | 0 => pure []
  | count + 1 => do
      let octet ← readAt pbEncoded (start + count)
      let rest ← copyReversed pbEncoded start count
      pure (octet :: rest)

/-- `CRYPT_AsnDecodeIntegerInternal` behind the header. -/
def integerContents (pvStructInfo : Option Room)
    (lenBytes dataLen : Nat) : Outcome Error (Decoded Blob) :=
  let bytesNeeded := dword (dataLen + sizeofBlob)
  let size := dword (1 + lenBytes + dataLen)
  match pvStructInfo with
  | none => pure ⟨bytesNeeded, size, none⟩
  | some room => do
      decodeCheckSpace room.available bytesNeeded
      let data ← copyReversed pbEncoded (1 + lenBytes) dataLen
      pure ⟨bytesNeeded, size, some ⟨dataLen, .output room.pbData, data⟩⟩

def asnDecodeIntegerInternal (pvStructInfo : Option Room) : Outcome Error (Decoded Blob) :=
  withLength pbEncoded cbEncoded (integerContents pbEncoded pvStructInfo)

/-- A zero byte in front of the contents, which is removed. -/
def leadingZero (start dataLen : Nat) : Outcome Error Bool :=
  if dataLen = 0 then pure false
  else do
    let octet ← readAt pbEncoded start
    pure (octet == 0)

/-- `CRYPT_AsnDecodeUnsignedIntegerInternal` behind the header. -/
def unsignedIntegerContents (pvStructInfo : Option Room)
    (lenBytes dataLen : Nat) : Outcome Error (Decoded Blob) :=
  let bytesNeeded := dword (dataLen + sizeofBlob)
  let size := dword (1 + lenBytes + dataLen)
  match pvStructInfo with
  | none => pure ⟨bytesNeeded, size, none⟩
  | some room => do
      decodeCheckSpace room.available bytesNeeded
      let strip ← leadingZero pbEncoded (1 + lenBytes) dataLen
      let removed := if strip then 1 else 0
      -- the bytes copied are the last ones of the contents
      let data ← copyReversed pbEncoded (1 + lenBytes + removed) (dataLen - removed)
      pure ⟨bytesNeeded, size, some ⟨dataLen - removed, .output (room.pbData + removed), data⟩⟩

def asnDecodeUnsignedIntegerInternal (pvStructInfo : Option Room) :
    Outcome Error (Decoded Blob) := do
  let tag ← readAt pbEncoded 0
  if tag = asnInteger then
    withLength pbEncoded cbEncoded (unsignedIntegerContents pbEncoded pvStructInfo)
  else .failure .asn1Badtag

/-- The loop that shifts the contents into a number. -/
def shiftIn (pbEncoded : List UInt8) : (count offset : Nat) → (val : UInt32) → Outcome Error UInt32
  | 0, _, val => pure val
  | count + 1, offset, val => do
      let octet ← readAt pbEncoded offset
      shiftIn pbEncoded count (offset + 1) (val <<< 8 ||| octet.toUInt32)

/-- The number starts with all bits set for a negative value. -/
def signFill (start dataLen : Nat) : Outcome Error UInt32 :=
  if dataLen = 0 then pure 0
  else do
    let octet ← readAt pbEncoded start
    pure (if octet &&& 0x80 ≠ 0 then 0xffffffff else 0)

/-- `CRYPT_AsnDecodeIntInternal` behind the header. -/
def intContents (pvStructInfo : Option Room)
    (lenBytes dataLen : Nat) : Outcome Error (Decoded Int32) :=
  let size := dword (1 + lenBytes + dataLen)
  if dataLen > 4 then .failure .asn1Large
  else
    match pvStructInfo with
    | none => pure ⟨4, size, none⟩
    | some room => do
        decodeCheckSpace room.available 4
        let start ← signFill pbEncoded (1 + lenBytes) dataLen
        let val ← shiftIn pbEncoded dataLen (1 + lenBytes) start
        pure ⟨4, size, some val.toInt32⟩

def asnDecodeIntInternal (pvStructInfo : Option Room) : Outcome Error (Decoded Int32) :=
  withLength pbEncoded cbEncoded (intContents pbEncoded pvStructInfo)

end

/-! ## Object identifiers -/

/-- The text of `"%d.%d"` for the first byte. -/
def firstArcs (octet : UInt8) : List Char := (toString (octet.toNat / 40)).toList ++
    '.' :: (toString (octet.toNat % 40)).toList

/-- The text of `".%d"`. -/
def arcText (val : UInt32) : List Char := '.' :: (toString val.toInt32.toInt).toList

/-- The loop over the continued bytes of a number: what is left of the
contents, where the loop stops and the number so far. -/
def continuedBytes (pbEncoded : List UInt8) :
    (left ptr : Nat) → (val : UInt32) → Outcome Error (Nat × Nat × UInt32)
  | 0, ptr, val => pure (0, ptr, val)
  | left + 1, ptr, val => do
      let octet ← readAt pbEncoded ptr
      if octet &&& 0x80 = 0 then pure (left + 1, ptr, val)
      else continuedBytes pbEncoded left (ptr + 1) (val <<< 7 ||| (octet &&& 0x7f).toUInt32)

/-- The loop of the sizing pass: whether all numbers were complete, and the
bytes needed.  Each turn takes a byte, so the contents bound the turns. -/
def oidBytesNeeded (pbEncoded : List UInt8) :
    (fuel left ptr bytesNeeded : Nat) → Outcome Error (Bool × Nat)
  | _, 0, _, bytesNeeded => pure (true, bytesNeeded)
  | 0, _ + 1, _, bytesNeeded => pure (true, bytesNeeded)
  | fuel + 1, left + 1, ptr, bytesNeeded => do
      let (left, ptr, val) ← continuedBytes pbEncoded (left + 1) ptr 0
      if left = 0 then pure (false, bytesNeeded)
      else do
        let octet ← readAt pbEncoded ptr
        if octet &&& 0x80 ≠ 0 then pure (false, bytesNeeded)
        else
          oidBytesNeeded pbEncoded fuel (left - 1) (ptr + 1) (dword (bytesNeeded +
              (arcText (val <<< 7 ||| octet.toUInt32)).length))

/-- The loop of the pass that writes the text. -/
def oidText (pbEncoded : List UInt8) :
    (fuel left ptr : Nat) → (text : List Char) → Outcome Error (List Char)
  | _, 0, _, text => pure text
  | 0, _ + 1, _, text => pure text
  | fuel + 1, left + 1, ptr, text => do
      let (left, ptr, val) ← continuedBytes pbEncoded (left + 1) ptr 0
      let octet ← readAt pbEncoded ptr
      oidText pbEncoded fuel (left - 1) (ptr + 1) (text ++ arcText (val <<< 7 ||| octet.toUInt32))

section

variable (pbEncoded : List UInt8)

/-- The sizing pass. -/
def oidSizing (start dataLen : Nat) : Outcome Error (Bool × Nat) :=
  if dataLen = 0 then pure (true, sizeofPointer)
  else do
    let octet ← readAt pbEncoded start
    oidBytesNeeded pbEncoded dataLen (dataLen - 1) (start + 1)
      (dword (sizeofPointer + ((firstArcs octet).length + 1)))

/-- The pass that fills the structure.  After a failed sizing pass only the
text of the first byte is written, and the call fails. -/
def oidFilling (start dataLen : Nat) (ret : Bool) (pszObjId : Nat) : Outcome Error Oid :=
  if dataLen = 0 then pure ⟨.null, []⟩
  else do
    let octet ← readAt pbEncoded start
    if ret then do
      let text ← oidText pbEncoded dataLen (dataLen - 1) (start + 1) (firstArcs octet)
      pure ⟨.output pszObjId, text⟩
    else .failure .asn1Corrupt

/-- `CRYPT_AsnDecodeOidIgnoreTag` behind the header. -/
def oidContents (pvStructInfo : Option Room)
    (lenBytes dataLen : Nat) : Outcome Error (Decoded Oid) := do
  let (ret, bytesNeeded) ← oidSizing pbEncoded (1 + lenBytes) dataLen
  let size := dword (1 + lenBytes + dataLen)
  match pvStructInfo with
  | none => if ret then pure ⟨bytesNeeded, size, none⟩ else .failure .asn1Corrupt
  | some room => do
      decodeCheckSpace room.available bytesNeeded
      let oid ← oidFilling pbEncoded (1 + lenBytes) dataLen ret room.pbData
      pure ⟨bytesNeeded, size, some oid⟩

def asnDecodeOidIgnoreTag (cbEncoded : Nat)
    (pvStructInfo : Option Room) : Outcome Error (Decoded Oid) :=
  withLength pbEncoded cbEncoded (oidContents pbEncoded pvStructInfo)

end

/-! ## Entry points -/

/-- The two calls of a decoder: for the size, and, when there is a structure,
to fill it behind its fixed part. -/
def decodeTwice {info : Type} (sizeofInfo : Nat)
    (decoder : Option Room → Outcome Error (Decoded info))
    (dwFlags : UInt32) (pcbStructInfo : Option Nat) :
    Outcome Error (Decoded info) := do
  let sized ← decoder none
  match pcbStructInfo with
  | none => pure sized
  | some available => do
      decodeEnsureSpace dwFlags available sized.pcbStructInfo
      decoder (some ⟨sized.pcbStructInfo, sizeofInfo⟩)

section

variable (pbEncoded : List UInt8) (cbEncoded : Nat) (dwFlags : UInt32)

def asnDecodeBits (pcbStructInfo : Option Nat) : Outcome Error (Decoded BitBlob) :=
  if cbEncoded = 0 then .failure .asn1Corrupt
  else do
    let tag ← readAt pbEncoded 0
    if tag = asnBitstring then
      decodeTwice sizeofBitBlob
        (asnDecodeBitsInternal pbEncoded cbEncoded dwFlags) dwFlags pcbStructInfo
    else .failure .asn1Badtag

def asnDecodeInteger (pcbStructInfo : Option Nat) : Outcome Error (Decoded Blob) := do
  let tag ← readAt pbEncoded 0
  if tag = asnInteger then
    decodeTwice sizeofBlob (asnDecodeIntegerInternal pbEncoded cbEncoded) dwFlags pcbStructInfo
  else .failure .asn1Badtag

def asnDecodeUnsignedInteger (pcbStructInfo : Option Nat) : Outcome Error (Decoded Blob) :=
  decodeTwice sizeofBlob (asnDecodeUnsignedIntegerInternal pbEncoded cbEncoded)
    dwFlags pcbStructInfo

def asnDecodeInt (pcbStructInfo : Option Nat) : Outcome Error (Decoded Int32) :=
  if cbEncoded = 0 then .failure .asn1Eod
  else do
    let tag ← readAt pbEncoded 0
    if tag = asnInteger then
      decodeTwice 4 (asnDecodeIntInternal pbEncoded cbEncoded) dwFlags pcbStructInfo
    else .failure .asn1Badtag

end

/-! ## Encoders of integers -/

/-- The loop that lops off bytes of one value from the top. -/
def lopOff (pbData : List UInt8) (octet : UInt8) : Nat → Outcome Error Nat
  | 0 => pure 0
  | significantBytes + 1 => do
      let top ← readAt pbData significantBytes
      if top = octet then lopOff pbData octet significantBytes
      else pure (significantBytes + 1)

section

variable (pbData : List UInt8) (cbData : Nat)

/-- The byte `pbData[significantBytes - 1]`, with an index that wraps. -/
def topByte (significantBytes : Nat) : Outcome Error UInt8 :=
  readAt pbData (dwordPred significantBytes)

/-- The significant bytes of a negative number and whether it is padded. -/
def negativeBytes : Outcome Error (Nat × Option UInt8) := do
  let significantBytes ← lopOff pbData 0xff cbData
  let top ← topByte pbData significantBytes
  pure (significantBytes, if top < 0x80 then some 0xff else none)

/-- The significant bytes of a number without a sign and whether it is
padded. -/
def positiveBytes : Outcome Error (Nat × Option UInt8) := do
  let lopped ← lopOff pbData 0 cbData
  let significantBytes := if lopped = 0 then 1 else lopped
  let top ← topByte pbData significantBytes
  pure (significantBytes, if top > 0x7f then some 0 else none)

/-- The sign bit of the top byte decides what is lopped off. -/
def signedBytes (top : UInt8) : Outcome Error (Nat × Option UInt8) :=
  if top &&& 0x80 ≠ 0 then negativeBytes pbData cbData
  else positiveBytes pbData cbData

/-- `CRYPT_EncodeEnsureSpace`; an allocation succeeds. -/
def encodeEnsureSpace (dwFlags : UInt32) (available bytesNeeded : Nat) :
    Outcome Error Unit :=
  if allocFlag dwFlags then pure ()
  else if bytesNeeded > available then .failure (.moreData bytesNeeded)
  else pure ()

/-- The part shared by both encoders, from the significant bytes on: the size
stored for the caller and the bytes written to the buffer. -/
def encodeSignificant (significantBytes : Nat) (pad : Option UInt8)
    (dwFlags : UInt32) (pcbEncoded : Option Nat) :
    Outcome Error (Nat × List UInt8) := do
  let contents := dword (significantBytes + pad.toList.length)
  let (lenBytes, _) ← encodeLen contents none
  let bytesNeeded := dword (1 + lenBytes + significantBytes + pad.toList.length)
  match pcbEncoded with
  | none => pure (bytesNeeded, [])
  | some available => do
      encodeEnsureSpace dwFlags available bytesNeeded
      let (_, length) ← encodeLen contents (some lenBytes)
      let bytes ← copyReversed pbData 0 significantBytes
      pure (bytesNeeded, asnInteger :: length ++ pad.toList ++ bytes)

def asnEncodeInteger (dwFlags : UInt32)
    (pcbEncoded : Option Nat) : Outcome Error (Nat × List UInt8) :=
  if cbData = 0 then encodeSignificant pbData 0 none dwFlags pcbEncoded
  else do
    let top ← readAt pbData (cbData - 1)
    let (significantBytes, pad) ← signedBytes pbData cbData top
    encodeSignificant pbData significantBytes pad dwFlags pcbEncoded

def asnEncodeUnsignedInteger (dwFlags : UInt32)
    (pcbEncoded : Option Nat) : Outcome Error (Nat × List UInt8) :=
  if cbData = 0 then encodeSignificant pbData 0 none dwFlags pcbEncoded
  else do
    let (significantBytes, pad) ← positiveBytes pbData cbData
    encodeSignificant pbData significantBytes pad dwFlags pcbEncoded

end

end WineRedRose.Der
