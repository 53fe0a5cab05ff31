import WineRedRose.Library.Numerals
import WineRedRose.Library.Reads
import WineRedRose.Registry.Model

/-!
# The text form of the registry

The functions of `server/unicode.c` and `server/registry.c` that write names
and values of keys as text and read them back: `dump_strW` and `parse_strW`,
`dump_value` and `load_value` with what they call.

Text is a list of bytes.  A pointer into a line is the rest of the line from
there on, with the terminating NUL as its last byte; what follows the NUL is
out of reach, and a read there has the outcome `outside`.  So has a write
behind the end of a buffer.  Allocations succeed.
-/

namespace WineRedRose.RegText

open Library.Reads Library.Numerals Registry

/-- A byte of text. -/
abbrev Byte := UInt8

/-- The code of a 7-bit character. -/
def ch (c : Char) : Byte := UInt8.ofNat c.toNat

/-- A string literal of the source. -/
def text (chars : List Char) : List Byte := chars.map ch

variable {ε : Type}

/-- `*p` -/
def peek (p : List Byte) : Outcome ε Byte :=
  match p with
  | c :: _ => .success c
  | [] => .outside

/-- `*dest++ = unit` in a buffer with space for so many units. -/
def put (space : Nat) (out : List WChar) (unit : WChar) : Outcome ε (List WChar) :=
  if out.length < space then .success (out ++ [unit]) else .outside

/-- A size or a pointer difference as an `int`. -/
def toInt (n : Nat) : Int := Int.bmod n (2 ^ 32)

/-- A size as a `data_size_t`. -/
def dataSizeT (n : Nat) : Nat := n % 2 ^ 32

/-! ## Character classes and numbers -/

/-- The value of a hexadecimal digit, `isxdigit` and `to_hex`. -/
def hexDigit (c : Byte) : Option Nat :=
  if ch '0' ≤ c ∧ c ≤ ch '9' then some (c.toNat - (ch '0').toNat)
  else if ch 'a' ≤ c ∧ c ≤ ch 'f' then some (c.toNat - (ch 'a').toNat + 10)
  else if ch 'A' ≤ c ∧ c ≤ ch 'F' then some (c.toNat - (ch 'A').toNat + 10)
  else none

/-- `isxdigit` -/
def isxdigit (c : Byte) : Bool := (hexDigit c).isSome

/-- The value of an octal digit. -/
def octDigit (c : Byte) : Option Nat :=
  if ch '0' ≤ c ∧ c ≤ ch '7' then some (c.toNat - (ch '0').toNat) else none

/-- `isspace` -/
def isspace (c : Byte) : Bool := c = 32 || (9 ≤ c && c ≤ 13)

/-- The character of a digit as `printf` writes it. -/
def digitChar (digit : Nat) : Byte := UInt8.ofNat (if digit < 10 then 48 + digit else 87 + digit)

/-- `%0<places>x` and `%0<places>o`, for a number that fits. -/
def padded (base places number : Nat) : List Byte := (digits base places number).map digitChar

/-- `%x` and `%o`, for a number that fits in the given places. -/
def plain (base places number : Nat) : List Byte := (trim (digits base places number)).map digitChar

/-- The number after the prefix `0x`, if a digit follows it. -/
def skipPrefix : List Byte → List Byte
  | zero :: x :: digit :: rest =>
    if zero = ch '0' ∧ (x = ch 'x' ∨ x = ch 'X') ∧ isxdigit digit = true then digit :: rest
    else zero :: x :: digit :: rest
  | p => p

/-- `strtoul` with base 16: the number, and the text behind it or, without
any digit, the text itself. -/
def strtoul (p : List Byte) : Nat × List Byte :=
  let start := p.dropWhile isspace
  let negative := start.head? = some (ch '-')
  let start := if negative ∨ start.head? = some (ch '+') then start.tail else start
  let start := skipPrefix start
  let run := start.takeWhile isxdigit
  if run = [] then (0, p)
  else
    let number := min (readFrom 16 0 (run.filterMap hexDigit)) (2 ^ 64 - 1)
    (if negative then (2 ^ 64 - number) % 2 ^ 64 else number, start.drop run.length)

/-! ## Writing strings -/

/-- The table `escapes` of `dump_strW`. -/
def cEscape (c : Nat) : Option Char :=
  match c with
  | 7 => some 'a'
  | 8 => some 'b'
  | 9 => some 't'
  | 10 => some 'n'
  | 11 => some 'v'
  | 12 => some 'f'
  | 13 => some 'r'
  | 27 => some 'e'
  | _ => none

/-- The character after this one is a 7-bit hexadecimal digit. -/
def hexFollows (next : Option WChar) : Bool :=
  next.any fun unit => unit.toNat < 128 && isxdigit (UInt8.ofNat unit.toNat)

/-- The character after this one is an octal digit. -/
def octFollows (next : Option WChar) : Bool :=
  next.any fun unit => '0'.toNat ≤ unit.toNat && unit.toNat ≤ '7'.toNat

/-- What `dump_strW` writes for a character, and how many bytes more are
touched: `sprintf` ends with a NUL. -/
def dumpChar (escape : Byte × Byte) (unit : WChar) (next : Option WChar) : List Byte × Nat :=
  let c := unit.toNat
  if c > 127 then
    if hexFollows next then (text ['\\', 'x'] ++ padded 16 4 c, 1)
    else (text ['\\', 'x'] ++ plain 16 4 c, 1)
  else if c < 32 then
    match cEscape c with
    | some letter => (text ['\\', letter], 1)
    | none =>
      if octFollows next then (text ['\\'] ++ padded 8 3 c, 1)
      else (text ['\\'] ++ plain 8 3 c, 1)
  else
    let b := UInt8.ofNat c
    if b = ch '\\' ∨ b = escape.1 ∨ b = escape.2 then ([ch '\\', b], 0)
    else ([b], 0)

/-- The size of the staging buffer. -/
def stageSize : Nat := 256

/-- The loop of `dump_strW`: what is in the staging buffer, and what has gone
to the file. -/
def dumpLoop (escape : Byte × Byte) :
    (str : List WChar) → (buffer file : List Byte) → Outcome ε (List Byte)
  | [], buffer, file => .success (file ++ buffer)
  | unit :: rest, buffer, file =>
    let full := buffer.length > stageSize - 8
    let file := if full then file ++ buffer else file
    let buffer := if full then [] else buffer
    let (piece, more) := dumpChar escape unit rest.head?
    if buffer.length + piece.length + more ≤ stageSize then
      dumpLoop escape rest (buffer ++ piece) file
    else .outside

/-- `dump_strW` -/
def dumpStrW (str : List WChar) (escape : Byte × Byte) : Outcome ε (List Byte) :=
  dumpLoop escape str [] []

/-! ## Reading strings -/

/-- `utf8_length`, for a byte above `0x7f`. -/
def utf8Length (c : Nat) : Nat :=
  if c < 0xc2 then 0
  else if c < 0xe0 then 1
  else if c < 0xf0 then 2
  else if c < 0xf5 then 3
  else 0

/-- `utf8_mask` -/
def utf8Mask (charlen : Nat) : Nat :=
  match charlen with
  | 0 => 0x7f
  | 1 => 0x1f
  | 2 => 0x0f
  | _ => 0x07

/-- `utf8_minval` -/
def utf8Minval (charlen : Nat) : Nat :=
  match charlen with
  | 0 => 0
  | 1 => 0x80
  | 2 => 0x800
  | _ => 0x10000

/-- The letters that stand for control characters. -/
def letterEscape (c : Byte) : Option WChar :=
  if c = ch 'a' then some 7
  else if c = ch 'b' then some 8
  else if c = ch 'e' then some 27
  else if c = ch 'f' then some 12
  else if c = ch 'n' then some 10
  else if c = ch 'r' then some 13
  else if c = ch 't' then some 9
  else if c = ch 'v' then some 11
  else none

/-- Digits as long as there are any, but no more than so many. -/
def readDigits (digit : Byte → Option Nat) (base : Nat) :
    (limit number : Nat) → (p : List Byte) → Outcome ε (Nat × List Byte)
  | 0, number, p => .success (number, p)
  | limit + 1, number, p => do
      let c ← peek p
      match digit c with
      | some d => readDigits digit base limit (number * base + d) p.tail
      | none => .success (number, p)

/-- Where the loop of `parse_strW` is: whether it goes on, the source and what
has been written. -/
structure Reading where
  goesOn : Bool
  p : List Byte
  out : List WChar
deriving DecidableEq, Repr

/-- A unit is written and the loop goes on. -/
def write (space : Nat) (p : List Byte) (out : List WChar) (unit : WChar) :
    Outcome ε Reading := do
  let out ← put space out unit
  pure ⟨true, p, out⟩

/-- A hexadecimal escape, behind the `x`. -/
def hexEscape (space : Nat) (p : List Byte) (out : List WChar) :
    Outcome ε Reading := do
  let c ← peek p
  match hexDigit c with
  | none => write space p out (wchar 'x')
  | some d => do
      let (number, p) ← readDigits hexDigit 16 3 d p.tail
      write space p out (BitVec.ofNat 16 number)

/-- An octal escape, behind its first digit. -/
def octEscape (space d : Nat) (p : List Byte) (out : List WChar) :
    Outcome ε Reading := do
  let (number, p) ← readDigits octDigit 8 2 d p
  write space p out (BitVec.ofNat 16 number)

/-- The continuation bytes of a UTF-8 sequence; nothing if one is wrong. -/
def utf8Tail : (left res : Nat) → (p : List Byte) → Outcome ε (Option Nat × List Byte)
  | 0, res, p => .success (some res, p)
  | left + 1, res, p => do
      let c ← peek p
      let c := c ^^^ 0x80
      if c ≥ 0x40 then .success (none, p)
      else utf8Tail left (res <<< 6 ||| c.toNat) p.tail

/-- A code point of a UTF-8 sequence of valid form. -/
def writeCodePoint (space room charlen res : Nat) (p : List Byte)
    (out : List WChar) : Outcome ε Reading :=
  if res < utf8Minval charlen ∨ res > 0x10ffff then .success ⟨true, p, out⟩
  else if res ≤ 0xffff then write space p out (BitVec.ofNat 16 res)
  else do
    let res := res - 0x10000
    let out ← put space out (BitVec.ofNat 16 (0xd800 ||| res >>> 10))
    if out.length < room then write space p out (BitVec.ofNat 16 (0xdc00 ||| (res &&& 0x3ff)))
    else .success ⟨true, p, out⟩

/-- A character as it stands in the source. -/
def plainChar (space room : Nat) (c : Byte) (p : List Byte)
    (out : List WChar) : Outcome ε Reading :=
  if c < 0x80 then write space p out (BitVec.ofNat 16 c.toNat)
  else
    let charlen := utf8Length c.toNat
    if charlen = 0 then .success ⟨true, p, out⟩
    else do
      let (res, p) ← utf8Tail charlen (c.toNat &&& utf8Mask charlen) p
      match res with
      | none => .success ⟨true, p, out⟩
      | some res => writeCodePoint space room charlen res p out

/-- What follows a backslash; an escape that is not known is a character as it
stands. -/
def escapeChar (space room : Nat) (c : Byte) (p : List Byte)
    (out : List WChar) : Outcome ε Reading :=
  match letterEscape c with
  | some unit => write space p out unit
  | none =>
    if c = ch 'x' then hexEscape space p out
    else
      match octDigit c with
      | some d => octEscape space d p out
      | none => plainChar space room c p out

/-- One turn of the loop of `parse_strW`, in a buffer with space for so many
units, of which it may use the given room. -/
def parseTurn (space room : Nat) (endchar : Byte) (p : List Byte)
    (out : List WChar) : Outcome ε Reading := do
  let c ← peek p
  if c = 0 ∨ c = endchar ∨ room ≤ out.length then .success ⟨false, p, out⟩
  else if c = ch '\\' then do
    let p := p.tail
    let c ← peek p
    if c = 0 then .success ⟨false, p, out⟩
    else escapeChar space room c p.tail out
  else plainChar space room c p.tail out

/-- The loop of `parse_strW`.  Each turn goes on in the source, so more turns
than there are bytes would have left it. -/
def parseLoop (space room : Nat) (endchar : Byte) :
    (turns : Nat) → (p : List Byte) → (out : List WChar) → Outcome ε Reading
  | 0, _, _ => .outside
  | turns + 1, p, out => do
      let reading ← parseTurn space room endchar p out
      if reading.goesOn then parseLoop space room endchar turns reading.p reading.out
      else .success reading

/-- The results of `parse_strW`: its return value, `*len` afterwards and what
is in the buffer. -/
structure Parsed where
  ret : Int
  len : Nat
  units : List WChar
deriving DecidableEq, Repr

/-- `parse_strW` with a buffer that has space for so many units. -/
def parseStrW (space len : Nat) (src : List Byte) (endchar : Byte) :
    Outcome ε Parsed := do
  let reading ← parseLoop space (len / 2) endchar (src.length + 1) src []
  if len / 2 ≤ reading.out.length then .success ⟨-1, len, reading.out⟩
  else do
    let out ← put space reading.out 0
    let c ← peek reading.p
    if c = 0 then .success ⟨-1, len, out⟩
    else
      .success
        { ret := toInt (src.length - reading.p.length + 1)
          len := dataSizeT (out.length * 2)
          units := out }

/-! ## Writing values -/

def regNone : BitVec 32 := 0

def regSz : BitVec 32 := 1

def regExpandSz : BitVec 32 := 2

def regBinary : BitVec 32 := 3

def regDword : BitVec 32 := 4

def regMultiSz : BitVec 32 := 7

/-- The escapes of quoted strings. -/
def quotes : Byte × Byte := (ch '"', ch '"')

/-- The escapes of key names. -/
def brackets : Byte × Byte := (ch '[', ch ']')

/-- The data as `WCHAR`s; an odd byte at the end is dropped. -/
def unitsOf : List (BitVec 8) → List WChar
  | low :: high :: rest => BitVec.ofNat 16 (low.toNat + 2 ^ 8 * high.toNat) :: unitsOf rest
  | _ => []

/-- The data of `WCHAR`s. -/
def bytesOf : List WChar → List (BitVec 8)
  | [] => []
  | unit :: rest => BitVec.ofNat 8 unit.toNat :: BitVec.ofNat 8 (unit.toNat / 2 ^ 8) :: bytesOf rest

/-- Only properly terminated strings are written as strings. -/
def isString (value : KeyValue) : Bool :=
  (value.type = regSz || value.type = regExpandSz || value.type = regMultiSz) &&
    !decide (value.data.length < 2) && value.data.length % 2 = 0 &&
    (unitsOf value.data).getLast? = some 0

/-- The bytes of a value in hexadecimal, with lines broken by the column. -/
def dumpHex : (count : Nat) → List (BitVec 8) → List Byte
  | _, [] => []
  | _, [last] => padded 16 2 last.toNat
  | count, byte :: next :: rest =>
    let count := count + 2 + 1
    padded 16 2 byte.toNat ++ text [','] ++
      if count > 76 then text ['\\', '\n', ' ', ' '] ++ dumpHex 2 (next :: rest)
      else dumpHex count (next :: rest)

/-- The name of a value up to the equals sign, and the column. -/
def dumpName (value : KeyValue) : Outcome ε (List Byte × Nat) :=
  if value.name ≠ [] then do
    let name ← dumpStrW value.name quotes
    let front := text ['"'] ++ name ++ text ['"', '$'] ++ plain 16 8 value.order
    pure (front ++ text ['='], front.length)
  else pure (text ['@', '='], 2)

/-- The tag of data in hexadecimal. -/
def hexTag (type : BitVec 32) : List Byte :=
  if type = regBinary then text ['h', 'e', 'x', ':']
  else text ['h', 'e', 'x', '('] ++ plain 16 8 type.toNat ++ text [')', ':']

/-- `dump_value` -/
def dumpValue (value : KeyValue) : Outcome ε (List Byte) := do
  let (name, count) ← dumpName value
  if isString value then do
    let string ← dumpStrW (unitsOf value.data).dropLast quotes
    let tag :=
      if value.type ≠ regSz then
        text ['s', 't', 'r', '('] ++ plain 16 8 value.type.toNat ++ text [')', ':']
      else []
    pure (name ++ tag ++ text ['"'] ++ string ++ text ['"', '\n'])
  else if value.type = regDword ∧ value.data.length = 4 then
    let dw := value.data.foldr (fun byte number => byte.toNat + 2 ^ 8 * number) 0
    pure (name ++ text ['d', 'w', 'o', 'r', 'd', ':'] ++ padded 16 8 dw ++ text ['\n'])
  else
    let tag := hexTag value.type
    pure (name ++ tag ++ dumpHex (count + tag.length) value.data ++ text ['\n'])

/-! ## Reading values -/

/-- How the data after a tag is read. -/
inductive ParseType where
  | string
  | binary
  | dword
deriving DecidableEq, Repr

/-- The table `data_types`; `none` is the type `-1`. -/
def dataTypes : List (List Byte × Option (BitVec 32) × ParseType) :=
  [(text ['"'], some regSz, .string), (text ['s', 't', 'r', ':', '"'], some regSz, .string),
    (text ['s', 't', 'r', '(', '2', ')', ':', '"'], some regExpandSz, .string),
    (text ['s', 't', 'r', '(', '7', ')', ':', '"'], some regMultiSz, .string),
    (text ['h', 'e', 'x', ':'], some regBinary, .binary),
    (text ['d', 'w', 'o', 'r', 'd', ':'], some regDword, .dword),
    (text ['h', 'e', 'x', '('], none, .binary)]

/-- `get_data_type`: the type, the way to parse and the text behind the tag. -/
def getDataType (buffer : List Byte) : Option (BitVec 32 × ParseType × List Byte) :=
  match dataTypes.find? fun entry => entry.1.isPrefixOf buffer with
  | none => none
  | some (tag, some type, parseType) => some (type, parseType, buffer.drop tag.length)
  | some (_, none, parseType) =>
    let (type, rest) := strtoul (buffer.drop 4)
    if (text [')', ':']).isPrefixOf rest then some (BitVec.ofNat 32 type, parseType, rest.drop 2)
    else none

/-- `while (isspace(*p)) p++` -/
def skipSpace (p : List Byte) : List Byte := p.dropWhile isspace

/-- One number of `parse_hex` and the separators behind it. -/
def parseHexByte (p : List Byte) : Nat × List Byte :=
  let (number, rest) := strtoul p
  let rest := skipSpace rest
  let rest := if rest.head? = some (ch ',') then rest.tail else rest
  (number % 2 ^ 32, skipSpace rest)

/-- The loop of `parse_hex`, with the space and the room that are left: the
bytes and the text behind them, or nothing if a number is too large or the room
is used up. -/
def parseHexLoop : (turns space room : Nat) → (p : List Byte) →
    Outcome ε (Option (List (BitVec 8) × List Byte))
  | 0, _, _, p => .success (some ([], p))
  | turns + 1, space, room, p =>
    if p.head?.any isxdigit then
      let (number, rest) := parseHexByte p
      if number > 0xff then .success none
      else if room = 0 then .success none
      else if space = 0 then .outside
      else do
        let parsed ← parseHexLoop turns (space - 1) (room - 1) rest
        .success (parsed.map fun (bytes, rest) => (BitVec.ofNat 8 number :: bytes, rest))
    else .success (some ([], p))

/-- `parse_hex`; an `int` holds the length of the text. -/
def parseHex (space room : Nat) (buffer : List Byte) :
    Outcome ε (Option (List (BitVec 8) × List Byte)) :=
  if buffer.length < 2 ^ 31 then parseHexLoop buffer.length space room buffer
  else .outside

/-- `struct file_load_info`: the rest of the file, the size of the line buffer
and the size of the temp buffer. -/
structure FileLoadInfo where
  file : List Byte
  len : Nat
  tmplen : Nat
deriving DecidableEq, Repr

/-- The next size of the line buffer. -/
def growBuffer (len : Nat) : Nat := len + len / 2

/-- The size of the line buffer when it has been enlarged to hold so much.  The
size is an `int`. -/
def enlargeBuffer (needed : Nat) : (turns len : Nat) → Option Nat
  | 0, len => if needed ≤ len then some len else none
  | turns + 1, len =>
    if needed ≤ len then some len
    else if growBuffer len < 2 ^ 31 then enlargeBuffer needed turns (growBuffer len)
    else none

/-- A line without the carriage return at its end. -/
def stripReturn (line : List Byte) : List Byte :=
  if line.getLast? = some (ch '\r') then line.dropLast else line

/-- `read_next_line`, for text without NULs.  The buffer is enlarged until it
holds a byte more than the line and its NUL: the newline, or the sign that the
file has ended. -/
def readNextLine (info : FileLoadInfo) : Option (List Byte × FileLoadInfo) :=
  if info.file = [] then none
  else
    let line := info.file.takeWhile (· ≠ ch '\n')
    let file := (info.file.dropWhile (· ≠ ch '\n')).tail
    match enlargeBuffer (line.length + 2) (line.length + 2) info.len with
    | none => none
    | some len => some (stripReturn line, { info with file := file, len := len })

/-- `get_file_tmp_space` -/
def getFileTmpSpace (info : FileLoadInfo) (size : Nat) : FileLoadInfo :=
  if info.tmplen ≥ size then info else { info with tmplen := size }

/-- The size of the local buffer of `parse_value_name`. -/
def bufSize : Nat := 512

/-- The copy of the order up to the equals sign into the local buffer: the
digits, or nothing if there is something else. -/
def copyOrder : (p : List Byte) → (buf : List Byte) → Outcome ε (Option (List Byte))
  | [], _ => .outside
  | c :: rest, buf =>
    if c = ch '=' then .success (some buf)
    else if buf.length < bufSize then
      if isxdigit c then copyOrder rest (buf ++ [c]) else .success none
    else .outside

/-- The order in the local buffer, which is zero behind the digits; `-1` is
none. -/
def orderOf (digits beyond : List Byte) : Option Nat :=
  let order := (strtoul (digits ++ List.replicate (bufSize - digits.length) 0 ++ beyond)).1 % 2 ^ 32
  if order = 2 ^ 32 - 1 then none else some order

/-- `buffer[index]` of a line with its NUL. -/
def charAt (line : List Byte) (index : Nat) : Outcome ε Byte := readAt (line ++ [0]) index

/-- `while (isspace(buffer[*len])) (*len)++` -/
def skipSpaceFrom (line : List Byte) : (turns len : Nat) → Outcome ε Nat
  | 0, _ => .outside
  | turns + 1, len => do
      let c ← charAt line len
      if isspace c then skipSpaceFrom line turns (len + 1) else .success len

/-- The quoted name or the `@` of a line: the name and the position behind
it. -/
def parseQuoted (line : List Byte) (tmplen : Nat) : Outcome ε (Option (Name × Nat)) := do
  let first ← charAt line 0
  if first = ch '@' then .success (some ([], 1))
  else do
    let parsed ← parseStrW (tmplen / 2) (dataSizeT tmplen) (line ++ [0]).tail (ch '"')
    if parsed.ret = -1 then .success none
    else .success (some (parsed.units.take (parsed.len / 2 - 1), ((parsed.ret + 1) % 2 ^ 32).toNat))

/-- The order behind a `$`: the order and the position behind it. -/
def parseOrder (line : List Byte) (len : Nat) (beyond : List Byte) :
    Outcome ε (Option (Option Nat × Nat)) := do
  let c ← charAt line len
  if c = ch '$' then do
    let digits ← copyOrder (line.drop (len + 1) ++ [0]) []
    match digits with
    | none => .success none
    | some [] => .success none
    | some digits => .success (some (orderOf digits beyond, len + (digits.length + 1)))
  else .success (some (none, len))

variable (lower : WChar → WChar)

section

variable (key : Key) (line : List Byte) (info : FileLoadInfo)

/-- The value of a name, made if it is not there: the key and the index. -/
def findOrInsert (name : Name) (order : Option Nat) : Option (Key × Nat) :=
  match findValue lower key name with
  | (some _, index) => some (key, index)
  | (none, index) =>
    match insertValue key name index order regNone [] with
    | .error _ => none
    | .ok key => some (key, index)

/-- The part of `parse_value_name` behind the order. -/
def parseEquals (name : Name) (order : Option Nat)
    (len : Nat) : Outcome ε (Option (Key × Nat × Nat)) := do
  let c ← charAt line len
  if c = ch '=' then do
    let len ← skipSpaceFrom line (line.length + 1) (len + 1)
    .success ((findOrInsert lower key name order).map fun (key, index) => (key, index, len))
  else .success none

/-- `parse_value_name`: the key, the index of the value and the position of the
data; nothing after an error.  The last argument is what lies behind the local
buffer. -/
def parseValueName (beyond : List Byte) : Outcome ε (Option (Key × Nat × Nat)) := do
  let info := getFileTmpSpace info (line.length * 2)
  let quoted ← parseQuoted line info.tmplen
  match quoted with
  | none => .success none
  | some (name, len) => do
      let len ← skipSpaceFrom line (line.length + 1) len
      let ordered ← parseOrder line len beyond
      match ordered with
      | none => .success none
      | some (order, len) => parseEquals lower key line name order len

/-- The data in hexadecimal over all its lines, with what has been read so far;
nothing after an error. -/
def loadHex : (turns : Nat) → (data : List (BitVec 8)) → (buffer : List Byte) →
    FileLoadInfo → Outcome ε (Option (List (BitVec 8)) × FileLoadInfo)
  | 0, _, _, _ => .outside
  | turns + 1, data, buffer, info => do
      let maxlen := dataSizeT (1 + buffer.length / 2)
      let info := getFileTmpSpace info (dataSizeT (data.length + maxlen))
      let parsed ← parseHex (info.tmplen - data.length) maxlen buffer
      match parsed with
      | none => .success (none, info)
      | some (bytes, rest) =>
        let data := data ++ bytes
        match skipSpace rest with
        | [] => .success (some data, info)
        | c :: _ =>
          if c = ch '\\' then
            match readNextLine info with
            | none => .success (none, info)
            | some (line, info) => loadHex turns data (skipSpace line) info
          else .success (none, info)

/-- The data behind a tag; nothing after an error. -/
def loadData (parseType : ParseType) (buffer : List Byte) (info : FileLoadInfo) :
    Outcome ε (Option (List (BitVec 8)) × FileLoadInfo) :=
  match parseType with
  | .string => do
      let info := getFileTmpSpace info (buffer.length * 2)
      let parsed ← parseStrW (info.tmplen / 2) (dataSizeT info.tmplen) (buffer ++ [0]) (ch '"')
      if parsed.ret = -1 then .success (none, info)
      else .success (some ((bytesOf parsed.units).take parsed.len), info)
  | .dword =>
    let dw := (strtoul buffer).1 % 2 ^ 32
    .success (some ((List.range 4).map fun i => BitVec.ofNat 8 (dw / 2 ^ (8 * i))), info)
  | .binary => loadHex (info.file.length + 1) [] buffer info

/-- The data and the type of the value at an index. -/
def setData (index : Nat) (type : BitVec 32) (data : List (BitVec 8)) : Key :=
  { key with
    values := key.values.modify index fun value =>
      { value with type := type, data := data } }

/-- `load_value`: its return value and the key. -/
def loadValue (beyond : List Byte) : Outcome ε (Bool × Key × FileLoadInfo) := do
  let named ← parseValueName lower key line info beyond
  let info := getFileTmpSpace info (line.length * 2)
  match named with
  | none => .success (false, key, info)
  | some (key, index, len) =>
    match getDataType (line.drop len) with
    | none => .success (false, setData key index regNone [], info)
    | some (type, parseType, buffer) => do
        let (loaded, info) ← loadData parseType buffer info
        match loaded with
        | none => .success (false, setData key index regNone [], info)
        | some data => .success (true, setData key index type data, info)

end

/-- The line is that of a value. -/
def isValueLine (line : List Byte) : Bool :=
  line.head? = some (ch '@') || line.head? = some (ch '"')

/-- A turn of the loop of `load_keys` that reads the line of a value into a
key; nothing if there is no such line. -/
def loadKeysValue (key : Key) (info : FileLoadInfo) (beyond : List Byte) :
    Outcome ε (Option (Bool × Key × FileLoadInfo)) :=
  match readNextLine info with
  | none => .success none
  | some (line, info) =>
    let line := skipSpace line
    if isValueLine line then do
      let loaded ← loadValue lower key line info beyond
      .success (some loaded)
    else .success none

end WineRedRose.RegText
