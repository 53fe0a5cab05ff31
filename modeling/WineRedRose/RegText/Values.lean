import WineRedRose.RegText.Bytes
import WineRedRose.RegText.ValueNames

/-!
# Values read back

What `dump_value` has written is read by `load_keys` and `load_value`.  A value
comes back with its name, its type and its data.  What stands in the way is only
the size: a string is one line, which the line buffer has to hold, and the size
of the temp buffer for bytes in hexadecimal is computed in 32 bits.
-/

namespace WineRedRose.RegText

open Library.Reads Library.Numerals Library.SortedArray Registry List

variable {ε : Type}

/-! ## The name -/

theorem takeWhile_space_of_head {p : List Byte} (text : ∀ c ∈ p.head?, isspace c = false) :
    p.takeWhile isspace = [] := by
  cases p with
  | nil => rfl
  | cons c p => exact takeWhile_cons_of_neg (by simp [text c rfl])

theorem toInt_of_lt {n : Nat} (small : n < 2 ^ 31) : toInt n = n := (toInt_eq_iff n).mpr small

variable {front buffer : List Byte} {data : List (BitVec 8)} {type : BitVec 32}
variable {parseType : ParseType}

theorem parseQuoted_dumpText {name : Name}
    (written : front = ch '"' :: dumpText quotes name ++ [ch '"']) (rest : List Byte) {tmplen : Nat}
    (space : (front ++ rest).length * 2 ≤ tmplen) (size : tmplen < 2 ^ 32) :
    parseQuoted (front ++ rest) tmplen = (.success (some (name, front.length)) : Outcome ε _) := by
  have longer := length_le_dumpText quotes name
  have line : front ++ rest = ch '"' :: (dumpText quotes name ++ ch '"' :: rest) := by
    simp [written]
  have count : front.length = (dumpText quotes name).length + 2 := by simp [written]
  have first : charAt (ch '"' :: (dumpText quotes name ++ ch '"' :: rest)) 0 =
      (.success (ch '"') : Outcome ε Byte) := rfl
  rw [length_append] at space
  have parsed : parseStrW (tmplen / 2) tmplen
      (dumpText quotes name ++ ch '"' :: (rest ++ [0])) (ch '"') =
        (.success ⟨toInt ((dumpText quotes name).length + 1), (name.length + 1) * 2,
          name ++ [0]⟩ : Outcome ε Parsed) :=
    parseStrW_dumpText .value name (rest ++ [0]) (by omega) (Nat.le_refl _) size
  rw [parseQuoted, line, first, success_bind, if_neg (by decide), dataSizeT_of_lt size,
    cons_append, tail_cons, append_assoc, cons_append, parsed,
    success_bind]
  dsimp only
  rw [toInt_of_lt (by omega), if_neg (by omega), Nat.mul_div_cancel _ (by decide),
    Nat.add_sub_cancel, take_left, count]
  congr 3
  omega

/-- The digits of an order are copied up to the equals sign. -/
theorem copyOrder_digits {run buf : List Byte} (digits : ∀ c ∈ run, isxdigit c = true)
    (fits : buf.length + run.length ≤ bufSize) (tail : List Byte) :
    copyOrder (run ++ ch '=' :: tail) buf =
      (.success (some (buf ++ run)) : Outcome ε (Option (List Byte))) := by
  induction run generalizing buf with
  | nil => rw [nil_append, copyOrder, if_pos rfl, append_nil]
  | cons c run ih =>
    rcases forall_mem_cons.mp digits with ⟨digit, later⟩
    rw [length_cons] at fits
    have other : c ≠ ch '=' := by
      rintro rfl
      exact absurd digit (by decide)
    rw [cons_append, copyOrder, if_neg other, if_pos (by omega), if_pos digit,
      ih later (by rw [length_append, length_singleton]; omega),
      append_assoc, singleton_append]

theorem plain_digits (places number : Nat) :
    ∀ c ∈ plain 16 (places + 1) number, isxdigit c = true := by
  intro c member
  rcases mem_map.mp member with ⟨d, inside, rfl⟩
  exact (digitChar_facts d (digits_lt (by decide) d (mem_of_mem_trim inside))).1

theorem plain_ne_nil (places number : Nat) : plain 16 (places + 1) number ≠ [] := by
  rw [plain, Ne, map_eq_nil_iff]
  exact trim_ne_nil (cons_ne_nil _ _)

theorem plain_length_le (base places number : Nat) :
    (plain base places number).length ≤ places := by
  rw [plain, length_map]
  exact (trim_length_le _).trans (digits_length base places number).le

variable {rest : List Byte} {beyond : List Byte}

theorem parseOrder_plain (front rest beyond : List Byte) (order : Nat) :
    parseOrder (front ++ ch '$' :: (plain 16 8 order ++ ch '=' :: rest)) front.length beyond =
      (.success (some (orderOf (plain 16 8 order) beyond,
        (front ++ ch '$' :: plain 16 8 order).length)) :
          Outcome ε (Option (Option Nat × Nat))) := by
  have behind : (front ++ ch '$' :: (plain 16 8 order ++ ch '=' :: rest)).drop
      (front.length + 1) ++ [0] = plain 16 8 order ++ ch '=' :: (rest ++ [0]) := by
    rw [drop_append]
    simp
  have length := plain_length_le 16 8 order
  have some : plain 16 8 order ≠ [] := plain_ne_nil 7 order
  have digits : ∀ c ∈ plain 16 8 order, isxdigit c = true := plain_digits 7 order
  have position : front.length + ((plain 16 8 order).length + 1) =
      (front ++ ch '$' :: plain 16 8 order).length := by
    rw [length_append, length_cons]
  rw [parseOrder, charAt_append, success_bind, if_pos (by rfl), behind, copyOrder_digits digits (by
      rw [length_nil, bufSize]
      omega), success_bind, nil_append]
  generalize plain 16 8 order = written at some position
  rcases written with _ | ⟨c, written⟩
  · exact absurd rfl some
  · dsimp only
    rw [position]

variable (lower : WChar → WChar)

variable {key : Key}

theorem parseEquals_append (name : Name) (order : Option Nat) (front : List Byte) {rest : List Byte}
    (text : ∀ c ∈ rest.head?, isspace c = false) :
    parseEquals lower key (front ++ ch '=' :: rest) name order front.length =
      (.success ((findOrInsert lower key name order).map
        fun (key, index) => (key, index, (front ++ [ch '=']).length)) :
          Outcome ε (Option (Key × Nat × Nat))) := by
  rw [parseEquals, charAt_append, success_bind, if_pos (by rfl), skipSpaceFrom_succ,
    success_bind, takeWhile_space_of_head text]

/-- Behind the name comes the order or the equals sign. -/
theorem parseValueName_quoted {info : FileLoadInfo} {name : Name} {behind : List Byte}
    (quoted : parseQuoted (front ++ behind)
        (getFileTmpSpace info ((front ++ behind).length * 2)).tmplen =
      (.success (some (name, front.length)) : Outcome ε _))
    (text : ∀ c ∈ behind.head?, isspace c = false) :
    parseValueName lower key (front ++ behind) info beyond = (do
        let ordered ← parseOrder (front ++ behind) front.length beyond
        match ordered with
        | none => .success none
        | some (order, len) =>
          parseEquals lower key (front ++ behind) name order len :
          Outcome ε (Option (Key × Nat × Nat))) := by
  have enough : behind.length < (front ++ behind).length + 1 := by
    rw [length_append]
    omega
  rw [parseValueName, quoted, success_bind]
  dsimp only
  rewrite [skipSpaceFrom_append front behind enough, success_bind, takeWhile_space_of_head text,
    append_nil]
  rfl

theorem head_not_space {c : Byte} (visible : isspace c = false) (p : List Byte) :
    ∀ d ∈ (c :: p).head?, isspace d = false := by
  intro d head
  rw [← Option.some.inj head]
  exact visible

variable {info : FileLoadInfo} {value : KeyValue}

variable (ε) in
/-- The name of a value leads to its data. -/
theorem parseValueName_nameText (sound : info.Sound) {rest : List Byte}
    (text : ∀ c ∈ rest.head?, isspace c = false) (held : info.Holds (nameText value ++ rest)) :
    ∃ order, parseValueName lower key (nameText value ++ rest) info beyond =
      (.success ((findOrInsert lower key value.name order).map
        fun (key, index) => (key, index, (nameText value).length)) :
          Outcome ε (Option (Key × Nat × Nat))) := by
  have size := held.size_lt sound
  have tmp := getFileTmpSpace_tmplen info ((nameText value ++ rest).length * 2)
  have small := (sound_getFileTmpSpace sound size).tmplen_lt
  by_cases named : value.name ≠ []
  · obtain ⟨front, written⟩ : ∃ front, front = ch '"' :: dumpText quotes value.name ++ [ch '"'] :=
      ⟨_, rfl⟩
    have shape : nameText value = front ++ ch '$' :: plain 16 8 value.order ++ [ch '='] := by
      rw [nameText, if_pos named, written]
      simp [RegText.text]
    have line : nameText value ++ rest =
        front ++ ch '$' :: (plain 16 8 value.order ++ ch '=' :: rest) := by
      rw [shape]
      simp
    have equals : nameText value ++ rest =
        (front ++ ch '$' :: plain 16 8 value.order) ++ ch '=' :: rest := by
      rw [shape]
      simp
    refine ⟨orderOf (plain 16 8 value.order) beyond, ?_⟩
    rw [line] at tmp small ⊢
    have quoted := @parseQuoted_dumpText ε _ _ written _ _ ((le_max_right _ _).trans tmp.ge) small
    rw [parseValueName_quoted lower quoted (head_not_space (by decide) _),
      parseOrder_plain, success_bind]
    dsimp only
    rw [← line, equals, parseEquals_append lower _ _ _ text, shape]
  · have shape : nameText value = [ch '@'] ++ [ch '='] := by
      rw [nameText, if_neg named]
      rfl
    have line : nameText value ++ rest = [ch '@'] ++ ch '=' :: rest := by
      rw [shape]
      rfl
    refine ⟨none, ?_⟩
    rw [not_not.mp named, line, parseValueName_quoted lower rfl
      (head_not_space (by decide) _), parseOrder, charAt_append, headD_cons,
      success_bind, if_neg (show ch '=' ≠ ch '$' by decide), success_bind]
    dsimp only
    rw [parseEquals_append lower _ _ _ text, shape]

/-! ## The data -/

/-- A key has become another by one new value of the given name, type and
data. -/
def CreatesValue (key made : Key) (name : Name) (type : BitVec 32)
    (data : List (BitVec 8)) : Prop :=
  ∃ before after created, key.values = before ++ after ∧ made.values = before ++ created :: after ∧
    created.name = name ∧ created.type = type ∧ created.data = data ∧
    { made with values := key.values, nbValues := key.nbValues } = key

/-- A value that is not there is made with the name, and then gets its type and
its data. -/
theorem findOrInsert_absent {key : Key} {name : Name} (length : name.length ≤ maxValueLen)
    (absent : ∀ other ∈ key.values, foldName lower other.name ≠ foldName lower name)
    (order : Option Nat) : ∃ made index, findOrInsert lower key name order = some (made, index) ∧
      ∀ type data, CreatesValue key (setData made index type data) name type data := by
  have differs : ∀ other ∈ key.values, compareName lower other.name name ≠ 0 :=
    fun other member same =>
      absent other member ((compareName_order lower other.name name).2.mp same)
  rcases search_absent differs with ⟨index, inside, found⟩
  obtain ⟨before, after, split, rfl⟩ := exists_parts inside
  rw [findOrInsert, findValue, found]
  dsimp only
  rw [insertValue, if_neg (Nat.not_lt_of_le length)]
  refine ⟨_, _, rfl, fun type data => ⟨before, after,
    ⟨name, type, data, order.getD key.values.length⟩, split, ?_, rfl, rfl, rfl, rfl⟩⟩
  simp only [setData]
  rw [insertSlot_eq inside, split, insertIdx_place, modify_place]

theorem bytesOf_unitsOf (even : data.length % 2 = 0) : bytesOf (unitsOf data) = data := by
  induction data using unitsOf.induct with
  | case1 low high rest ih =>
    rw [length_cons, length_cons] at even
    rw [unitsOf, bytesOf, ih (by omega)]
    congr 2
    · apply BitVec.eq_of_toNat_eq
      simp only [BitVec.toNat_ofNat]
      omega
    · apply BitVec.eq_of_toNat_eq
      simp only [BitVec.toNat_ofNat]
      omega
  | case2 data odd =>
    rcases data with _ | ⟨low, _ | ⟨high, rest⟩⟩
    · rfl
    · exact absurd even (by simp)
    · exact absurd rfl (odd low high rest)

theorem bytesOf_length (units : List WChar) : (bytesOf units).length = units.length * 2 := by
  induction units with
  | nil => rfl
  | cons unit rest ih =>
    rw [bytesOf, length_cons, length_cons, ih, length_cons]
    ring

/-- The units of a string that is written as one. -/
theorem isString_units (string : isString value = true) :
    (value.type = regSz ∨ value.type = regExpandSz ∨ value.type = regMultiSz) ∧
      bytesOf ((unitsOf value.data).dropLast ++ [0]) = value.data := by
  simp only [isString, Bool.and_eq_true, Bool.or_eq_true, decide_eq_true_eq] at string
  rcases string with ⟨⟨⟨types, _⟩, even⟩, terminated⟩
  refine ⟨or_assoc.mp types, ?_⟩
  rw [dropLast_append_getLast? _ terminated, bytesOf_unitsOf even]

theorem getDataType_string (types : type = regSz ∨ type = regExpandSz ∨ type = regMultiSz) :
    getDataType (stringTag type ++ (text ['"'] ++ rest)) = some (type, .string, rest) := by
  rcases types with rfl | rfl | rfl
  · rfl
  · rfl
  · rfl

theorem getDataType_dword :
    getDataType (text ['d', 'w', 'o', 'r', 'd', ':'] ++ rest) = some (regDword, .dword, rest) := rfl

theorem getDataType_hex (type : BitVec 32) (rest : List Byte) :
    getDataType (hexTag type ++ rest) = some (type, .binary, rest) := by
  unfold hexTag
  split_ifs with binary
  · rw [binary]
    rfl
  · have written : Writes 16 8 type.toNat (trim (digits 16 8 type.toNat)) :=
      (writes_digits (by decide) (show type.toNat < 16 ^ (7 + 1) by omega)).trim
    have number : strtoul (plain 16 8 type.toNat ++ (text [')', ':'] ++ rest)) =
        (type.toNat, text [')', ':'] ++ rest) :=
      strtoul_writes written (by omega) (by
        intro c head
        rw [← Option.some.inj head]
        unfold EndsNumber
        decide)
    have entry : getDataType (text ['h', 'e', 'x', '('] ++
        (plain 16 8 type.toNat ++ (text [')', ':'] ++ rest))) =
          let parsed := strtoul (plain 16 8 type.toNat ++ (text [')', ':'] ++ rest))
          if (text [')', ':']).isPrefixOf parsed.2 then
            some (BitVec.ofNat 32 parsed.1, .binary, parsed.2.drop 2)
          else none := rfl
    rw [append_assoc, append_assoc, entry, number]
    dsimp only
    rw [if_pos (by rfl), BitVec.ofNat_toNat, BitVec.setWidth_eq]
    rfl

theorem loadData_string {units : List WChar} {line : List Byte}
    (written : line = dumpText quotes units ++ text ['"']) (sound : info.Sound)
    (length : line.length < maxBuffer) :
    loadData .string line info =
      (.success (some (bytesOf (units ++ [0])), getFileTmpSpace info (line.length * 2)) :
        Outcome ε _) := by
  have longer := length_le_dumpText quotes units
  have tmp := getFileTmpSpace_tmplen info (line.length * 2)
  have limit : maxBuffer = 1551591828 := rfl
  have small := (sound_getFileTmpSpace sound (show line.length * 2 < 2 ^ 32 by omega)).tmplen_lt
  have count : line.length = (dumpText quotes units).length + 1 := by
    rw [written, length_append]
    rfl
  unfold loadData
  dsimp only
  generalize getFileTmpSpace info _ = info' at tmp small ⊢
  have parsed : parseStrW (info'.tmplen / 2) info'.tmplen (line ++ [0]) (ch '"') =
        (.success ⟨toInt ((dumpText quotes units).length + 1), (units.length + 1) * 2,
          units ++ [0]⟩ : Outcome ε Parsed) := by
    rw [written, append_assoc]
    exact parseStrW_dumpText .value _ [0] (by omega) (Nat.le_refl _) small
  rw [dataSizeT_of_lt small, parsed, success_bind]
  dsimp only
  rw [toInt_of_lt (by omega), if_neg (by omega)]
  have whole : (units.length + 1) * 2 = (bytesOf (units ++ [0])).length := by
    rw [bytesOf_length, length_append, length_singleton]
  rw [whole, take_length]

theorem dwordOf_lt : ∀ {data : List (BitVec 8)}, data.length = 4 → dwordOf data < 2 ^ 32
  | [a, b, c, d], _ => by
      simp only [dwordOf, foldr_cons, foldr_nil]
      omega

theorem dwordOf_bytes : ∀ {data : List (BitVec 8)}, data.length = 4 →
    ((range 4).map fun i => BitVec.ofNat 8 (dwordOf data / 2 ^ (8 * i))) = data
  | [a, b, c, d], _ => by
      have spread : (range 4).map (fun i => BitVec.ofNat 8
          (dwordOf [a, b, c, d] / 2 ^ (8 * i))) = [BitVec.ofNat 8 (dwordOf [a, b, c, d] / 2 ^ 0),
              BitVec.ofNat 8 (dwordOf [a, b, c, d] / 2 ^ 8),
              BitVec.ofNat 8 (dwordOf [a, b, c, d] / 2 ^ 16),
              BitVec.ofNat 8 (dwordOf [a, b, c, d] / 2 ^ 24)] := rfl
      have byte {number : Nat} {x : BitVec 8} (same : number % 2 ^ 8 = x.toNat) :
          BitVec.ofNat 8 number = x :=
        BitVec.eq_of_toNat_eq ((BitVec.toNat_ofNat _ _).trans same)
      rw [spread]
      simp only [dwordOf, foldr_cons, foldr_nil]
      rw [byte (x := a) (by omega), byte (x := b) (by omega), byte (x := c) (by omega),
        byte (x := d) (by omega)]

theorem loadData_dword (length : data.length = 4) :
    loadData .dword (padded 16 8 (dwordOf data)) info =
      (.success (some data, info) : Outcome ε _) := by
  have small := dwordOf_lt length
  have writes : Writes 16 8 (dwordOf data) (digits 16 8 (dwordOf data)) :=
    writes_digits (by decide) (show dwordOf data < 16 ^ (7 + 1) by omega)
  have number : strtoul (padded 16 8 (dwordOf data)) = (dwordOf data, []) := by
    have read : strtoul (padded 16 8 (dwordOf data) ++ []) = (dwordOf data, []) :=
      strtoul_writes writes (by omega) (by simp)
    rwa [append_nil] at read
  unfold loadData
  dsimp only
  rw [number]
  rw [Nat.mod_eq_of_lt small, dwordOf_bytes length]

/-! ## The whole value -/

/-- What `load_value` does behind the name of a value that is not there. -/
theorem loadValue_nameText {key : Key} (named : value.name.length ≤ maxValueLen)
    (absent : ∀ other ∈ key.values, foldName lower other.name ≠ foldName lower value.name)
    (sound : info.Sound) {rest : List Byte} (held : info.Holds (nameText value ++ rest))
    (text : ∀ c ∈ rest.head?, isspace c = false)
    (tag : getDataType rest = some (value.type, parseType, buffer)) :
    ∃ made : List (BitVec 8) → Key,
      (∀ data, CreatesValue key (made data) value.name value.type data) ∧
      ∃ broken, loadValue lower key (nameText value ++ rest) info beyond = (do
          let (loaded, info) ← loadData parseType buffer
              (getFileTmpSpace info ((nameText value ++ rest).length * 2))
          match loaded with
          | none => .success (false, broken, info)
          | some data => .success (true, made data, info) :
            Outcome ε (Bool × Key × FileLoadInfo)) := by
  rcases parseValueName_nameText ε lower sound text held with ⟨order, parsed⟩
  rcases findOrInsert_absent lower named absent order with ⟨made, index, found, creates⟩
  refine ⟨fun data => setData made index value.type data,
    fun data => creates value.type data, setData made index regNone [], ?_⟩
  rw [loadValue, parsed, success_bind, found]
  dsimp only [Option.map_some]
  rewrite [drop_left, tag]
  rfl

/-- The length of the name, the order and the equals sign. -/
def nameLength (value : KeyValue) : Nat :=
  if value.name ≠ [] then
    escapedLength quotes value.name + (trim (digits 16 8 value.order)).length + 4
  else 2

theorem nameText_length : (nameText value).length = nameLength value := by
  unfold nameText nameLength
  split_ifs
  · simp only [length_append, dumpText_length, plain, length_map, text, length_cons, length_nil]
    omega
  · rfl

/-- The characters of the first line of a value. -/
def firstLength (value : KeyValue) : Nat := nameLength value +
    if isString value then
      (if value.type = regSz then 2 else 9) + escapedLength quotes (unitsOf value.data).dropLast
    else if value.type = regDword ∧ value.data.length = 4 then 14
    else
      (if value.type = regBinary then 4
        else 6 + (trim (digits 16 8 value.type.toNat)).length) +
      if (valueLines value).2.isEmpty then 3 * (valueLines value).1.length - 1
      else 3 * (valueLines value).1.length + 1

theorem stringTag_length (types : type = regSz ∨ type = regExpandSz ∨ type = regMultiSz) :
    (stringTag type).length + 2 = if type = regSz then 2 else 9 := by
  rcases types with rfl | rfl | rfl <;> rfl

theorem hexTag_length (type : BitVec 32) : (hexTag type).length =
      if type = regBinary then 4 else 6 + (trim (digits 16 8 type.toNat)).length := by
  unfold hexTag
  split_ifs
  · rfl
  · simp only [length_append, plain, length_map, text, length_cons, length_nil]
    omega

theorem firstLine_length : (firstLine value).length = firstLength value := by
  unfold firstLine firstLength
  rw [length_append, nameText_length]
  congr 1
  by_cases string : isString value = true
  · rw [if_pos string, if_pos string, ← stringTag_length (isString_units string).1]
    simp only [length_append, dumpText_length, text, length_map, length_cons, length_nil]
    omega
  rw [if_neg string, if_neg string]
  by_cases dword : value.type = regDword ∧ value.data.length = 4
  · rw [if_pos dword, if_pos dword]
    simp only [length_append, padded, length_map, digits_length, text, length_cons, length_nil]
  rw [if_neg dword, if_neg dword, length_append, hexTag_length, lineText_length]

/-- The buffers can take a value: a string has to fit into one line, and bytes in
hexadecimal into the temp buffer. -/
def ValueFits (info : FileLoadInfo) (value : KeyValue) : Prop :=
  if isString value then firstLength value + 2 ≤ maxBuffer
  else if value.type = regDword ∧ value.data.length = 4 then True
  else
    hexFits (max info.tmplen (firstLength value * 2)) 0
      ((valueLines value).1.length :: (valueLines value).2.map length) = true

theorem escapedLength_le (escape : Byte × Byte) (str : List WChar) :
    escapedLength escape str ≤ 7 * str.length := by
  induction str with
  | nil => exact Nat.le_refl 0
  | cons unit rest ih =>
    have piece := (dumpChar_piece escape unit rest.head?).fits
    rw [dumpChar_length] at piece
    rw [escapedLength, length_cons]
    omega

theorem nameLength_le (named : value.name.length ≤ maxValueLen) :
    nameLength value ≤ 7 * maxValueLen + 12 := by
  have length := escapedLength_le quotes value.name
  have digits := (trim_length_le (digits 16 8 value.order)).trans_eq (digits_length ..)
  unfold nameLength
  split_ifs <;> omega

theorem valueLines_length_le (value : KeyValue) :
    (valueLines value).1.length ≤ 26 ∧ ∀ line ∈ (valueLines value).2, line.length ≤ 26 :=
  ⟨(hexLines_spec _ _).2.1.trans (by omega), (hexLines_spec _ _).2.2⟩

/-- Only a string can make a line too long. -/
theorem firstLength_le (named : value.name.length ≤ maxValueLen) (other : isString value ≠ true) :
    firstLength value + 2 ≤ maxBuffer := by
  have name := nameLength_le named
  have digits := (trim_length_le (digits 16 8 value.type.toNat)).trans_eq (digits_length ..)
  have line := (valueLines_length_le value).1
  have limits : maxValueLen = 16383 ∧ maxBuffer = 1551591828 := ⟨rfl, rfl⟩
  unfold firstLength
  rw [if_neg other]
  split_ifs <;> omega

theorem printable_firstLine (value : KeyValue) : Printable (firstLine value) := by
  have quote : Printable (text ['"']) := by decide
  refine printable_nameText.append ?_
  split_ifs with string dword
  · have tag : Printable (stringTag value.type) := by
      unfold stringTag
      split_ifs
      · exact (Printable.append (by decide) (printable_plain 8 _)).append (by decide)
      · exact fun c member => absurd member not_mem_nil
    exact ((tag.append quote).append (printable_dumpText .value _)).append quote
  · exact Printable.append (by decide) (printable_padded 8 _)
  · refine Printable.append ?_ (printable_lineText _ _)
    unfold hexTag
    split_ifs
    · decide
    · exact (Printable.append (by decide) (printable_plain 8 _)).append (by decide)

theorem firstLine_head : ∃ c tail, firstLine value = c :: tail ∧ (c = ch '@' ∨ c = ch '"') := by
  unfold firstLine nameText
  split_ifs
  all_goals first | exact ⟨_, _, rfl, .inr rfl⟩ | exact ⟨_, _, rfl, .inl rfl⟩

/-- The file that holds a value and then more. -/
def withValue (info : FileLoadInfo) (value : KeyValue) (file : List Byte) : FileLoadInfo :=
  { info with
    file := firstLine value ++ text ['\n'] ++ moreText (laterLines value) ++ file }

variable (ε) in
/-- The first line is read and handed to `load_value`. -/
theorem loadKeysValue_firstLine (key : Key) (value : KeyValue) (sound : info.Sound)
    (file beyond : List Byte) :
    if firstLength value + 2 ≤ maxBuffer then
      ∃ next : FileLoadInfo, next.Sound ∧ next.Holds (firstLine value) ∧
        next.tmplen = info.tmplen ∧ next.file = moreText (laterLines value) ++ file ∧
        loadKeysValue lower key (withValue info value file) beyond = (do
            let loaded ← loadValue lower key (firstLine value) next beyond
            .success (some loaded) : Outcome ε (Option (Bool × Key × FileLoadInfo)))
    else
      loadKeysValue lower key (withValue info value file) beyond =
        (.success none : Outcome ε (Option (Bool × Key × FileLoadInfo))) := by
  have printable := printable_firstLine value
  have sound' : (withValue info value file).Sound := ⟨sound.size, sound.tmplen_lt⟩
  have contents : (withValue info value file).file =
      firstLine value ++ ch '\n' :: (moreText (laterLines value) ++ file) := by
    simp [withValue, text]
  have read := readNextLine_eq sound' (printable.not_mem (by decide))
    (printable.not_mem (by decide)) contents
  rw [firstLine_length] at read
  unfold loadKeysValue
  split_ifs at read ⊢ with fits
  · rcases read with ⟨len, size, held, read⟩
    rcases firstLine_head with ⟨c, tail, shape, first⟩
    have visible : isspace c = false := by rcases first with rfl | rfl <;> decide
    have starts : isValueLine (firstLine value) = true := by
      rw [shape]
      rcases first with rfl | rfl <;> rfl
    refine ⟨⟨moreText (laterLines value) ++ file, len, info.tmplen⟩,
      ⟨size, sound.tmplen_lt⟩, ⟨printable.not_mem (by decide), ?_⟩, rfl, rfl, ?_⟩
    · rw [firstLine_length]
      exact Nat.lt_of_lt_of_le (by omega) held
    · rw [read]
      dsimp only
      rw [skipSpace_of_head (by rw [shape]; exact head_not_space visible tail), if_pos starts]
      rfl
  · rw [read]

/-- What was written for a value and is read into a key creates that value and
nothing else, and the file stands behind it. -/
def ReadsBack (key : Key) (info : FileLoadInfo) (value : KeyValue)
    (file beyond : List Byte) : Prop :=
  ∃ dumped, dumpValue value = (.success dumped : Outcome Unit (List Byte)) ∧ ∃ made last,
      loadKeysValue lower key { info with file := dumped ++ file } beyond =
        (.success (some (true, made, last)) : Outcome Unit _) ∧
      last.file = file ∧ CreatesValue key made value.name value.type value.data

theorem readsBack_iff (file : List Byte) : ReadsBack lower key info value file beyond ↔
      ∃ made last, loadKeysValue lower key (withValue info value file) beyond =
      (.success (some (true, made, last)) : Outcome Unit _) ∧ last.file = file ∧
      CreatesValue key made value.name value.type value.data := by
  unfold ReadsBack
  rw [dumpValue_eq]
  constructor
  · rintro ⟨dumped, written, rest⟩
    rw [← Outcome.success.inj written] at rest
    exact rest
  · exact fun rest => ⟨_, rfl, rest⟩

section Cases

variable {lower} {key : Key} {value : KeyValue} {info : FileLoadInfo}
  (named : value.name.length ≤ maxValueLen)
  (absent : ∀ other ∈ key.values, foldName lower other.name ≠ foldName lower value.name)
  (sound : info.Sound) (file beyond : List Byte)

include named absent sound

/-- Where the first line is read, it depends on the data behind the tag. -/
theorem readsBack_of_tag (fits : firstLength value + 2 ≤ maxBuffer) {rest : List Byte}
    (shape : firstLine value = nameText value ++ rest)
    (visible : ∀ c ∈ rest.head?, isspace c = false)
    (tag : getDataType rest = some (value.type, parseType, buffer)) :
    ∃ next : FileLoadInfo, next.Sound ∧
      next.tmplen = max info.tmplen (firstLength value * 2) ∧
      next.file = moreText (laterLines value) ++ file ∧
      (∀ last, last.file = file → loadData parseType buffer next =
          (.success (some value.data, last) : Outcome Unit _) →
        ReadsBack lower key info value file beyond) ∧
      (loadData parseType buffer next = (.outside : Outcome Unit _) →
        ¬ ReadsBack lower key info value file beyond) := by
  have first := loadKeysValue_firstLine Unit lower key value sound file beyond
  rw [if_pos fits] at first
  rcases first with ⟨next, sound', held, tmplen, contents, load⟩
  have size := held.size_lt sound'
  rw [shape] at held
  rcases loadValue_nameText lower named absent sound' held visible tag with
    ⟨made, creates, broken, loaded⟩
  rw [← shape] at loaded
  rw [loaded] at load
  refine ⟨getFileTmpSpace next ((firstLine value).length * 2),
    sound_getFileTmpSpace sound' size, ?_, ?_, ?_, ?_⟩
  · rw [getFileTmpSpace_tmplen, firstLine_length, tmplen]
  · rw [getFileTmpSpace_file, contents]
  · intro last behind data
    rw [readsBack_iff]
    refine ⟨made value.data, last, ?_, behind, creates value.data⟩
    rw [load, data]
    rfl
  · intro outside
    rw [readsBack_iff]
    rintro ⟨_, _, result, _⟩
    rw [load, outside] at result
    cases result

theorem readsBack_string (string : isString value = true) :
    ReadsBack lower key info value file beyond ↔ firstLength value + 2 ≤ maxBuffer := by
  by_cases fits : firstLength value + 2 ≤ maxBuffer
  · have later : laterLines value = [] := if_pos string
    have shape : firstLine value = nameText value ++ (stringTag value.type ++
        (text ['"'] ++ (dumpText quotes (unitsOf value.data).dropLast ++ text ['"']))) := by
      rw [firstLine, if_pos string]
      simp only [append_assoc]
    have types := (isString_units string).1
    have visible : ∀ c ∈ (stringTag value.type ++ (text ['"'] ++
        (dumpText quotes (unitsOf value.data).dropLast ++ text ['"']))).head?,
          isspace c = false := by
      rcases types with type | type | type <;> rw [type] <;>
        exact head_not_space (by decide) _
    rcases readsBack_of_tag named absent sound file beyond fits shape visible
      (getDataType_string types) with ⟨next, sound', _, contents, loads, _⟩
    have length := congrArg length shape
    rw [firstLine_length] at length
    simp only [length_append] at length
    have data := @loadData_string Unit next (unitsOf value.data).dropLast _ rfl sound'
      (by rw [length_append]; omega)
    rw [(isString_units string).2] at data
    refine iff_of_true (loads _ ?_ data) fits
    rw [getFileTmpSpace_file, contents, later]
    rfl
  · have first := loadKeysValue_firstLine Unit lower key value sound file beyond
    rw [if_neg fits] at first
    refine iff_of_false ?_ fits
    rw [readsBack_iff]
    rintro ⟨_, _, result, _⟩
    rw [first] at result
    cases result

theorem readsBack_dword (other : isString value ≠ true)
    (dword : value.type = regDword ∧ value.data.length = 4) :
    ReadsBack lower key info value file beyond := by
  have later : laterLines value = [] := by rw [laterLines, if_neg other, if_pos dword]
  have shape : firstLine value = nameText value ++
      (text ['d', 'w', 'o', 'r', 'd', ':'] ++ padded 16 8 (dwordOf value.data)) := by
    rw [firstLine, if_neg other, if_pos dword]
  rcases readsBack_of_tag named absent sound file beyond (firstLength_le named other) shape
      (head_not_space (by decide) _) (dword.1 ▸ getDataType_dword) with
    ⟨next, _, _, contents, loads, _⟩
  refine loads next ?_ (loadData_dword dword.2)
  rw [contents, later]
  rfl

theorem readsBack_hex (other : isString value ≠ true)
    (bytes : ¬ (value.type = regDword ∧ value.data.length = 4)) :
    ReadsBack lower key info value file beyond ↔ hexFits (max info.tmplen (firstLength value * 2)) 0
        ((valueLines value).1.length :: (valueLines value).2.map length) = true := by
  have later : laterLines value = (valueLines value).2 := by
    rw [laterLines, if_neg other, if_neg bytes]
  have shape : firstLine value = nameText value ++ (hexTag value.type ++
      lineText (valueLines value).2.isEmpty (valueLines value).1) := by
    rw [firstLine, if_neg other, if_neg bytes]
  have visible : ∀ c ∈ (hexTag value.type ++
      lineText (valueLines value).2.isEmpty (valueLines value).1).head?, isspace c = false := by
    unfold hexTag
    split_ifs <;> exact head_not_space (by decide) _
  rcases readsBack_of_tag named absent sound file beyond (firstLength_le named other) shape
      visible (getDataType_hex _ _) with ⟨next, sound', tmplen, contents, loads, fails⟩
  rw [later] at contents
  have bounds := valueLines_length_le value
  have whole := (hexLines_spec (nameColumn value + (hexTag value.type).length) value.data).1
  rw [← valueLines] at whole
  have enough : (valueLines value).2.length < next.file.length + 1 := by
    have count := length_le_moreText (valueLines value).2
    rw [contents, length_append]
    omega
  have lines := loadHex_lines Unit sound' enough bounds.1 bounds.2 contents [] (Nat.zero_le _)
  rw [length_nil, tmplen, nil_append, whole] at lines
  split_ifs at lines with fits
  · rcases lines with ⟨last, behind, load⟩
    exact iff_of_true (loads last behind load) fits
  · exact iff_of_false (fails lines) fits

/-- Every value of less than 2^28 bytes is read back. -/
theorem readsBack_of_short (short : value.data.length < 2 ^ 28) :
    ReadsBack lower key info value file beyond := by
  by_cases string : isString value = true
  · have name := nameLength_le named
    have limits : maxValueLen = 16383 ∧ maxBuffer = 1551591828 := ⟨rfl, rfl⟩
    have units := congrArg length (isString_units string).2
    rw [bytesOf_length, length_append, length_singleton] at units
    have characters := escapedLength_le quotes (unitsOf value.data).dropLast
    rw [readsBack_string named absent sound file beyond string, firstLength, if_pos string]
    split_ifs <;> omega
  by_cases dword : value.type = regDword ∧ value.data.length = 4
  · exact readsBack_dword named absent sound file beyond string dword
  rw [readsBack_hex named absent sound file beyond string dword]
  have bounds := valueLines_length_le value
  have whole := congrArg length
    (hexLines_spec (nameColumn value + (hexTag value.type).length) value.data).1
  rw [← valueLines] at whole
  rw [length_append, length_flatten] at whole
  apply hexFits_of_lt
  · exact forall_mem_cons.mpr ⟨bounds.1, forall_mem_map.mpr bounds.2⟩
  · rw [sum_cons]
    omega

end Cases

/-- Every value that the buffers can take is read back with its name, its type
and its data. -/
theorem value_read_back_iff (key : Key) (info : FileLoadInfo) (value : KeyValue)
    (file beyond : List Byte) (named : value.name.length ≤ maxValueLen)
    (absent : ∀ other ∈ key.values, foldName lower other.name ≠ foldName lower value.name)
    (sound : info.Sound) :
    ReadsBack lower key info value file beyond ↔ ValueFits info value := by
  unfold ValueFits
  by_cases string : isString value = true
  · rw [if_pos string]
    exact readsBack_string named absent sound file beyond string
  rw [if_neg string]
  split_ifs with dword
  · exact iff_of_true (readsBack_dword named absent sound file beyond string dword) trivial
  exact readsBack_hex named absent sound file beyond string dword

theorem value_read_back_multi_string :
    ReadsBack asciiLower {} ⟨[], 4, 4⟩ ⟨wstr ['a'], regMultiSz, [98, 0, 0, 0], 3⟩ [] [] :=
  (value_read_back_iff asciiLower {} ⟨[], 4, 4⟩ ⟨wstr ['a'], regMultiSz, [98, 0, 0, 0], 3⟩
    [] [] (by decide) (by simp) (sound_start [])).mpr (by
      unfold ValueFits
      decide)

/-! ## All values of a key -/

/-- What `save_subkeys` writes for values. -/
def dumpValues : List KeyValue → Outcome ε (List Byte)
  | [] => .success []
  | value :: values => do return (← dumpValue value) ++ (← dumpValues values)

/-- So many turns of the loop of `load_keys` that read a value each. -/
def loadValues (beyond : List Byte) : Nat → Key → FileLoadInfo →
    Outcome ε (Option (Key × FileLoadInfo))
  | 0, key, info => .success (some (key, info))
  | turns + 1, key, info => do
      match ← loadKeysValue lower key info beyond with
      | none => .success none
      | some (_, key, info) => loadValues beyond turns key info

def entries (values : List KeyValue) : List (Name × BitVec 32 × List (BitVec 8)) :=
  values.map fun value => (value.name, value.type, value.data)

/-- Values with short data are read back, and nothing else. -/
theorem values_read_back (values : List KeyValue) (key : Key) (info : FileLoadInfo)
    (file beyond : List Byte) (sound : info.Sound)
    (short : ∀ value ∈ values, value.name.length ≤ maxValueLen ∧ value.data.length < 2 ^ 28)
    (distinct : ((entries (key.values ++ values)).map fun entry => foldName lower entry.1).Nodup) :
    ∃ dumped, dumpValues values = (.success dumped : Outcome Unit _) ∧ ∃ made last,
      loadValues lower beyond values.length key { info with file := dumped ++ file } =
        (.success (some (made, last)) : Outcome Unit _) ∧ last.file = file ∧
      (entries made.values).Perm (entries (key.values ++ values)) := by
  induction values generalizing key info with
  | nil => exact ⟨[], rfl, key, _, rfl, rfl, by simp⟩
  | cons value values ih =>
    rcases forall_mem_cons.mp short with ⟨⟨named, size⟩, later⟩
    have absent : ∀ other ∈ key.values, foldName lower other.name ≠ foldName lower value.name := by
      rw [entries, map_map, map_append, nodup_append] at distinct
      exact fun other member => distinct.2.2 _ (mem_map_of_mem member) _ mem_cons_self
    have fewer := (sublist_cons_self value values).append_left key.values
    rcases ih key info sound later (distinct.sublist ((fewer.map _).map _)) with ⟨rest, written, -⟩
    rcases readsBack_of_short named absent sound (rest ++ file) beyond size with
      ⟨first, dumped, made, next, loaded, behind, _, _, _, old, new, name, type, data, -⟩
    have whole : (entries (made.values ++ values)).Perm
        (entries (key.values ++ value :: values)) := by
      simpa [entries, old, new, name, type, data] using perm_middle.symm.append_left _
    have sound' : next.Sound := loadKeysValue_sound lower (by exact ⟨sound.1, sound.2⟩) loaded
    rcases ih made next sound' later ((whole.map _).nodup_iff.mpr distinct) with
      ⟨_, same, made', last, turns, done⟩
    cases written.symm.trans same
    rw [← behind] at turns
    refine ⟨first ++ rest, ?_, made', last, ?_, done.1, done.2.trans whole⟩
    · rw [dumpValues, dumped, written]
      rfl
    · rw [append_assoc, length_cons, loadValues, loaded]
      exact turns

/-- A string and a byte. -/
theorem values_read_back_two : ∃ dumped made last,
    loadValues asciiLower [] 2 {} ⟨dumped ++ [], 4, 4⟩ =
      (.success (some (made, last)) : Outcome Unit _) ∧
    (entries made.values).Perm [([97], regSz, [98, 0, 0, 0]), ([], 4, [1])] := by
  rcases values_read_back asciiLower [⟨[97], regSz, [98, 0, 0, 0], 0⟩, ⟨[], 4, [1], 1⟩] {}
    ⟨[], 4, 4⟩ [] [] (sound_start []) (by decide) (by decide) with
    ⟨dumped, -, made, last, loaded, -, same⟩
  exact ⟨dumped, made, last, loaded, same⟩

variable {count : Nat}

/-- The characters of a string of one letter. -/
theorem escapedLength_letters : escapedLength quotes (replicate count (wchar 'a')) = count := by
  induction count with
  | zero => rfl
  | succ count ih =>
    have size : escapedSize quotes (wchar 'a') (replicate count (wchar 'a')).head? = 1 := rfl
    rw [replicate_succ, escapedLength, size, ih, Nat.add_comm]

/-- The default value, a string of so many letters. -/
def letters (count : Nat) : KeyValue := ⟨[], regSz, bytesOf (replicate count (wchar 'a') ++ [0]), 0⟩

theorem unitsOf_bytesOf (units : List WChar) : unitsOf (bytesOf units) = units := by
  induction units with
  | nil => rfl
  | cons unit rest ih =>
    rw [bytesOf, unitsOf, ih]
    congr 1
    apply BitVec.eq_of_toNat_eq
    simp only [BitVec.toNat_ofNat]
    omega

theorem isString_letters : isString (letters count) = true := by
  have length : (letters count).data.length = (count + 1) * 2 := by
    rw [letters, bytesOf_length, length_append, length_replicate, length_singleton]
  have units : unitsOf (letters count).data = replicate count (wchar 'a') ++ [0] :=
    unitsOf_bytesOf _
  have short : ¬ (count + 1) * 2 < 2 := by omega
  rw [isString, length, units, getLast?_append, decide_eq_false short]
  simp [letters]

theorem firstLength_letters : firstLength (letters count) = count + 4 := by
  have units : unitsOf (letters count).data = replicate count (wchar 'a') ++ [0] :=
    unitsOf_bytesOf _
  have name : nameLength (letters count) = 2 := rfl
  have type : (letters count).type = regSz := rfl
  rw [firstLength, if_pos isString_letters, units, dropLast_concat,
    escapedLength_letters, name, if_pos type]
  omega

/-- A string of 1610612736 letters is a line that no buffer holds. -/
theorem long_string_is_lost : ¬ ReadsBack asciiLower {} ⟨[], 4, 4⟩ (letters 1610612736) [] [] := by
  have named : (letters 1610612736).name.length ≤ maxValueLen := Nat.zero_le _
  have absent : ∀ other ∈ ({} : Key).values,
      foldName asciiLower other.name ≠ foldName asciiLower (letters 1610612736).name :=
    fun other member => absurd member not_mem_nil
  rw [readsBack_string named absent (sound_start []) [] [] isString_letters,
    firstLength_letters, maxBuffer]
  decide

end WineRedRose.RegText
