import WineRedRose.RegText.Escapes

/-!
# The text of a value

What `dump_value` writes: the name, and behind it a string, a number or bytes in
hexadecimal, which are broken into lines by the column.
-/

namespace WineRedRose.RegText

open Library.Reads Library.Numerals Registry List

variable {ε : Type}

/-! ## Printable text -/

/-- There are no control characters in a text. -/
def Printable (t : List Byte) : Prop := ∀ c ∈ t, 32 ≤ c.toNat

instance (t : List Byte) : Decidable (Printable t) :=
  decidableBAll (fun c : Byte => 32 ≤ c.toNat) t

theorem Printable.append {front back : List Byte} (first : Printable front)
    (second : Printable back) : Printable (front ++ back) :=
  forall_mem_append.mpr ⟨first, second⟩

theorem Printable.not_mem {t : List Byte} (printable : Printable t) {c : Byte}
    (control : c.toNat < 32) : c ∉ t :=
  fun member => absurd (printable c member) (Nat.not_le_of_lt control)

theorem printable_digits (written : List Nat) (digits : ∀ d ∈ written, d < 16) :
    Printable (written.map digitChar) := by
  have each : ∀ d < 16, 32 ≤ (digitChar d).toNat := by decide
  intro c member
  rcases mem_map.mp member with ⟨d, inside, rfl⟩
  exact each d (digits d inside)

theorem printable_padded (places number : Nat) : Printable (padded 16 places number) :=
  printable_digits _ (digits_lt (by decide))

theorem printable_plain (places number : Nat) : Printable (plain 16 places number) :=
  printable_digits _ fun _ member => digits_lt (by decide) _ (mem_of_mem_trim member)

theorem Piece.printable {quoting : Quoting} {unit : WChar} {next : Option WChar}
    {piece : List Byte × Nat} (kind : Piece quoting.escape unit next piece) :
    Printable piece.1 := by
  cases kind with
  | hex written _ writes _ => exact Printable.append (by decide) (printable_digits _ writes.lt)
  | letter letter small known =>
    have table : ∀ c < 32, (cEscape c).all fun letter =>
        decide (32 ≤ (ch letter).toNat) := by decide
    have letters := table _ small
    rw [known] at letters
    intro c member
    rcases mem_cons.mp member with rfl | member
    · decide
    · rw [mem_singleton.mp member]
      exact of_decide_eq_true letters
  | oct written _ writes _ =>
    exact Printable.append (by decide) (printable_digits _
      fun d member => (writes.lt d member).trans (by decide))
  | escaped b _ special =>
    have large : 32 ≤ b.toNat := by cases quoting <;> rcases special with rfl | rfl | rfl <;> decide
    intro c member
    rcases mem_cons.mp member with rfl | member
    · decide
    · rw [mem_singleton.mp member]
      exact large
  | asIs b code printable _ =>
    intro c member
    rw [mem_singleton.mp member, code]
    exact printable.1

theorem printable_dumpText (quoting : Quoting) (str : List WChar) :
    Printable (dumpText quoting.escape str) := by
  induction str with
  | nil => exact fun c member => absurd member not_mem_nil
  | cons unit rest ih => exact (dumpChar_piece quoting.escape unit rest.head?).printable.append ih

/-! ## The name -/

/-- The name, the order and the equals sign. -/
def nameText (value : KeyValue) : List Byte :=
  if value.name ≠ [] then
    text ['"'] ++ dumpText quotes value.name ++ text ['"', '$'] ++
      plain 16 8 value.order ++ text ['=']
  else text ['@', '=']

/-- The column where the data starts, as `dump_value` counts it. -/
def nameColumn (value : KeyValue) : Nat :=
  if value.name ≠ [] then (nameText value).length - 1 else 2

variable {value : KeyValue}

theorem dumpName_eq : dumpName value =
      (.success (nameText value, nameColumn value) : Outcome ε (List Byte × Nat)) := by
  unfold dumpName nameText nameColumn nameText
  split_ifs
  · rw [dumpStrW_eq, success_bind]
    have equals (front : List Byte) : (front ++ text ['=']).length - 1 = front.length := by
      rw [length_append]
      exact Nat.add_sub_cancel _ 1
    rw [pure_eq_success, equals]
  · rfl

theorem printable_nameText : Printable (nameText value) := by
  unfold nameText
  split_ifs
  · have quote : Printable (text ['"']) := by decide
    have dollar : Printable (text ['"', '$']) := by decide
    have equals : Printable (text ['=']) := by decide
    exact (((quote.append (printable_dumpText .value value.name)).append dollar).append
      (printable_plain 8 value.order)).append equals
  · decide

/-! ## Lines of bytes -/

/-- The text of the bytes in one line; all but the last line end with a comma
and a backslash. -/
def lineText (last : Bool) : List (BitVec 8) → List Byte
  | [] => if last then [] else text ['\\']
  | byte :: rest =>
    padded 16 2 byte.toNat ++ (if last && rest.isEmpty then [] else text [',']) ++
      lineText last rest

/-- The bytes of the first line and those of the lines after it. -/
abbrev Lines := List (BitVec 8) × List (List (BitVec 8))

/-- A byte in a line of its own before others. -/
def Lines.startLine (byte : BitVec 8) (lines : Lines) : Lines := ([byte], lines.1 :: lines.2)

/-- A byte before those of the first line. -/
def Lines.addByte (byte : BitVec 8) (lines : Lines) : Lines := (byte :: lines.1, lines.2)

/-- The bytes in each line, by the column of the first. -/
def hexLines : (count : Nat) → List (BitVec 8) → Lines
  | _, [] => ([], [])
  | _, [last] => ([last], [])
  | count, byte :: next :: rest =>
    if count + 2 + 1 > 76 then Lines.startLine byte (hexLines 2 (next :: rest))
    else Lines.addByte byte (hexLines (count + 2 + 1) (next :: rest))

/-- The lines after the first. -/
def moreText : List (List (BitVec 8)) → List Byte
  | [] => []
  | line :: more => text [' ', ' '] ++ lineText more.isEmpty line ++ text ['\n'] ++ moreText more

variable {byte : BitVec 8} {rest : List (BitVec 8)}

theorem hexLines_wraps {count : Nat} (wraps : count + 2 + 1 > 76) (next : BitVec 8) :
    hexLines count (byte :: next :: rest) =
      ([byte], (hexLines 2 (next :: rest)).1 :: (hexLines 2 (next :: rest)).2) := by
  rw [hexLines, if_pos wraps]
  rfl

theorem hexLines_fits {count : Nat} (fits : ¬ count + 2 + 1 > 76) (next : BitVec 8) :
    hexLines count (byte :: next :: rest) = (byte :: (hexLines (count + 2 + 1) (next :: rest)).1,
        (hexLines (count + 2 + 1) (next :: rest)).2) := by
  rw [hexLines, if_neg fits]
  rfl

variable {count : Nat}

theorem hexLines_nonempty : (hexLines count (byte :: rest)).1 ≠ [] := by
  cases rest with
  | nil => exact cons_ne_nil _ _
  | cons next rest =>
    by_cases wraps : count + 2 + 1 > 76
    · rw [hexLines_wraps wraps]
      exact cons_ne_nil _ _
    · rw [hexLines_fits wraps]
      exact cons_ne_nil _ _

variable {data : List (BitVec 8)}

/-- The bytes are written line by line. -/
theorem dumpHex_eq : dumpHex count data ++ text ['\n'] =
      lineText (hexLines count data).2.isEmpty (hexLines count data).1 ++ text ['\n'] ++
        moreText (hexLines count data).2 := by
  induction count, data using hexLines.induct with
  | case1 count => rfl
  | case2 count last => simp [dumpHex, hexLines, lineText, moreText]
  | case3 count byte next rest wraps ih =>
    have ending : text ['\\', '\n', ' ', ' '] =
        text ['\\'] ++ (text ['\n'] ++ text [' ', ' ']) := rfl
    rw [dumpHex, if_pos wraps, hexLines_wraps wraps]
    simp only [append_assoc, ih, lineText, moreText, ending, isEmpty_cons,
      Bool.false_and, Bool.false_eq_true, if_false]
  | case4 count byte next rest fits ih =>
    rw [dumpHex, if_neg fits, hexLines_fits fits, lineText,
      isEmpty_eq_false_iff.mpr hexLines_nonempty, Bool.and_false]
    simp only [append_assoc, ih]
    rfl

/-- Together the lines hold the data, and none holds more than 26 bytes. -/
theorem hexLines_spec (count : Nat) (data : List (BitVec 8)) :
    (hexLines count data).1 ++ (hexLines count data).2.flatten = data ∧
      (hexLines count data).1.length ≤ (76 - count) / 3 + 1 ∧
      ∀ line ∈ (hexLines count data).2, line.length ≤ 26 := by
  induction count, data using hexLines.induct with
  | case1 count | case2 count last => simp [hexLines]
  | case3 count byte next rest wraps ih =>
    rw [hexLines_wraps wraps, flatten_cons, ih.1, length_singleton]
    exact ⟨rfl, by omega, forall_mem_cons.mpr ⟨by omega, ih.2.2⟩⟩
  | case4 count byte next rest fits ih =>
    rw [hexLines_fits fits, cons_append, ih.1, length_cons]
    exact ⟨rfl, by omega, ih.2.2⟩

theorem lineText_length (last : Bool) (line : List (BitVec 8)) :
    (lineText last line).length = if last then 3 * line.length - 1 else 3 * line.length + 1 := by
  induction line with
  | nil => cases last <;> rfl
  | cons byte rest ih =>
    rw [lineText, length_append, length_append, ih, padded, length_map, digits_length, length_cons]
    cases last with
    | false =>
      simp [text]
      omega
    | true =>
      cases rest with
      | nil => rfl
      | cons next rest =>
        simp [text]
        omega

theorem printable_lineText (last : Bool) (line : List (BitVec 8)) :
    Printable (lineText last line) := by
  induction line with
  | nil => cases last <;> decide
  | cons byte rest ih =>
    have comma : Printable (if last && rest.isEmpty then [] else text [',']) := by
      split_ifs <;> decide
    exact ((printable_padded 2 byte.toNat).append comma).append ih

/-! ## The whole text -/

/-- The tag of a string. -/
def stringTag (type : BitVec 32) : List Byte :=
  if type ≠ regSz then text ['s', 't', 'r', '('] ++ plain 16 8 type.toNat ++ text [')', ':']
  else []

/-- The number in four bytes. -/
def dwordOf (data : List (BitVec 8)) : Nat :=
  data.foldr (fun byte number => byte.toNat + 2 ^ 8 * number) 0

/-- The lines of a value that is not written as a string or a number. -/
def valueLines (value : KeyValue) : Lines :=
  hexLines (nameColumn value + (hexTag value.type).length) value.data

/-- The first line of a value. -/
def firstLine (value : KeyValue) : List Byte := nameText value ++
    if isString value then
      stringTag value.type ++ text ['"'] ++
        dumpText quotes (unitsOf value.data).dropLast ++ text ['"']
    else if value.type = regDword ∧ value.data.length = 4 then
      text ['d', 'w', 'o', 'r', 'd', ':'] ++ padded 16 8 (dwordOf value.data)
    else hexTag value.type ++ lineText (valueLines value).2.isEmpty (valueLines value).1

/-- The lines of a value after the first. -/
def laterLines (value : KeyValue) : List (List (BitVec 8)) :=
  if isString value then []
  else if value.type = regDword ∧ value.data.length = 4 then []
  else (valueLines value).2

theorem dumpValue_eq : dumpValue value =
      (.success (firstLine value ++ text ['\n'] ++ moreText (laterLines value)) :
        Outcome ε (List Byte)) := by
  rw [dumpValue, dumpName_eq, success_bind, firstLine, laterLines]
  dsimp only
  by_cases string : isString value = true
  · rw [if_pos string, if_pos string, if_pos string, dumpStrW_eq, success_bind,
      pure_eq_success, moreText, stringTag]
    simp only [append_assoc, append_nil]
    rfl
  rw [if_neg string, if_neg string, if_neg string]
  by_cases dword : value.type = regDword ∧ value.data.length = 4
  · rw [if_pos dword, if_pos dword, if_pos dword, pure_eq_success, moreText, dwordOf]
    simp only [append_assoc, append_nil]
  rw [if_neg dword, if_neg dword, if_neg dword, pure_eq_success, append_assoc,
    dumpHex_eq, valueLines]
  simp only [append_assoc]

end WineRedRose.RegText
