import WineRedRose.RegText.Model

/-!
# Escaped strings

`dump_strW` escapes what is not plain text, and `parse_strW` takes the escapes
back.  An escape by number ends where no digit follows; the writer fills up the
places of a number only where a digit follows that would be read with it.  So
each turn of the reader takes back the text of one character, whatever the
characters around it are.
-/

namespace WineRedRose.RegText

open Library.Reads Library.Numerals Registry List

variable {ε : Type}

/-- Strings as the registry writes them: those of values and the names of
keys. -/
inductive Quoting where
  | value
  | key
deriving DecidableEq, Repr

/-- The characters that are escaped besides the backslash. -/
def Quoting.escape : Quoting → Byte × Byte
  | .value => quotes
  | .key => brackets

/-- The character behind the string. -/
def Quoting.endchar : Quoting → Byte
  | .value => ch '"'
  | .key => ch ']'

/-! ## What is written -/

/-- The text of a string. -/
def dumpText (escape : Byte × Byte) : List WChar → List Byte
  | [] => []
  | unit :: rest => (dumpChar escape unit rest.head?).1 ++ dumpText escape rest

/-- The kinds of text that a character can have, with the NUL of `sprintf`. -/
inductive Piece (escape : Byte × Byte) (unit : WChar) (next : Option WChar) :
    List Byte × Nat → Prop where
  | hex (written : List Nat) (large : 127 < unit.toNat) (writes : Writes 16 4 unit.toNat written)
      (stops : written.length = 4 ∨ hexFollows next = false) :
      Piece escape unit next (text ['\\', 'x'] ++ written.map digitChar, 1)
  | letter (letter : Char) (small : unit.toNat < 32) (known : cEscape unit.toNat = some letter) :
      Piece escape unit next (text ['\\', letter], 1)
  | oct (written : List Nat) (small : unit.toNat < 32) (writes : Writes 8 3 unit.toNat written)
      (stops : written.length = 3 ∨ octFollows next = false) :
      Piece escape unit next (text ['\\'] ++ written.map digitChar, 1)
  | escaped (b : Byte) (code : b.toNat = unit.toNat)
      (special : b = ch '\\' ∨ b = escape.1 ∨ b = escape.2) :
      Piece escape unit next ([ch '\\', b], 0)
  | asIs (b : Byte) (code : b.toNat = unit.toNat) (printable : 32 ≤ unit.toNat ∧ unit.toNat ≤ 127)
      (ordinary : ¬ (b = ch '\\' ∨ b = escape.1 ∨ b = escape.2)) :
      Piece escape unit next ([b], 0)

variable {escape : Byte × Byte}

theorem dumpChar_piece (escape : Byte × Byte) (unit : WChar) (next : Option WChar) :
    Piece escape unit next (dumpChar escape unit next) := by
  unfold dumpChar
  dsimp only
  by_cases large : unit.toNat > 127
  · have writes := writes_digits (show 0 < 16 by decide)
      (show unit.toNat < 16 ^ (3 + 1) from unit.isLt)
    rw [if_pos large]
    split_ifs with follows
    · exact .hex _ large writes (.inl (digits_length _ _ _))
    · exact .hex _ large writes.trim (.inr (Bool.eq_false_iff.mpr follows))
  rw [if_neg large]
  by_cases small : unit.toNat < 32
  · have writes := writes_digits (show 0 < 8 by decide) (show unit.toNat < 8 ^ (2 + 1) by omega)
    rw [if_pos small]
    cases known : cEscape unit.toNat with
    | some letter => exact .letter letter small known
    | none =>
      split_ifs with follows
      · exact .oct _ small writes (.inl (digits_length _ _ _))
      · exact .oct _ small writes.trim (.inr (Bool.eq_false_iff.mpr follows))
  rw [if_neg small]
  have code : (UInt8.ofNat unit.toNat).toNat = unit.toNat := by
    rw [UInt8.toNat_ofNat', Nat.mod_eq_of_lt (by omega)]
  split_ifs with special
  · exact .escaped _ code special
  · exact .asIs _ code (by omega) special

variable {unit : WChar} {next : Option WChar} {piece : List Byte × Nat} {c : Byte}
variable {space room : Nat} {out : List WChar}

/-- A character takes at most six bytes and the NUL of `sprintf`. -/
theorem Piece.fits {escape : Byte × Byte} (kind : Piece escape unit next piece) :
    0 < piece.1.length ∧ piece.1.length + piece.2 ≤ 7 := by
  cases kind with
  | hex written _ writes _ | oct written _ writes _ =>
    have places := writes.length_le
    simp [text]
    omega
  | letter | escaped | asIs => simp [text]

variable {str : List WChar}

/-- The staging buffer holds what is written into it between two writes to the
file. -/
theorem dumpLoop_eq (buffer file : List Byte) : dumpLoop escape str buffer file =
      (.success (file ++ buffer ++ dumpText escape str) : Outcome ε (List Byte)) := by
  induction str generalizing buffer file with
  | nil => rw [dumpLoop, dumpText, append_nil]
  | cons unit rest ih =>
    have piece := (dumpChar_piece escape unit rest.head?).fits
    have size : stageSize = 256 := rfl
    unfold dumpLoop
    by_cases full : buffer.length > stageSize - 8
    · simp only [full, if_true, length_nil]
      rw [if_pos (by omega), ih, dumpText, nil_append]
      simp only [append_assoc]
    · simp only [full, if_false]
      rw [if_pos (by omega), ih, dumpText]
      simp only [append_assoc]

theorem dumpStrW_eq :
    dumpStrW str escape = (.success (dumpText escape str) : Outcome ε (List Byte)) := by
  rw [dumpStrW, dumpLoop_eq, nil_append, nil_append]

/-! ## Numbers -/

variable {tail : List Byte}

theorem peek_cons (c : Byte) (tail : List Byte) :
    peek (c :: tail) = (.success c : Outcome ε Byte) := rfl

theorem hexDigit_digitChar : ∀ digit < 16, hexDigit (digitChar digit) = some digit := by decide

theorem octDigit_digitChar : ∀ digit < 8, octDigit (digitChar digit) = some digit := by decide

variable {written : List Nat} {b : Byte} {len : Nat}

/-- Digits are read up to the last place, or up to something else. -/
theorem readDigits_run {digit : Byte → Option Nat} {base : Nat}
    (reads : ∀ d < base, digit (digitChar d) = some d) (digits : ∀ d ∈ written, d < base)
    {limit : Nat} (places : written.length ≤ limit)
    (stops : written.length = limit ∨ digit c = none) (number : Nat) :
    readDigits digit base limit number (written.map digitChar ++ c :: tail) =
      (.success (readFrom base number written, c :: tail) : Outcome ε (Nat × List Byte)) := by
  induction written generalizing limit number with
  | nil =>
    cases limit with
    | zero => rfl
    | succ limit =>
      rcases stops with full | other
      · exact absurd full (Nat.succ_ne_zero limit).symm
      · rw [map_nil, nil_append, readDigits, peek_cons, success_bind, other]
        rfl
  | cons d rest ih =>
    cases limit with
    | zero => exact absurd places (Nat.not_succ_le_zero _)
    | succ limit =>
      rw [map_cons, cons_append, readDigits, peek_cons, success_bind,
        reads d (digits d (mem_cons_self ..)), readFrom_cons]
      exact ih (fun later member => digits later (mem_cons_of_mem _ member))
        (Nat.le_of_succ_le_succ places)
        (stops.imp_left Nat.succ.inj) _

variable {p : List Byte}

theorem write_of_lt (inside : out.length < space) :
    write space p out unit = (.success ⟨true, p, out ++ [unit]⟩ : Outcome ε Reading) := by
  rw [write, put, if_pos inside]
  rfl

theorem hexEscape_writes {number : Nat} (writes : Writes 16 4 number written)
    (stops : written.length = 4 ∨ hexDigit c = none) :
    hexEscape space (written.map digitChar ++ c :: tail) out =
      (write space (c :: tail) out (BitVec.ofNat 16 number) : Outcome ε Reading) := by
  rcases writes.first with ⟨digit, rest, rfl, small, places, digits, value⟩
  rw [map_cons, cons_append, hexEscape, peek_cons, success_bind, hexDigit_digitChar digit small]
  dsimp only [tail_cons]
  rw [readDigits_run hexDigit_digitChar digits places (stops.imp_left Nat.succ.inj),
    success_bind, value]

theorem octEscape_writes {number : Nat} {digit : Nat} {rest : List Nat}
    (writes : Writes 8 3 number (digit :: rest))
    (stops : (digit :: rest).length = 3 ∨ octDigit c = none) :
    octEscape space digit (rest.map digitChar ++ c :: tail) out =
      (write space (c :: tail) out (BitVec.ofNat 16 number) : Outcome ε Reading) := by
  rcases writes.first with ⟨_, _, equality, _, places, digits, value⟩
  rcases List.cons.inj equality with ⟨rfl, rfl⟩
  rw [octEscape, readDigits_run octDigit_digitChar digits places
    (stops.imp_left Nat.succ.inj), success_bind, value]

/-! ## Reading one character back -/

/-- The byte that comes next is no digit unless the next character is one. -/
structure Follows (next : Option WChar) (c : Byte) : Prop where
  hex : hexFollows next = false → hexDigit c = none
  oct : octFollows next = false → octDigit c = none

theorem follows_backslash : Follows next (ch '\\') where
  hex := fun _ => by decide
  oct := fun _ => by decide

variable {quoting : Quoting}

theorem follows_endchar : Follows none quoting.endchar where
  hex := fun _ => by cases quoting <;> decide
  oct := fun _ => by cases quoting <;> decide

theorem follows_asIs (code : b.toNat = unit.toNat)
    (printable : 32 ≤ unit.toNat ∧ unit.toNat ≤ 127) :
    Follows (some unit) b where
  hex := by
    intro other
    have same : UInt8.ofNat unit.toNat = b := by rw [← code, UInt8.ofNat_toNat]
    have digit : isxdigit b = false := by
      simpa [hexFollows, same, show unit.toNat < 128 by omega] using other
    simpa [isxdigit] using digit
  oct := by
    intro other
    have outside : ¬ (48 ≤ b.toNat ∧ b.toNat ≤ 55) := by simpa [octFollows, code] using other
    rw [octDigit, if_neg]
    exact fun inside => outside inside

theorem Piece.first_follows {escape : Byte × Byte} (kind : Piece escape unit next piece) :
    ∃ c tail, piece.1 = c :: tail ∧ Follows (some unit) c := by
  cases kind with
  | hex | letter | oct | escaped => exact ⟨_, _, rfl, follows_backslash⟩
  | asIs b code printable _ => exact ⟨_, _, rfl, follows_asIs code printable⟩

variable {following : List Byte}

/-- What stands behind a character does not change how it is read. -/
theorem dumpText_follows : ∃ c tail, dumpText quoting.escape str ++ quoting.endchar :: following =
      c :: tail ∧ Follows str.head? c := by
  cases str with
  | nil => exact ⟨_, _, rfl, follows_endchar⟩
  | cons unit rest =>
    rcases (dumpChar_piece quoting.escape unit rest.head?).first_follows with
      ⟨c, tail, equality, follows⟩
    rw [dumpText, equality]
    exact ⟨_, _, rfl, follows⟩

theorem letterEscape_of_cEscape : ∀ c < 32, ∀ letter, cEscape c = some letter →
      letterEscape (ch letter) = some (BitVec.ofNat 16 c) := by
  have table : ∀ c < 32, (cEscape c).all fun letter =>
      letterEscape (ch letter) = some (BitVec.ofNat 16 c) := by decide
  intro c small letter known
  simpa [known] using table c small

theorem octal_first : ∀ digit < 8, letterEscape (digitChar digit) = none ∧
    digitChar digit ≠ ch 'x' ∧ digitChar digit ≠ 0 := by
  decide

/-- A backslash leads to what stands behind it. -/
theorem parseTurn_backslash {endchar : Byte} (inside : out.length < room)
    (delimiter : endchar ≠ ch '\\') (text : c ≠ 0) :
    parseTurn space room endchar (ch '\\' :: c :: tail) out =
      (escapeChar space room c tail out : Outcome ε Reading) := by
  rw [parseTurn, peek_cons, success_bind, if_neg, if_pos rfl]
  · dsimp only [tail_cons]
    rw [peek_cons, success_bind, if_neg text]
  rintro (zero | stop | full)
  · exact absurd zero (by decide)
  · exact delimiter stop.symm
  · omega

theorem plainChar_of_lt (small : c.toNat < 128) (code : c.toNat = unit.toNat)
    (inside : out.length < space) :
    plainChar space room c p out = (.success ⟨true, p, out ++ [unit]⟩ : Outcome ε Reading) := by
  rw [plainChar, if_pos (show c < 0x80 from small), write_of_lt inside, code,
    BitVec.ofNat_toNat, BitVec.setWidth_eq]

/-- An escaped delimiter has no other meaning behind a backslash. -/
theorem Quoting.escapeChar_special (quoting : Quoting)
    (special : b = ch '\\' ∨ b = quoting.escape.1 ∨ b = quoting.escape.2) :
    b ≠ 0 ∧ b.toNat < 128 ∧ escapeChar space room b p out =
      (plainChar space room b p out : Outcome ε Reading) := by
  cases quoting <;> rcases special with rfl | rfl | rfl <;>
    exact ⟨by decide, by decide, rfl⟩

/-- A turn takes back the text of a character. -/
theorem Piece.parseTurn_eq (kind : Piece quoting.escape unit next piece) (follows : Follows next c)
    (inside : out.length < room) (given : room ≤ space) :
    parseTurn space room quoting.endchar (piece.1 ++ c :: tail) out =
      (.success ⟨true, c :: tail, out ++ [unit]⟩ : Outcome ε Reading) := by
  have delimiter : quoting.endchar ≠ ch '\\' := by cases quoting <;> decide
  have spaceLeft : out.length < space := by omega
  have unitCode : BitVec.ofNat 16 unit.toNat = unit := by
    rw [BitVec.ofNat_toNat, BitVec.setWidth_eq]
  cases kind with
  | hex written _ writes stops =>
    have turn : escapeChar space room (ch 'x') (written.map digitChar ++ c :: tail) out =
        (hexEscape space (written.map digitChar ++ c :: tail) out : Outcome ε Reading) := rfl
    rw [← unitCode, ← write_of_lt spaceLeft,
      ← hexEscape_writes writes (stops.imp_right follows.hex), ← turn]
    exact parseTurn_backslash inside delimiter (by decide)
  | letter letter small known =>
    have known := letterEscape_of_cEscape _ small letter known
    have turn : escapeChar space room (ch letter) (c :: tail) out =
        (write space (c :: tail) out unit : Outcome ε Reading) := by
      rw [escapeChar, known, unitCode]
    rw [← write_of_lt spaceLeft, ← turn]
    refine parseTurn_backslash inside delimiter ?_
    intro zero
    have unknown : letterEscape 0 = none := by decide
    rw [zero, unknown] at known
    exact Option.some_ne_none _ known.symm
  | oct written small writes stops =>
    rcases writes.first with ⟨digit, rest, rfl, lt, _⟩
    have first := octal_first digit lt
    have turn : escapeChar space room (digitChar digit) (rest.map digitChar ++ c :: tail) out =
        (octEscape space digit (rest.map digitChar ++ c :: tail) out : Outcome ε Reading) := by
      rw [escapeChar, first.1]
      rw [if_neg first.2.1, octDigit_digitChar digit lt]
    rw [← unitCode, ← write_of_lt spaceLeft,
      ← octEscape_writes writes (stops.imp_right follows.oct), ← turn]
    exact parseTurn_backslash inside delimiter first.2.2
  | escaped b code special =>
    have turn : b ≠ 0 ∧ b.toNat < 128 ∧ escapeChar space room b (c :: tail) out =
        (plainChar space room b (c :: tail) out : Outcome ε Reading) :=
      quoting.escapeChar_special special
    rcases turn with ⟨nonzero, small, turn⟩
    rw [← plainChar_of_lt small code spaceLeft, ← turn]
    exact parseTurn_backslash inside delimiter nonzero
  | asIs b code printable ordinary =>
    rw [← plainChar_of_lt (by omega) code spaceLeft]
    rw [singleton_append, parseTurn, peek_cons, success_bind, if_neg,
      if_neg fun equality => ordinary (.inl equality), tail_cons]
    rintro (zero | stop | full)
    · rw [zero, UInt8.toNat_zero] at code
      omega
    · exact ordinary (.inr (stop ▸ by cases quoting <;> decide))
    · omega

/-! ## Reading a string back -/

theorem length_le_dumpText (escape : Byte × Byte) (str : List WChar) :
    str.length ≤ (dumpText escape str).length := by
  induction str with
  | nil => exact Nat.le_refl 0
  | cons unit rest ih =>
    have piece := (dumpChar_piece escape unit rest.head?).fits
    rw [dumpText, length_cons, length_append]
    omega

theorem parseLoop_dumpText {turns : Nat} (inside : out.length + str.length < room)
    (given : room ≤ space) (enough : str.length < turns) :
    parseLoop space room quoting.endchar turns
        (dumpText quoting.escape str ++ quoting.endchar :: following) out =
      (.success ⟨false, quoting.endchar :: following, out ++ str⟩ : Outcome ε Reading) := by
  induction str generalizing turns out with
  | nil =>
    obtain ⟨turns, rfl⟩ := Nat.exists_eq_add_one.mpr (Nat.zero_lt_of_lt enough)
    rw [dumpText, nil_append, parseLoop, parseTurn, peek_cons, success_bind,
      if_pos (.inr (.inl rfl)), success_bind, append_nil]
    rfl
  | cons unit rest ih =>
    obtain ⟨turns, rfl⟩ := Nat.exists_eq_add_one.mpr (Nat.zero_lt_of_lt enough)
    rw [length_cons] at inside enough
    rcases dumpText_follows with ⟨c, tail, behind, follows⟩
    rw [dumpText, append_assoc, parseLoop, behind,
      (dumpChar_piece quoting.escape unit rest.head?).parseTurn_eq follows
        (by omega) given, success_bind]
    rw [if_pos rfl, ← behind, ih (by rw [length_append, length_singleton]; omega) (by omega),
      append_assoc, singleton_append]

/-- The string comes back, and only the number of bytes read is cut off. -/
theorem parseStrW_dumpText (quoting : Quoting) (str : List WChar) (following : List Byte)
    (room : str.length + 1 ≤ len / 2) (given : len / 2 ≤ space) (size : len < 2 ^ 32) :
    parseStrW space len
        (dumpText quoting.escape str ++ quoting.endchar :: following) quoting.endchar =
      (.success
        { ret := toInt ((dumpText quoting.escape str).length + 1)
          len := (str.length + 1) * 2
          units := str ++ [0] } : Outcome ε Parsed) := by
  have longer := length_le_dumpText quoting.escape str
  have inside : ([] : List WChar).length + str.length < len / 2 := by
    rw [length_nil]
    omega
  rw [parseStrW, parseLoop_dumpText inside given (by rw [length_append]; omega), success_bind]
  dsimp only [nil_append]
  rw [if_neg (by omega), put, if_pos (by omega), success_bind, peek_cons,
    success_bind, if_neg (by cases quoting <;> decide)]
  rw [length_append, Nat.add_sub_cancel, length_append,
    length_singleton, dataSizeT, Nat.mod_eq_of_lt (by omega)]

/-! ## The length of the text -/

/-- The digits of a number above 127 in hexadecimal. -/
def hexPlaces (c : Nat) : Nat := if c < 16 ^ 2 then 2 else if c < 16 ^ 3 then 3 else 4

/-- The bytes that a character takes in the text. -/
def escapedSize (escape : Byte × Byte) (unit : WChar) (next : Option WChar) : Nat :=
  let c := unit.toNat
  if c > 127 then if hexFollows next then 6 else 2 + hexPlaces c
  else if c < 32 then
    if (7 ≤ c ∧ c ≤ 13) ∨ c = 27 then 2
    else if octFollows next then 4
    else if c < 8 then 2
    else 3
  else if c = (ch '\\').toNat ∨ c = escape.1.toNat ∨ c = escape.2.toNat then 2
  else 1

/-- The bytes that a string takes in the text. -/
def escapedLength (escape : Byte × Byte) : List WChar → Nat
  | [] => 0
  | unit :: rest => escapedSize escape unit rest.head? + escapedLength escape rest

theorem trim_hex_length {c : Nat} (large : 127 < c) (small : c < 2 ^ 16) :
    (trim (digits 16 4 c)).length = hexPlaces c := by
  have spread : digits 16 4 c = [c / 16 ^ 3 % 16, c / 16 ^ 2 % 16, c / 16 ^ 1 % 16,
      c / 16 ^ 0 % 16] := rfl
  rw [spread, hexPlaces]
  split_ifs with two three
  · rw [show c / 16 ^ 3 % 16 = 0 by omega, show c / 16 ^ 2 % 16 = 0 by omega,
      trim_zero_cons, trim_zero_cons, trim_cons_of_ne_zero (by omega)]
    rfl
  · rw [show c / 16 ^ 3 % 16 = 0 by omega, trim_zero_cons, trim_cons_of_ne_zero (by omega)]
    rfl
  · rw [trim_cons_of_ne_zero (by omega)]
    rfl

theorem trim_oct_length : ∀ c < 32, (trim (digits 8 3 c)).length = if c < 8 then 1 else 2 := by
  decide

theorem cEscape_isSome_iff : ∀ c < 32, (cEscape c).isSome ↔ (7 ≤ c ∧ c ≤ 13) ∨ c = 27 := by decide

theorem dumpChar_length : (dumpChar escape unit next).1.length = escapedSize escape unit next := by
  unfold dumpChar escapedSize
  by_cases large : unit.toNat > 127
  · rw [if_pos large, if_pos large]
    split_ifs
    · simp [text, padded]
    · simp only [text, plain, length_append, length_map,
        trim_hex_length large unit.isLt, length_cons, length_nil]
  rw [if_neg large, if_neg large]
  by_cases small : unit.toNat < 32
  · have known := cEscape_isSome_iff unit.toNat small
    rw [if_pos small, if_pos small]
    cases letter : cEscape unit.toNat with
    | some letter =>
      rw [if_pos (known.mp (by rw [letter]; rfl))]
      rfl
    | none =>
      have unknown : ¬ ((7 ≤ unit.toNat ∧ unit.toNat ≤ 13) ∨ unit.toNat = 27) := by
        rw [← known, letter]
        exact Bool.false_ne_true
      rw [if_neg unknown]
      by_cases follows : octFollows next = true
      · rw [if_pos follows, if_pos follows]
        simp [text, padded]
      rw [if_neg follows, if_neg follows]
      split_ifs with single
      · simp [text, plain, trim_oct_length unit.toNat small, single]
      · simp [text, plain, trim_oct_length unit.toNat small, single]
  rw [if_neg small, if_neg small]
  have same (b : Byte) : UInt8.ofNat unit.toNat = b ↔ unit.toNat = b.toNat := by
    rw [← UInt8.toNat_inj, UInt8.toNat_ofNat', Nat.mod_eq_of_lt (by omega)]
  simp only [same]
  split_ifs <;> rfl

theorem dumpText_length : (dumpText escape str).length = escapedLength escape str := by
  induction str with
  | nil => rfl
  | cons unit rest ih => rw [dumpText, escapedLength, length_append, dumpChar_length, ih]

theorem toInt_eq_iff (n : Nat) : toInt n = n ↔ n < 2 ^ 31 := by
  unfold toInt
  rw [Int.bmod_def]
  split_ifs with small
  · omega
  · omega

/-- What comes back is right where an `int` holds the number of bytes read. -/
theorem parseStrW_dumpText_iff (room : str.length + 1 ≤ len / 2) (given : len / 2 ≤ space)
    (size : len < 2 ^ 32) :
    parseStrW space len
        (dumpText quoting.escape str ++ quoting.endchar :: following) quoting.endchar =
      (.success
        { ret := (dumpText quoting.escape str).length + 1
          len := (str.length + 1) * 2
          units := str ++ [0] } : Outcome ε Parsed) ↔
      escapedLength quoting.escape str + 1 < 2 ^ 31 := by
  rw [← dumpText_length, ← toInt_eq_iff, Nat.cast_succ,
    parseStrW_dumpText quoting str following room given size, Outcome.success.injEq,
    Parsed.mk.injEq]
  exact and_iff_left ⟨rfl, rfl⟩

/-- Every string is written without an overflow of the staging buffer, and it is
read back with its NUL and its length; the number of bytes read is returned as
long as an `int` holds it. -/
theorem escaped_string_read_back_iff (quoting : Quoting) (str : List WChar) (following : List Byte)
    (space len : Nat) (room : str.length + 1 ≤ len / 2) (given : len / 2 ≤ space)
    (size : len < 2 ^ 32) :
    (∃ dumped, dumpStrW str quoting.escape = (.success dumped : Outcome Unit (List Byte)) ∧
      parseStrW space len (dumped ++ quoting.endchar :: following) quoting.endchar = (.success
          { ret := dumped.length + 1
            len := (str.length + 1) * 2
            units := str ++ [0] } : Outcome Unit Parsed)) ↔
      escapedLength quoting.escape str + 1 < 2 ^ 31 := by
  rw [dumpStrW_eq, ← parseStrW_dumpText_iff room given size]
  constructor
  · rintro ⟨dumped, written, parsed⟩
    rw [Outcome.success.injEq] at written
    rw [written]
    exact parsed
  · exact fun parsed => ⟨_, rfl, parsed⟩

theorem escaped_string_read_back_quoted : ∃ dumped,
      dumpStrW (wstr ['a', '"', '\x01', '7']) Quoting.value.escape =
        (.success dumped : Outcome Unit (List Byte)) ∧
      parseStrW 5 10 (dumped ++ Quoting.value.endchar :: [0]) Quoting.value.endchar = (.success
          { ret := dumped.length + 1, len := 10,
            units := wstr ['a', '"', '\x01', '7'] ++ [0] } : Outcome Unit Parsed) :=
  (escaped_string_read_back_iff .value (wstr ['a', '"', '\x01', '7']) [0] 5 10
    (by decide) (by decide) (by decide)).mpr (by decide)

theorem escapedLength_replicate (count : Nat) :
    escapedLength escape (replicate count 0xffff) = 6 * count := by
  induction count with
  | zero => rfl
  | succ count ih =>
    have size : escapedSize escape 0xffff (replicate count 0xffff).head? = 6 := by
      unfold escapedSize
      rw [if_pos (by decide)]
      split_ifs
      · rfl
      · decide
    rw [replicate_succ, escapedLength, size, ih]
    ring

/-- 2^29 characters above `0xfff` take more bytes than an `int` counts. -/
theorem long_escaped_string_returns_other_length : ¬ ∃ dumped,
      dumpStrW (List.replicate (2 ^ 29) 0xffff) Quoting.value.escape =
        (.success dumped : Outcome Unit (List Byte)) ∧
      parseStrW (2 ^ 30) (2 ^ 31) (dumped ++ Quoting.value.endchar :: [0]) Quoting.value.endchar =
        (.success
          { ret := dumped.length + 1
            len := ((List.replicate (2 ^ 29) (0xffff : WChar)).length + 1) * 2
            units := List.replicate (2 ^ 29) 0xffff ++ [0] } : Outcome Unit Parsed) := by
  rw [dumpStrW_eq]
  rintro ⟨dumped, written, parsed⟩
  rw [Outcome.success.injEq] at written
  rw [← written] at parsed
  have small := (parseStrW_dumpText_iff (by rw [length_replicate]; norm_num)
    (by norm_num) (by norm_num)).mp parsed
  rw [escapedLength_replicate] at small
  exact absurd small (by norm_num)

end WineRedRose.RegText
