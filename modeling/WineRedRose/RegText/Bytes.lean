import WineRedRose.RegText.Buffers
import WineRedRose.RegText.ValueText

/-!
# Numbers and bytes read back

A number is read up to the first character that is no digit.  Bytes in
hexadecimal are read line by line into the temp buffer, which is enlarged before
each line; the size it needs is computed in 32 bits.
-/

namespace WineRedRose.RegText

open Library.Reads Library.Numerals Registry List

variable {ε : Type}

/-! ## Numbers -/

/-- A character that ends a number. -/
def EndsNumber (c : Byte) : Prop := isxdigit c = false ∧ c ≠ ch 'x' ∧ c ≠ ch 'X'

theorem digitChar_facts : ∀ d < 16, isxdigit (digitChar d) = true ∧
    isspace (digitChar d) = false ∧ digitChar d ≠ ch '-' ∧ digitChar d ≠ ch '+' ∧
    digitChar d ≠ ch 'x' ∧ digitChar d ≠ ch 'X' := by
  decide

variable {p file : List Byte} {written : List Nat} {turns : Nat} {more : List (List (BitVec 8))}

theorem skipPrefix_eq {first : Byte} (second : ∀ c ∈ p.head?, c ≠ ch 'x' ∧ c ≠ ch 'X') :
    skipPrefix (first :: p) = first :: p := by
  rcases p with _ | ⟨c, _ | ⟨d, p⟩⟩
  · rfl
  · rfl
  · have plain := second c rfl
    rw [skipPrefix, if_neg]
    rintro ⟨_, hex | hex, _⟩
    · exact plain.1 hex
    · exact plain.2 hex

theorem filterMap_digits (digits : ∀ d ∈ written, d < 16) :
    (written.map digitChar).filterMap hexDigit = written := by
  rw [filterMap_map]
  conv_rhs => rw [← filterMap_some (l := written)]
  exact filterMap_congr fun d member => hexDigit_digitChar d (digits d member)

/-- A number that was written is read up to its end. -/
theorem strtoul_writes {places number : Nat} (writes : Writes 16 places number written)
    (small : number < 2 ^ 64) {tail : List Byte} (stops : ∀ c ∈ tail.head?, EndsNumber c) :
    strtoul (written.map digitChar ++ tail) = (number, tail) := by
  have facts := fun d member => digitChar_facts d (writes.lt d member)
  rcases exists_cons_of_ne_nil writes.ne_nil with ⟨d, rest, rfl⟩
  have first := facts d (mem_cons_self ..)
  have second : ∀ c ∈ (rest.map digitChar ++ tail).head?, c ≠ ch 'x' ∧ c ≠ ch 'X' := by
    rcases rest with _ | ⟨next, rest⟩
    · exact fun c head => (stops c head).2
    · rintro c head
      rw [← Option.some.inj head]
      have later := facts next (by simp)
      exact later.2.2.2.2
  have run : ((d :: rest).map digitChar ++ tail).takeWhile isxdigit =
      (d :: rest).map digitChar := by
    rw [takeWhile_append_of_pos (by
      intro c member
      rcases mem_map.mp member with ⟨digit, inside, rfl⟩
      exact (facts digit inside).1)]
    cases tail with
    | nil => simp
    | cons c tail => rw [takeWhile_cons_of_neg (by simp [(stops c rfl).1]), append_nil]
  have start : ((d :: rest).map digitChar ++ tail).dropWhile isspace =
      (d :: rest).map digitChar ++ tail :=
    dropWhile_cons_of_neg (by simp [first.2.1])
  have sign : ((d :: rest).map digitChar ++ tail).head? = some (digitChar d) := rfl
  unfold strtoul
  dsimp only
  rw [start, sign]
  simp only [Option.some.injEq, first.2.2.1, first.2.2.2.1, or_self, if_false]
  rw [map_cons, cons_append, skipPrefix_eq second, ← cons_append,
    ← map_cons, run, if_neg (by simp), filterMap_digits writes.lt, writes.value,
    Nat.min_eq_left (by omega), drop_left]

/-! ## Bytes in hexadecimal -/

theorem writes_byte (byte : BitVec 8) : Writes 16 2 byte.toNat (digits 16 2 byte.toNat) :=
  writes_digits (by decide) byte.isLt

/-- What stands behind the last byte of a line. -/
def lineEnd (last : Bool) : List Byte := if last then [] else text ['\\']

variable {last : Bool}

theorem lineText_head (last : Bool) (line : List (BitVec 8)) :
    ∀ c ∈ (lineText last line).head?, isspace c = false := by
  intro c head
  cases line with
  | nil =>
    cases last with
    | true => cases head
    | false =>
      rw [← Option.some.inj head]
      decide
  | cons byte rest =>
    have digit := (writes_byte byte).lt (byte.toNat / 16 ^ 1 % 16) (mem_cons_self ..)
    rw [← Option.some.inj head]
    exact (digitChar_facts _ digit).2.1

theorem skipSpace_of_head (text : ∀ c ∈ p.head?, isspace c = false) : skipSpace p = p := by
  cases p with
  | nil => rfl
  | cons c p => exact dropWhile_cons_of_neg (by simp [text c rfl])

/-- A byte and the comma behind it. -/
theorem parseHexByte_lineText (byte : BitVec 8) (rest : List (BitVec 8)) :
    parseHexByte (lineText last (byte :: rest)) = (byte.toNat, lineText last rest) := by
  have ends : EndsNumber (ch ',') := by
    unfold EndsNumber
    decide
  have written {tail : List Byte} (stops : ∀ c ∈ tail.head?, EndsNumber c) :
      strtoul (padded 16 2 byte.toNat ++ tail) = (byte.toNat, tail) :=
    strtoul_writes (writes_byte byte) (by omega) stops
  have number : byte.toNat % 2 ^ 32 = byte.toNat := Nat.mod_eq_of_lt (by omega)
  unfold parseHexByte
  rw [lineText, append_assoc]
  by_cases single : (last && rest.isEmpty) = true
  · have empty : lineText last rest = [] := by
      rw [Bool.and_eq_true, List.isEmpty_iff] at single
      rw [single.1, single.2]
      rfl
    rw [if_pos single, nil_append, empty, written (by simp)]
    exact Prod.ext number rfl
  · rw [if_neg single, written (by
      intro c head
      rw [← Option.some.inj head]
      exact ends)]
    have comma : skipSpace (text [','] ++ lineText last rest) = ch ',' :: lineText last rest := rfl
    dsimp only
    rw [comma, head?_cons, if_pos rfl, tail_cons,
      skipSpace_of_head (lineText_head last rest), number]

/-- A line is read where the buffer has space for its bytes. -/
theorem parseHexLoop_lineText (last : Bool) (line : List (BitVec 8)) {room : Nat} (space : Nat)
    (enough : line.length ≤ turns) (given : line.length ≤ room) :
    parseHexLoop turns space room (lineText last line) =
      if line.length ≤ space then (.success (some (line, lineEnd last)) : Outcome ε _)
      else .outside := by
  induction line generalizing turns room space with
  | nil =>
    rw [length_nil, if_pos (Nat.zero_le _)]
    cases turns with
    | zero => rfl
    | succ turns =>
      rw [parseHexLoop, if_neg]
      · rfl
      · cases last <;> decide
  | cons byte rest ih =>
    rw [length_cons] at enough given
    obtain ⟨turns, rfl⟩ := Nat.exists_eq_add_of_le' (Nat.one_le_of_lt enough)
    have digit := (writes_byte byte).lt (byte.toNat / 16 ^ 1 % 16) (mem_cons_self ..)
    have head : (lineText last (byte :: rest)).head?.any isxdigit = true :=
      (digitChar_facts _ digit).1
    rw [parseHexLoop, if_pos head, parseHexByte_lineText]
    dsimp only
    rw [if_neg (by omega), if_neg (by omega), length_cons]
    cases space with
    | zero => rw [if_pos rfl, if_neg (Nat.not_succ_le_zero _)]
    | succ space =>
      rw [if_neg (Nat.succ_ne_zero space), Nat.succ_sub_one, ih space (by omega) (by omega)]
      by_cases fits : rest.length ≤ space
      · rw [if_pos fits, if_pos (Nat.succ_le_succ fits), success_bind]
        simp
      · rw [if_neg fits, if_neg (fun both => fits (Nat.le_of_succ_le_succ both))]
        rfl

/-- The temp buffer has space for the lines of bytes: before each line it is
enlarged to what the line may need beyond the bytes so far, but the sum is taken
modulo 2^32. -/
def hexFits : (tmplen done : Nat) → (lines : List Nat) → Bool
  | _, _, [] => true
  | tmplen, done, count :: more =>
    let chars := if more.isEmpty then 3 * count - 1 else 3 * count + 1
    let tmplen := max tmplen ((done + (1 + chars / 2)) % 2 ^ 32)
    decide (done + count ≤ tmplen) && hexFits tmplen (done + count) more

/-- Less than 2^32 - 40 bytes always have space. -/
theorem hexFits_of_lt (tmplen done : Nat) (lines : List Nat) (short : ∀ count ∈ lines, count ≤ 26)
    (size : done + lines.sum + 40 < 2 ^ 32) : hexFits tmplen done lines = true := by
  induction lines generalizing tmplen done with
  | nil => rfl
  | cons count more ih =>
    rw [sum_cons] at size
    rcases forall_mem_cons.mp short with ⟨bound, later⟩
    rw [hexFits, Bool.and_eq_true, decide_eq_true_eq]
    refine ⟨?_, ih _ _ later (by omega)⟩
    rw [Nat.mod_eq_of_lt]
    · split_ifs <;> omega
    · split_ifs <;> omega

variable {line : List (BitVec 8)} {info : FileLoadInfo}

theorem lineText_size (last : Bool) (short : line.length ≤ 26) :
    (lineText last line).length ≤ 79 ∧ line.length ≤ 1 + (lineText last line).length / 2 ∧
      line.length ≤ (lineText last line).length := by
  rw [lineText_length]
  cases last with
  | false =>
    simp only [Bool.false_eq_true, if_false]
    omega
  | true =>
    simp only [if_true]
    omega

/-- The turn of `load_value` for one line. -/
theorem parseHex_line (short : line.length ≤ 26) (space : Nat) :
    parseHex space (dataSizeT (1 + (lineText last line).length / 2)) (lineText last line) =
      if line.length ≤ space then (.success (some (line, lineEnd last)) : Outcome ε _)
      else .outside := by
  have size := lineText_size last short
  rw [parseHex, if_pos (by omega), dataSizeT, Nat.mod_eq_of_lt (by omega)]
  exact parseHexLoop_lineText last line space size.2.2 size.2.1

/-- A line of bytes that is not the last is followed by the next. -/
theorem readNextLine_moreText (sound : info.Sound) (short : line.length ≤ 26)
    (contents : info.file = moreText (line :: more) ++ file) :
    ∃ next, readNextLine info = some (text [' ', ' '] ++ lineText more.isEmpty line, next) ∧
      next.Sound ∧ next.tmplen = info.tmplen ∧ next.file = moreText more ++ file := by
  have blanks : Printable (text [' ', ' ']) := by decide
  have printable := blanks.append (printable_lineText more.isEmpty line)
  have size := lineText_size more.isEmpty short
  have split : info.file = (text [' ', ' '] ++ lineText more.isEmpty line) ++
      ch '\n' :: (moreText more ++ file) := by
    rw [contents, moreText]
    simp [text]
  have length : (text [' ', ' '] ++ lineText more.isEmpty line).length + 2 ≤ maxBuffer := by
    rw [length_append, text, length_map, maxBuffer]
    simp only [length_cons, length_nil]
    omega
  have read := readNextLine_eq sound (printable.not_mem (by decide))
    (printable.not_mem (by decide)) split
  rw [if_pos length] at read
  rcases read with ⟨len, sizes, _, read⟩
  exact ⟨_, read, ⟨sizes, sound.tmplen_lt⟩, rfl, rfl⟩

theorem length_le_moreText (lines : List (List (BitVec 8))) :
    lines.length ≤ (moreText lines).length := by
  induction lines with
  | nil => exact Nat.le_refl 0
  | cons line more ih =>
    simp only [moreText, length_append, length_cons, text, length_map, length_nil]
    omega

theorem dataSizeT_of_lt {n : Nat} (small : n < 2 ^ 32) : dataSizeT n = n := Nat.mod_eq_of_lt small

/-- The buffers when the temp buffer was enlarged for a line. -/
def spaceFor (info : FileLoadInfo) (done : List (BitVec 8)) (chars : Nat) :
    FileLoadInfo :=
  getFileTmpSpace info ((done.length + (1 + chars / 2)) % 2 ^ 32)

theorem spaceFor_tmplen (info : FileLoadInfo) (done : List (BitVec 8)) (chars : Nat) :
    (spaceFor info done chars).tmplen =
      max info.tmplen ((done.length + (1 + chars / 2)) % 2 ^ 32) :=
  getFileTmpSpace_tmplen _ _

theorem sound_spaceFor (sound : info.Sound) (done : List (BitVec 8)) (chars : Nat) :
    (spaceFor info done chars).Sound :=
  sound_getFileTmpSpace sound (Nat.mod_lt _ (by decide))

/-- The bytes of a line go behind those so far, and what comes then depends on
how the line ends. -/
theorem loadHex_line (turns : Nat) {done : List (BitVec 8)} (inside : done.length ≤ info.tmplen)
    (last : Bool) (short : line.length ≤ 26) :
    loadHex (turns + 1) done (lineText last line) info =
      if done.length + line.length ≤ (spaceFor info done (lineText last line).length).tmplen then
        (if last then .success (some (done ++ line), spaceFor info done (lineText last line).length)
        else
          match readNextLine (spaceFor info done (lineText last line).length) with
          | none => .success (none, spaceFor info done (lineText last line).length)
          | some (next, info) => loadHex turns (done ++ line) (skipSpace next) info :
            Outcome ε (Option (List (BitVec 8)) × FileLoadInfo))
      else .outside := by
  have size := lineText_size last short
  have grown : info.tmplen ≤ (spaceFor info done (lineText last line).length).tmplen := by
    rw [spaceFor_tmplen]
    exact Nat.le_max_left _ _
  rw [loadHex]
  rw [parseHex_line short, dataSizeT_of_lt (n := 1 + _) (by omega), dataSizeT, ← spaceFor]
  by_cases fits : done.length + line.length ≤
      (spaceFor info done (lineText last line).length).tmplen
  · rw [if_pos fits, if_pos (Nat.le_sub_of_add_le' fits), success_bind]
    cases last <;> rfl
  · rw [if_neg fits, if_neg fun left => fits (by omega)]
    rfl

variable (ε) in
/-- The lines of bytes are read where the temp buffer has space for them. -/
theorem loadHex_lines (sound : info.Sound) (enough : more.length < turns) (short : line.length ≤ 26)
    (later : ∀ next ∈ more, next.length ≤ 26) (contents : info.file = moreText more ++ file)
    (done : List (BitVec 8)) (inside : done.length ≤ info.tmplen) :
    if hexFits info.tmplen done.length (line.length :: more.map length) then
      ∃ last, last.file = file ∧ loadHex turns done (lineText more.isEmpty line) info =
          (.success (some (done ++ (line ++ more.flatten)), last) : Outcome ε _)
    else loadHex turns done (lineText more.isEmpty line) info = (.outside : Outcome ε _) := by
  induction turns generalizing info line more done with
  | zero => exact absurd enough (Nat.not_lt_zero _)
  | succ turns ih =>
    have chars : (if (more.map length).isEmpty then 3 * line.length - 1
        else 3 * line.length + 1) = (lineText more.isEmpty line).length := by
      rw [lineText_length, isEmpty_map]
    have contents' : (spaceFor info done (lineText more.isEmpty line).length).file =
        moreText more ++ file := by
      rw [spaceFor, getFileTmpSpace_file, contents]
    rw [loadHex_line turns inside _ short, hexFits, chars, ← spaceFor_tmplen]
    by_cases fits : done.length + line.length ≤
        (spaceFor info done (lineText more.isEmpty line).length).tmplen
    · rw [if_pos fits, decide_eq_true fits, Bool.true_and]
      cases more with
      | nil =>
        rw [map_nil, hexFits, if_pos rfl]
        refine ⟨_, contents', ?_⟩
        rw [flatten_nil, append_nil]
        rfl
      | cons next more =>
        rcases forall_mem_cons.mp later with ⟨short', later'⟩
        rcases readNextLine_moreText (sound_spaceFor sound done _) short' contents' with
          ⟨info', read, sound', tmplen, contents''⟩
        have blanks : skipSpace (text [' ', ' '] ++ lineText more.isEmpty next) =
            lineText more.isEmpty next :=
          skipSpace_of_head (lineText_head more.isEmpty next)
        have inside' : (done ++ line).length ≤ info'.tmplen := by
          rw [length_append, tmplen]
          exact fits
        have tail := ih sound' (Nat.lt_of_succ_lt_succ enough) short' later' contents''
          (done ++ line) inside'
        rw [length_append, tmplen, append_assoc] at tail
        rw [isEmpty_cons, if_neg Bool.false_ne_true]
        rw [isEmpty_cons] at read tail
        rw [read]
        dsimp only
        rw [blanks]
        exact tail
    · rw [if_neg fits, decide_eq_false fits, Bool.false_and]
      rfl

end WineRedRose.RegText
