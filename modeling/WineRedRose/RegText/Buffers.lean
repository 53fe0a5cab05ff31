import WineRedRose.RegText.Model

/-!
# The buffers of a file that is loaded

`load_keys` reads each line into a buffer that `read_next_line` enlarges by a
half where it is too small.  Its size is an `int`, so only fifty sizes can
occur, and a line beyond the last of them ends the loading.  The temp buffer is
sized by the lines and never reaches the size at which a `data_size_t` would
cut it off.
-/

namespace WineRedRose.RegText

open Library.Reads Registry List Option

variable {ε : Type}

/-- The sizes that the line buffer can have. -/
def bufferSizes : List Nat := iterate growBuffer 4 50

/-- The largest size of the line buffer. -/
def maxBuffer : Nat := 1551591828

theorem growBuffer_mem_bufferSizes :
    ∀ len ∈ bufferSizes, growBuffer len < 2 ^ 31 → growBuffer len ∈ bufferSizes := by
  decide

theorem bufferSizes_bounds : ∀ len ∈ bufferSizes, 4 ≤ len ∧ len ≤ maxBuffer := by decide

theorem eq_maxBuffer_of_overflow :
    ∀ len ∈ bufferSizes, ¬ growBuffer len < 2 ^ 31 → len = maxBuffer := by
  decide

/-- What holds of the buffers between two lines. -/
structure FileLoadInfo.Sound (info : FileLoadInfo) : Prop where
  size : info.len ∈ bufferSizes
  tmplen_lt : info.tmplen < 2 ^ 32

/-- The line buffer holds a line and its NUL. -/
structure FileLoadInfo.Holds (info : FileLoadInfo) (line : List Byte) : Prop where
  terminated : 0 ∉ line
  fits : line.length < info.len

/-- `load_keys` starts with sound buffers. -/
theorem sound_start (file : List Byte) : FileLoadInfo.Sound ⟨file, 4, 4⟩ where
  size := show 4 ∈ bufferSizes by decide
  tmplen_lt := show 4 < 2 ^ 32 by decide

variable {turns : Nat} {loaded : Option (List (BitVec 8))} {parseType : ParseType} {made : Key}
variable {ret : Bool}

/-- A buffer is enlarged to hold what it can hold at its largest. -/
theorem enlargeBuffer_spec {needed len : Nat} (size : len ∈ bufferSizes)
    (enough : needed ≤ len + turns) :
    if needed ≤ maxBuffer then
      ∃ enlarged ∈ bufferSizes, enlargeBuffer needed turns len = some enlarged ∧ needed ≤ enlarged
    else enlargeBuffer needed turns len = none := by
  have bounds := bufferSizes_bounds len size
  induction turns generalizing len with
  | zero =>
    have holds : needed ≤ len := enough
    rw [if_pos (holds.trans bounds.2), enlargeBuffer, if_pos holds]
    exact ⟨len, size, rfl, holds⟩
  | succ turns ih =>
    rw [enlargeBuffer]
    by_cases holds : needed ≤ len
    · rw [if_pos (holds.trans bounds.2), if_pos holds]
      exact ⟨len, size, rfl, holds⟩
    · rw [if_neg holds]
      by_cases grows : growBuffer len < 2 ^ 31
      · have grown := growBuffer_mem_bufferSizes len size grows
        have larger : len < growBuffer len := by
          unfold growBuffer
          omega
        rw [if_pos grows]
        exact ih grown (by omega) (bufferSizes_bounds _ grown)
      · have last := eq_maxBuffer_of_overflow len size grows
        rw [if_neg grows, if_neg (by omega)]

variable {info : FileLoadInfo} {line buffer : List Byte}

theorem sound_getFileTmpSpace (sound : info.Sound) {size : Nat} (small : size < 2 ^ 32) :
    (getFileTmpSpace info size).Sound := by
  unfold getFileTmpSpace
  split_ifs
  · exact sound
  · exact ⟨sound.size, small⟩

variable {size : Nat}

@[simp]
theorem getFileTmpSpace_file (info : FileLoadInfo) (size : Nat) :
    (getFileTmpSpace info size).file = info.file := by
  unfold getFileTmpSpace
  split_ifs <;> rfl

@[simp]
theorem getFileTmpSpace_len : (getFileTmpSpace info size).len = info.len := by
  unfold getFileTmpSpace
  split_ifs <;> rfl

theorem getFileTmpSpace_tmplen (info : FileLoadInfo) (size : Nat) :
    (getFileTmpSpace info size).tmplen = max info.tmplen size := by
  unfold getFileTmpSpace
  split_ifs with large
  · exact (max_eq_left large).symm
  · exact (max_eq_right (Nat.le_of_not_le large)).symm

section

variable (sound : info.Sound)
include sound

theorem FileLoadInfo.Holds.length_lt (held : info.Holds line) : line.length < maxBuffer :=
  held.fits.trans_le (bufferSizes_bounds _ sound.size).2

/-- The temp space for a line is not cut off by a `data_size_t`. -/
theorem FileLoadInfo.Sound.size_lt {length : Nat} (fits : length < info.len) :
    length * 2 < 2 ^ 32 := by
  have bound := (bufferSizes_bounds _ sound.size).2
  unfold maxBuffer at bound
  omega

theorem FileLoadInfo.Holds.size_lt (held : info.Holds line) : line.length * 2 < 2 ^ 32 :=
  sound.size_lt held.fits

/-- A line is read where the largest buffer holds it. -/
theorem readNextLine_eq {file : List Byte} (text : ch '\n' ∉ line) (ending : ch '\r' ∉ line)
    (contents : info.file = line ++ ch '\n' :: file) :
    if line.length + 2 ≤ maxBuffer then
      ∃ len ∈ bufferSizes, line.length + 2 ≤ len ∧
        readNextLine info = some (line, { info with file := file, len := len })
    else readNextLine info = none := by
  have nonempty : info.file ≠ [] := by
    rw [contents]
    exact append_ne_nil_of_right_ne_nil _ (cons_ne_nil _ _)
  have inLine : ∀ c ∈ line, decide (c ≠ ch '\n') = true :=
    fun c member => decide_eq_true fun equality => text (equality ▸ member)
  have front : info.file.takeWhile (· ≠ ch '\n') = line := by
    rw [contents, takeWhile_append_of_pos inLine, takeWhile_cons_of_neg (by simp), append_nil]
  have back : (info.file.dropWhile (· ≠ ch '\n')).tail = file := by
    rw [contents, dropWhile_append_of_pos inLine, dropWhile_cons_of_neg (by simp), tail_cons]
  have kept : stripReturn line = line := if_neg fun last => ending (mem_of_getLast? last)
  have enlarged := enlargeBuffer_spec sound.size (Nat.le_add_left (line.length + 2) info.len)
  unfold readNextLine
  rw [if_neg nonempty]
  dsimp only
  rw [front, back, kept]
  split_ifs at enlarged ⊢ with fits
  · rcases enlarged with ⟨len, size, found, holds⟩
    exact ⟨len, size, holds, by rw [found]⟩
  · rw [enlarged]

omit sound in
theorem stripReturn_sublist (line : List Byte) : (stripReturn line).Sublist line := by
  unfold stripReturn
  split_ifs
  · exact dropLast_sublist line
  · exact List.Sublist.refl line

/-- A line that was read is in a sound buffer. -/
theorem readNextLine_sound {next : FileLoadInfo} (read : readNextLine info = some (line, next)) :
    next.Sound ∧ line.length < next.len ∧ line ⊆ info.file := by
  have enlarged := enlargeBuffer_spec sound.size
    (Nat.le_add_left ((info.file.takeWhile (· ≠ ch '\n')).length + 2) info.len)
  have sublist := stripReturn_sublist (info.file.takeWhile (· ≠ ch '\n'))
  have shorter := sublist.length_le
  unfold readNextLine at read
  dsimp only at read
  split_ifs at read with fileEnd
  split at read
  · exact absurd read.symm (some_ne_none _)
  rename_i len found
  rw [found] at enlarged
  split_ifs at enlarged with fits
  rcases enlarged with ⟨_, size, equality, holds⟩
  rw [← some.inj equality] at size holds
  rcases Prod.mk.inj (some.inj read) with ⟨rfl, rfl⟩
  refine ⟨⟨size, sound.tmplen_lt⟩, ?_, ?_⟩
  · show _ < len
    omega
  · exact List.Subset.trans sublist.subset (List.takeWhile_prefix _).subset

/-! ## Sound buffers stay sound -/

theorem loadHex_sound {data : List (BitVec 8)} {last : FileLoadInfo}
    (load : loadHex turns data buffer info = (.success (loaded, last) : Outcome ε _)) :
    last.Sound := by
  induction turns generalizing data buffer info with
  | zero => cases load
  | succ turns ih =>
    have sound' := sound_getFileTmpSpace sound
      (show dataSizeT (data.length + dataSizeT (1 + buffer.length / 2)) < 2 ^ 32 from
        Nat.mod_lt _ (by decide))
    rcases bind_eq_success_iff.mp load with ⟨parsed, _, load⟩
    rcases parsed with _ | ⟨bytes, rest⟩
    · cases load
      exact sound'
    dsimp only at load
    split at load
    · cases load
      exact sound'
    split_ifs at load with next
    · split at load
      · cases load
        exact sound'
      · rename_i line info' read
        exact ih (readNextLine_sound sound' read).1 load
    · cases load
      exact sound'

theorem loadData_sound {last : FileLoadInfo} (fits : buffer.length < info.len)
    (load : loadData parseType buffer info = (.success (loaded, last) : Outcome ε _)) :
    last.Sound := by
  cases parseType with
  | string =>
    have sound' := sound_getFileTmpSpace sound (sound.size_lt fits)
    rcases bind_eq_success_iff.mp load with ⟨parsed, _, load⟩
    split_ifs at load with failed
    · cases load
      exact sound'
    · cases load
      exact sound'
  | dword =>
    cases load
    exact sound
  | binary => exact loadHex_sound sound load

end

theorem skipPrefix_length_le (p : List Byte) : (skipPrefix p).length ≤ p.length := by
  unfold skipPrefix
  split
  · split_ifs
    · simp only [length_cons]
      omega
    · exact Nat.le_refl _
  · exact Nat.le_refl _

theorem strtoul_length_le (p : List Byte) : (strtoul p).2.length ≤ p.length := by
  have start := (p.dropWhile_suffix isspace).length_le
  have plain := skipPrefix_length_le (p.dropWhile isspace)
  have signed := skipPrefix_length_le (p.dropWhile isspace).tail
  rw [length_tail] at signed
  unfold strtoul
  dsimp only
  split_ifs <;> simp only [length_drop] <;> omega

theorem getDataType_length_le {rest : List Byte} {type : BitVec 32}
    (tag : getDataType buffer = some (type, parseType, rest)) :
    rest.length ≤ buffer.length := by
  unfold getDataType at tag
  split at tag
  · cases tag
  · rcases Prod.mk.inj (some.inj tag) with ⟨_, tag⟩
    rw [← (Prod.mk.inj tag).2, length_drop]
    exact Nat.sub_le _ _
  · have number := strtoul_length_le (buffer.drop 4)
    rw [length_drop] at number
    dsimp only at tag
    split_ifs at tag
    · rcases Prod.mk.inj (some.inj tag) with ⟨_, tag⟩
      rw [← (Prod.mk.inj tag).2, length_drop]
      omega

variable (lower : WChar → WChar)

theorem loadValue_sound {key : Key} {beyond : List Byte} {last : FileLoadInfo} (sound : info.Sound)
    (fits : line.length < info.len)
    (load : loadValue lower key line info beyond = (.success (ret, made, last) : Outcome ε _)) :
    last.Sound := by
  have sound' := sound_getFileTmpSpace sound (sound.size_lt fits)
  rcases bind_eq_success_iff.mp load with ⟨named, _, load⟩
  rcases named with _ | ⟨key', index, len⟩
  · cases load
    exact sound'
  dsimp only at load
  split at load
  · cases load
    exact sound'
  rename_i type parseType buffer tag
  rcases bind_eq_success_iff.mp load with ⟨⟨loaded, info'⟩, data, load⟩
  have shorter := getDataType_length_le tag
  rw [length_drop] at shorter
  have sound'' := loadData_sound sound' (by rw [getFileTmpSpace_len]; omega) data
  rcases loaded with _ | loaded
  · cases load
    exact sound''
  · cases load
    exact sound''

/-- The buffers stay sound while `load_keys` reads values. -/
theorem loadKeysValue_sound {key : Key} {beyond : List Byte} {last : FileLoadInfo}
    (sound : info.Sound)
    (load : loadKeysValue lower key info beyond =
      (.success (some (ret, made, last)) : Outcome ε _)) :
    last.Sound := by
  unfold loadKeysValue at load
  split at load
  · cases load
  rename_i line info' read
  rcases readNextLine_sound sound read with ⟨sound', fits, _⟩
  have blanks := (line.dropWhile_suffix isspace).length_le
  dsimp only at load
  split_ifs at load with starts
  · rcases bind_eq_success_iff.mp load with ⟨⟨ret', made', last'⟩, value, load⟩
    cases load
    exact loadValue_sound lower sound' (Nat.lt_of_le_of_lt blanks fits) value
  · cases load

end WineRedRose.RegText
