import WineRedRose.RegText.Buffers
import WineRedRose.RegText.Escapes

/-!
# The names of values in a file

What `parse_value_name` touches when it reads a line of any content: the line
up to its NUL, the temp buffer and the local buffer for the order.  The closing
quote is the first one without a backslash before it, since neither numbers nor
UTF-8 sequences take in a quote or a backslash.
-/

namespace WineRedRose.RegText

open Library.Reads Registry List

variable {ε : Type}

/-! ## The closing quote -/

/-- The text behind the closing quote, if there is one; the flag says that a
backslash stands before the text. -/
def behindQuote : (escaped : Bool) → List Byte → Option (List Byte)
  | _, [] => none
  | true, _ :: rest => behindQuote false rest
  | false, c :: rest => if c = ch '"' then some rest else behindQuote (c = ch '\\') rest

/-- Neither a quote nor a backslash. -/
def Inert (c : Byte) : Prop := c ≠ ch '"' ∧ c ≠ ch '\\'

variable {c : Byte}

variable {rest : List Byte}

theorem behindQuote_cons_of_inert (inert : Inert c) :
    behindQuote false (c :: rest) = behindQuote false rest := by
  rw [behindQuote, if_neg inert.1, decide_eq_false inert.2]

variable {eaten line buf : List Byte} {d : Nat}

theorem behindQuote_append_of_inert (inert : ∀ c ∈ eaten, Inert c) :
    behindQuote false (eaten ++ rest) = behindQuote false rest := by
  induction eaten with
  | nil => rfl
  | cons c eaten ih =>
    rw [cons_append, behindQuote_cons_of_inert (inert c (mem_cons_self ..)),
      ih fun later member => inert later (mem_cons_of_mem _ member)]

theorem behindQuote_suffix {escaped : Bool} {t rest : List Byte}
    (found : behindQuote escaped t = some rest) :
    rest <:+ t ∧ rest.length < t.length := by
  induction t generalizing escaped with
  | nil => exact absurd found.symm (Option.some_ne_none _)
  | cons c t ih =>
    have shorter {escaped : Bool} (found : behindQuote escaped t = some rest) :
        rest <:+ c :: t ∧ rest.length < (c :: t).length :=
      ⟨(ih found).1.trans (suffix_cons c t), Nat.lt_succ_of_lt (ih found).2⟩
    cases escaped with
    | true => exact shorter found
    | false =>
      rw [behindQuote] at found
      split_ifs at found
      · rw [← Option.some.inj found]
        exact ⟨suffix_cons c t, Nat.lt_succ_self _⟩
      · exact shorter found

/-! ## One turn of the reader -/

/-- A reader in the text before a NUL goes on: it takes bytes that do not
matter for the closing quote, and writes no more units than it has seen
bytes. -/
structure Advances (t : List Byte) (out : List WChar) (reading : Reading) : Prop where
  goesOn : reading.goesOn = true
  eaten : ∃ eaten rest, t = eaten ++ rest ∧ (∀ c ∈ eaten, Inert c) ∧
    reading.p = rest ++ [0] ∧ reading.out.length ≤ out.length + 1 + eaten.length

theorem inert_of_hexDigit (digit : hexDigit c = some d) :
    Inert c := by
  constructor
  all_goals
    rintro rfl
    exact absurd digit (by simp [hexDigit, ch])

theorem inert_of_octDigit (digit : octDigit c = some d) :
    Inert c := by
  constructor
  all_goals
    rintro rfl
    exact absurd digit (by simp [octDigit, ch])

theorem inert_of_continuation (follows : ¬ c ^^^ 0x80 ≥ 0x40) : Inert c := by
  constructor
  · rintro rfl
    exact follows (by decide)
  · rintro rfl
    exact follows (by decide)

variable {t : List Byte}

variable (ε) in
/-- Digits end before the NUL. -/
theorem readDigits_text {digit : Byte → Option Nat} (inert : ∀ {c d}, digit c = some d → Inert c)
    (zero : digit 0 = none) (base limit number : Nat) (t : List Byte) :
    ∃ n eaten rest, t = eaten ++ rest ∧ (∀ c ∈ eaten, Inert c) ∧
      readDigits digit base limit number (t ++ [0]) =
      (.success (n, rest ++ [0]) : Outcome ε (Nat × List Byte)) := by
  induction limit generalizing number t with
  | zero => exact ⟨number, [], t, rfl, by simp, rfl⟩
  | succ limit ih =>
    cases t with
    | nil =>
      refine ⟨number, [], [], rfl, by simp, ?_⟩
      rw [nil_append, readDigits, peek_cons, success_bind, zero]
    | cons c t =>
      rw [cons_append, readDigits, peek_cons, success_bind]
      cases value : digit c with
      | none => exact ⟨number, [], c :: t, rfl, by simp, rfl⟩
      | some d =>
        rcases ih (number * base + d) t with ⟨n, eaten, rest, rfl, later, read⟩
        refine ⟨n, c :: eaten, rest, rfl, ?_, read⟩
        exact forall_mem_cons.mpr ⟨inert value, later⟩

variable (ε) in
/-- A UTF-8 sequence ends before the NUL. -/
theorem utf8Tail_text (left res : Nat) (t : List Byte) :
    ∃ r eaten rest, t = eaten ++ rest ∧ (∀ c ∈ eaten, Inert c) ∧ (r ≠ none → eaten.length = left) ∧
      utf8Tail left res (t ++ [0]) =
      (.success (r, rest ++ [0]) : Outcome ε (Option Nat × List Byte)) := by
  induction left generalizing res t with
  | zero => exact ⟨some res, [], t, rfl, by simp, fun _ => rfl, rfl⟩
  | succ left ih =>
    cases t with
    | nil => exact ⟨none, [], [], rfl, by simp, fun absent => absurd rfl absent, rfl⟩
    | cons c t =>
      rw [cons_append, utf8Tail, peek_cons, success_bind]
      dsimp only
      split_ifs with wrong
      · exact ⟨none, [], c :: t, rfl, by simp, fun absent => absurd rfl absent, rfl⟩
      · rcases ih (res <<< 6 ||| (c ^^^ 0x80).toNat) t with
          ⟨r, eaten, rest, rfl, later, length, read⟩
        refine ⟨r, c :: eaten, rest, rfl, ?_, ?_, read⟩
        · exact forall_mem_cons.mpr ⟨inert_of_continuation wrong, later⟩
        · exact fun some => congrArg Nat.succ (length some)

section Turn

variable {space room : Nat} {out : List WChar}
  (inside : out.length < room) (given : room ≤ space)

include inside given

theorem write_advances (eaten : List Byte) (inert : ∀ c ∈ eaten, Inert c) (rest : List Byte)
    (unit : WChar) : ∃ reading, write space (rest ++ [0]) out unit =
      (.success reading : Outcome ε Reading) ∧ Advances (eaten ++ rest) out reading := by
  refine ⟨_, write_of_lt (inside.trans_le given), rfl, eaten, rest, rfl, inert,
    rfl, ?_⟩
  rw [length_append, length_singleton]
  exact Nat.le_add_right _ _

/-- The second half of a surrogate pair is written only if there is room. -/
theorem writeCodePoint_advances (inert : ∀ c ∈ eaten, Inert c) (some : 0 < eaten.length)
    (charlen res : Nat) (rest : List Byte) :
    ∃ reading, writeCodePoint space room charlen res (rest ++ [0]) out =
      (.success reading : Outcome ε Reading) ∧ Advances (eaten ++ rest) out reading := by
  unfold writeCodePoint
  split_ifs
  · exact ⟨_, rfl, rfl, eaten, rest, rfl, inert, rfl, by dsimp only; omega⟩
  · exact write_advances inside given eaten inert rest _
  · dsimp only
    rw [put, if_pos (inside.trans_le given), success_bind]
    split_ifs with second
    · refine ⟨_, write_of_lt (second.trans_le given), rfl, eaten, rest, rfl, inert,
        rfl, ?_⟩
      rw [length_append, length_append, length_singleton]
      dsimp only [length_singleton]
      omega
    · refine ⟨_, rfl, rfl, eaten, rest, rfl, inert, rfl, ?_⟩
      rw [length_append, length_singleton]
      exact Nat.le_add_right _ _

theorem plainChar_advances (c : Byte) (t : List Byte) :
    ∃ reading, plainChar space room c (t ++ [0]) out = (.success reading : Outcome ε Reading) ∧
      Advances t out reading := by
  unfold plainChar
  split_ifs with ascii
  · exact write_advances inside given [] (by simp) t _
  · dsimp only
    split_ifs with invalid
    · exact ⟨_, rfl, rfl, [], t, rfl, by simp, rfl, by dsimp only; omega⟩
    · rcases utf8Tail_text ε (utf8Length c.toNat) (c.toNat &&& utf8Mask (utf8Length c.toNat)) t with
        ⟨r, eaten, rest, rfl, inert, length, read⟩
      rw [read, success_bind]
      cases r with
      | none => exact ⟨_, rfl, rfl, eaten, rest, rfl, inert, rfl, by dsimp only; omega⟩
      | some res =>
        have some := length (Option.some_ne_none res)
        exact writeCodePoint_advances inside given inert (by omega) _ res rest

theorem escapeChar_advances (c : Byte) (t : List Byte) :
    ∃ reading, escapeChar space room c (t ++ [0]) out = (.success reading : Outcome ε Reading) ∧
      Advances t out reading := by
  unfold escapeChar
  cases letterEscape c with
  | some unit => exact write_advances inside given [] (by simp) t unit
  | none =>
    split_ifs with hex
    · unfold hexEscape
      cases t with
      | nil => exact write_advances inside given [] (by simp) [] _
      | cons first t =>
        rw [cons_append, peek_cons, success_bind]
        cases value : hexDigit first with
        | none => exact write_advances inside given [] (by simp) (first :: t) _
        | some d =>
          rcases readDigits_text ε inert_of_hexDigit (by decide) 16 3 d t with
            ⟨n, eaten, rest, rfl, inert, read⟩
          dsimp only [tail_cons]
          rw [read, success_bind]
          exact write_advances inside given (first :: eaten)
            (forall_mem_cons.mpr ⟨inert_of_hexDigit value, inert⟩) rest _
    · cases octDigit c with
      | none => exact plainChar_advances inside given c t
      | some d =>
        rcases readDigits_text ε inert_of_octDigit (by decide) 8 2 d t with
          ⟨n, eaten, rest, rfl, inert, read⟩
        dsimp only
        rw [octEscape, read, success_bind]
        exact write_advances inside given eaten inert rest _

end Turn

/-- Where the reader stops: at the closing quote, or else at the NUL. -/
def stopAt : Option (List Byte) → List Byte
  | none => [0]
  | some rest => ch '"' :: (rest ++ [0])

/-- A turn went on from a text to a shorter one with the same closing quote. -/
structure Shortens (t : List Byte) (out : List WChar) (reading : Reading)
    (rest : List Byte) : Prop where
  goesOn : reading.goesOn = true
  source : reading.p = rest ++ [0]
  suffix : rest <:+ t
  shorter : rest.length < t.length
  quote : behindQuote false t = behindQuote false rest
  units : reading.out.length + rest.length ≤ out.length + t.length

theorem Advances.shortens {front : List Byte} {out : List WChar} {reading : Reading}
    (advances : Advances t out reading) (some : front ≠ [])
    (quote : behindQuote false (front ++ t) = behindQuote false t) :
    ∃ rest, Shortens (front ++ t) out reading rest := by
  rcases advances.eaten with ⟨eaten, rest, rfl, inert, source, units⟩
  have positive := length_pos_of_ne_nil some
  refine ⟨rest, advances.goesOn, source, ?_, ?_, ?_, ?_⟩
  · exact (suffix_append eaten rest).trans (suffix_append front _)
  · simp only [length_append]
    omega
  · rw [quote, behindQuote_append_of_inert inert]
  · simp only [length_append]
    omega

variable (ε) in
/-- One turn on any text. -/
theorem parseTurn_text {space room : Nat} {out : List WChar} (inside : out.length < room)
    (given : room ≤ space) (terminated : 0 ∉ t) : parseTurn space room (ch '"') (t ++ [0]) out =
      (.success ⟨false, stopAt (behindQuote false t), out⟩ : Outcome ε Reading) ∨
      ∃ reading rest, parseTurn space room (ch '"') (t ++ [0]) out =
      (.success reading : Outcome ε Reading) ∧ Shortens t out reading rest := by
  rcases t with _ | ⟨c, t⟩
  · exact .inl rfl
  have nonzero : c ≠ 0 := fun zero => terminated (zero ▸ mem_cons_self ..)
  by_cases quote : c = ch '"'
  · left
    rw [cons_append, parseTurn, peek_cons, success_bind, if_pos (.inr (.inl quote)), quote]
    rfl
  by_cases backslash : c = ch '\\'
  · subst backslash
    rcases t with _ | ⟨d, t⟩
    · left
      rw [cons_append, parseTurn, peek_cons, success_bind, if_neg (by simp_all), if_pos rfl]
      rfl
    · right
      have text : d ≠ 0 := fun zero => terminated (by simp [zero])
      rcases escapeChar_advances inside given d t with ⟨reading, read, advances⟩
      rcases advances.shortens (cons_ne_nil (ch '\\') [d]) rfl with ⟨rest, shortens⟩
      exact ⟨reading, rest, (parseTurn_backslash inside (by decide) text).trans read, shortens⟩
  · right
    rcases plainChar_advances inside given c t with ⟨reading, read, advances⟩
    rcases advances.shortens (cons_ne_nil c [])
        (behindQuote_cons_of_inert ⟨quote, backslash⟩) with ⟨rest, shortens⟩
    refine ⟨reading, rest, ?_, shortens⟩
    rw [cons_append, parseTurn, peek_cons, success_bind, if_neg, if_neg backslash]
    · exact read
    · rintro (zero | quoted | full)
      · exact nonzero zero
      · exact quote quoted
      · omega

variable (ε) in
/-- The reader stops inside the text, at the closing quote if there is one. -/
theorem parseLoop_text {space room : Nat} (turns : Nat) {out : List WChar}
    (inside : out.length + t.length < room) (given : room ≤ space) (terminated : 0 ∉ t)
    (enough : t.length < turns) : ∃ units, units.length ≤
      out.length + t.length ∧ parseLoop space room (ch '"') turns (t ++ [0]) out =
      (.success ⟨false, stopAt (behindQuote false t), units⟩ : Outcome ε Reading) := by
  induction turns generalizing t out with
  | zero => exact absurd enough (Nat.not_lt_zero _)
  | succ turns ih =>
    rw [parseLoop]
    have room : out.length < room := by omega
    rcases parseTurn_text ε room given terminated with stops | ⟨reading, rest, turn, shortens⟩
    · rw [stops]
      exact ⟨out, Nat.le_add_right _ _, rfl⟩
    · have shorter := shortens.shorter
      have units := shortens.units
      rcases @ih rest reading.out (by omega)
          (fun zero => terminated (shortens.suffix.subset zero)) (by omega) with
        ⟨later, count, loop⟩
      refine ⟨later, by omega, ?_⟩
      rw [turn, success_bind, if_pos shortens.goesOn, shortens.source, loop, shortens.quote]

/-- A string in a line is read inside the line and the temp buffer. -/
theorem parseStrW_text {space len : Nat} (room : t.length < len / 2) (given : len / 2 ≤ space)
    (terminated : 0 ∉ t) :
    ∃ parsed, parseStrW space len (t ++ [0]) (ch '"') = (.success parsed : Outcome ε Parsed) ∧
      parsed.ret = match behindQuote false t with
        | none => -1
        | some rest => toInt (t.length - rest.length) := by
  have inside : ([] : List WChar).length + t.length < len / 2 := by
    rw [length_nil]
    omega
  rcases parseLoop_text ε ((t ++ [0]).length + 1) inside given terminated
      (by rw [length_append]; omega) with ⟨units, count, loop⟩
  rw [parseStrW, loop, success_bind]
  dsimp only
  rw [if_neg (by omega), put, if_pos (by omega), success_bind]
  cases quote : behindQuote false t with
  | none => exact ⟨_, rfl, rfl⟩
  | some rest =>
    have shorter := (behindQuote_suffix quote).2
    have consumed : (t ++ [0]).length - (ch '"' :: (rest ++ [0])).length + 1 =
        t.length - rest.length := by
      simp only [length_append, length_cons, length_nil]
      omega
    rw [stopAt, peek_cons, success_bind, if_neg (by decide), consumed]
    refine ⟨_, rfl, ?_⟩
    dsimp only

/-! ## Positions in a line -/

variable {front : List Byte}

theorem charAt_append (front rest : List Byte) :
    charAt (front ++ rest) front.length = (.success (rest.headD 0) : Outcome ε Byte) := by
  rw [charAt, append_assoc]
  cases rest with
  | nil => exact readAt_append front 0 []
  | cons c rest => exact readAt_append front c (rest ++ [0])

/-- Blanks end before the NUL. -/
theorem skipSpaceFrom_append (front rest : List Byte) {turns : Nat} (enough : rest.length < turns) :
    skipSpaceFrom (front ++ rest) turns front.length =
      (.success (front ++ rest.takeWhile isspace).length : Outcome ε Nat) := by
  induction turns generalizing front rest with
  | zero => exact absurd enough (Nat.not_lt_zero _)
  | succ turns ih =>
    rw [skipSpaceFrom, charAt_append, success_bind]
    cases rest with
    | nil =>
      rw [takeWhile_nil, append_nil]
      rfl
    | cons c rest =>
      rw [headD_cons]
      by_cases blank : isspace c = true
      · have shifted := ih (front ++ [c]) rest (Nat.lt_of_succ_lt_succ enough)
        rw [length_append, length_singleton, append_assoc, singleton_append] at shifted
        rw [if_pos blank, shifted, takeWhile_cons_of_pos blank, append_assoc, singleton_append]
      · rw [if_neg blank, takeWhile_cons_of_neg blank, append_nil]

/-- Blanks behind a character of the line. -/
theorem skipSpaceFrom_succ :
    skipSpaceFrom (front ++ c :: rest) ((front ++ c :: rest).length + 1) (front.length + 1) =
      (.success (front ++ c :: rest.takeWhile isspace).length : Outcome ε Nat) := by
  have enough : rest.length < (front ++ c :: rest).length + 1 := by
    simp only [length_append, length_cons]
    omega
  have skipped : skipSpaceFrom (front ++ [c] ++ rest) _ (front ++ [c]).length =
      (.success (front ++ [c] ++ rest.takeWhile isspace).length : Outcome ε Nat) :=
    skipSpaceFrom_append (front ++ [c]) rest enough
  simpa only [append_assoc, singleton_append, length_append, length_singleton] using skipped

theorem skipSpace_split (front rest : List Byte) :
    front ++ rest = (front ++ rest.takeWhile isspace) ++ skipSpace rest := by
  rw [append_assoc, skipSpace, takeWhile_append_dropWhile]

/-- The text of a line behind the name, if the name is complete. -/
def afterName : List Byte → Option (List Byte)
  | [] => none
  | c :: t => if c = ch '@' then some t else behindQuote false t

variable (ε) in
/-- The name is read inside the line and the temp buffer. -/
theorem parseQuoted_text (starts : line ≠ []) (terminated : 0 ∉ line) (tmplen : Nat)
    (space : line.length * 2 ≤ tmplen) (size : tmplen < 2 ^ 32) (length : line.length < maxBuffer) :
    match afterName line with
    | none => parseQuoted line tmplen = (.success none : Outcome ε _)
    | some rest => ∃ name front, line = front ++ rest ∧
        parseQuoted line tmplen = (.success (some (name, front.length)) : Outcome ε _) := by
  rcases line with _ | ⟨c, t⟩
  · exact absurd rfl starts
  have first : charAt (c :: t) 0 = (.success c : Outcome ε Byte) := rfl
  rw [parseQuoted, first, success_bind, afterName]
  by_cases unnamed : c = ch '@'
  · rw [if_pos unnamed, if_pos unnamed]
    exact ⟨[], [c], rfl, rfl⟩
  rw [if_neg unnamed, if_neg unnamed]
  rw [length_cons] at space length
  rw [dataSizeT, Nat.mod_eq_of_lt size, cons_append, tail_cons]
  have room : t.length < tmplen / 2 := by omega
  rcases parseStrW_text room (Nat.le_refl _)
      (fun zero => terminated (mem_cons_of_mem c zero)) with ⟨parsed, read, ret⟩
  rw [read, success_bind]
  cases quote : behindQuote false t with
  | none =>
    rw [quote] at ret
    rw [if_pos ret]
  | some rest =>
    rcases behindQuote_suffix quote with ⟨⟨front, split⟩, shorter⟩
    have number : toInt (t.length - rest.length) = (t.length - rest.length : Nat) := by
      rw [toInt_eq_iff]
      omega
    rw [quote] at ret
    dsimp only at ret
    rw [number] at ret
    have position : ((parsed.ret + 1) % 2 ^ 32).toNat = (c :: front).length := by
      rw [ret, ← split]
      rw [← split] at length
      unfold maxBuffer at length
      simp only [length_append, length_cons] at length ⊢
      omega
    rw [if_neg (by omega), position]
    exact ⟨_, c :: front, by rw [cons_append, split], rfl⟩

/-! ## The order -/

/-- The copy of an order leaves a buffer with the given room: digits fill it,
and no equals sign ends them there. -/
def CopyOverflows (room : Nat) (t : List Byte) : Prop :=
  room ≤ (t.takeWhile isxdigit).length ∧ (t.drop room).head? ≠ some (ch '=')

theorem copyOverflows_zero : CopyOverflows 0 t ↔ t.head? ≠ some (ch '=') := by
  rw [CopyOverflows, drop_zero]
  exact and_iff_right (Nat.zero_le _)

theorem not_copyOverflows_nil (room : Nat) : ¬ CopyOverflows (room + 1) [] :=
  fun overflows => absurd overflows.1 (Nat.not_succ_le_zero room)

theorem copyOverflows_cons (room : Nat) :
    CopyOverflows (room + 1) (c :: t) ↔ isxdigit c = true ∧ CopyOverflows room t := by
  rw [CopyOverflows, CopyOverflows, drop_succ_cons]
  by_cases digit : isxdigit c = true
  · rw [takeWhile_cons_of_pos digit, length_cons, Nat.add_le_add_iff_right]
    exact (and_iff_right digit).symm
  · rw [takeWhile_cons_of_neg digit, length_nil]
    exact iff_of_false (fun both => absurd both.1 (Nat.not_succ_le_zero room))
      fun both => digit both.1

/-- The copy leaves the local buffer where the digits do. -/
theorem copyOrder_eq_outside_iff {room : Nat} (size : buf.length + room = bufSize) :
    copyOrder (t ++ [0]) buf = (.outside : Outcome ε (Option (List Byte))) ↔
      CopyOverflows room t := by
  induction t generalizing buf room with
  | nil =>
    rw [nil_append, copyOrder, if_neg (by decide)]
    cases room with
    | zero =>
      rw [if_neg (by omega), copyOverflows_zero]
      exact iff_of_true rfl (Option.some_ne_none _).symm
    | succ room =>
      rw [if_pos (by omega), if_neg (by decide)]
      exact iff_of_false (success_ne_outside _) (not_copyOverflows_nil room)
  | cons c t ih =>
    rw [cons_append, copyOrder]
    by_cases equals : c = ch '='
    · rw [if_pos equals]
      refine iff_of_false (success_ne_outside _) ?_
      cases room with
      | zero => simp [copyOverflows_zero, equals]
      | succ room =>
        rw [copyOverflows_cons, equals]
        exact fun both => absurd both.1 (by decide)
    rw [if_neg equals]
    cases room with
    | zero =>
      rw [if_neg (by omega), copyOverflows_zero]
      exact iff_of_true rfl fun same => equals (Option.some.inj same)
    | succ room =>
      rw [if_pos (by omega), copyOverflows_cons]
      by_cases digit : isxdigit c = true
      · have longer : (buf ++ [c]).length + room = bufSize := by
          rw [length_append, length_singleton]
          omega
        rw [if_pos digit, ih longer]
        exact (and_iff_right digit).symm
      · rw [if_neg digit]
        exact iff_of_false (success_ne_outside _) fun both => digit both.1

/-- The digits that were copied end at an equals sign. -/
theorem copyOrder_eq_some {digits : List Byte}
    (copied : copyOrder (t ++ [0]) buf = (.success (some digits) : Outcome ε _)) :
    ∃ run rest, digits = buf ++ run ∧ t = run ++ ch '=' :: rest := by
  induction t generalizing buf with
  | nil =>
    rw [nil_append, copyOrder, if_neg (by decide)] at copied
    split_ifs at copied with room digit
    · exact absurd digit (by decide)
    · cases copied
  | cons c t ih =>
    rw [cons_append, copyOrder] at copied
    split_ifs at copied with equals room digit
    · rw [Outcome.success.injEq, Option.some.injEq] at copied
      exact ⟨[], t, by rw [← copied, append_nil], by rw [equals]; rfl⟩
    · rcases ih copied with ⟨run, rest, rfl, rfl⟩
      exact ⟨c :: run, rest, by rw [append_assoc]; rfl, rfl⟩
    · cases copied

variable (ε) in
/-- The order is copied and the position behind it is in the line. -/
theorem parseOrder_append (front rest beyond : List Byte) :
    (parseOrder (front ++ rest) front.length beyond =
        (.outside : Outcome ε (Option (Option Nat × Nat))) ↔
      ∃ digits, rest = ch '$' :: digits ∧ CopyOverflows bufSize digits) ∧
    ∀ order len, parseOrder (front ++ rest) front.length beyond =
        (.success (some (order, len)) : Outcome ε (Option (Option Nat × Nat))) →
      ∃ before after, front ++ rest = before ++ after ∧ len = before.length := by
  rw [parseOrder, charAt_append, success_bind]
  by_cases dollar : rest.headD 0 = ch '$'
  · obtain ⟨digits, rfl⟩ : ∃ digits, rest = ch '$' :: digits := by
      rcases rest with _ | ⟨c, digits⟩
      · exact absurd dollar (by decide)
      · exact ⟨digits, congrArg (· :: digits) dollar⟩
    have behind : (front ++ ch '$' :: digits).drop (front.length + 1) = digits := by
      rw [drop_append]
      simp
    have overflow : copyOrder (digits ++ [0]) [] = (.outside : Outcome ε _) ↔
        CopyOverflows bufSize digits :=
      copyOrder_eq_outside_iff (Nat.zero_add bufSize)
    rw [if_pos dollar, behind]
    constructor
    · rw [bind_eq_outside_iff, overflow]
      constructor
      · rintro (overflows | ⟨copied, _, after⟩)
        · exact ⟨digits, rfl, overflows⟩
        · rcases copied with _ | _ | ⟨_, _⟩
          · exact absurd after (success_ne_outside _)
          · exact absurd after (success_ne_outside _)
          · exact absurd after (success_ne_outside _)
      · rintro ⟨same, equality, overflows⟩
        rw [(List.cons.inj equality).2]
        exact .inl overflows
    · intro order len equality
      rcases bind_eq_success_iff.mp equality with ⟨copied, copy, after⟩
      rcases copied with _ | _ | ⟨c, run⟩
      · cases after
      · cases after
      · rcases copyOrder_eq_some copy with ⟨_, rest, rfl, rfl⟩
        rw [Outcome.success.injEq, Option.some.injEq, Prod.mk.injEq] at after
        refine ⟨front ++ ch '$' :: c :: run, ch '=' :: rest, by simp, ?_⟩
        rw [← after.2]
        simp only [length_append, length_cons]
  · rw [if_neg dollar]
    constructor
    · refine iff_of_false (success_ne_outside _) ?_
      rintro ⟨digits, rfl, _⟩
      exact dollar rfl
    · intro order len equality
      rw [Outcome.success.injEq, Option.some.injEq, Prod.mk.injEq] at equality
      exact ⟨front, rest, rfl, equality.2.symm⟩

/-! ## The whole line -/

/-- Behind the name and blanks stands an order of 512 digits, and no equals
sign behind these. -/
def LongOrder (line : List Byte) : Prop := ∃ rest digits, afterName line = some rest ∧
    skipSpace rest = ch '$' :: digits ∧ CopyOverflows bufSize digits

variable (lower : WChar → WChar)

/-- What comes behind the order stays in the line. -/
theorem parseEquals_ne_outside (key : Key) (name : Name) (order : Option Nat)
    {before after : List Byte} (split : line = before ++ after) :
    parseEquals lower key line name order before.length ≠
      (.outside : Outcome ε (Option (Key × Nat × Nat))) := by
  rw [parseEquals, split, charAt_append, success_bind]
  split_ifs with equals
  · rcases after with _ | ⟨c, rest⟩
    · exact absurd equals (by decide)
    · rw [skipSpaceFrom_succ]
      exact success_ne_outside _
  · exact success_ne_outside _

/-- A line of any content is read inside the line, the temp buffer and the local
buffer, unless its order is too long. -/
theorem value_name_inside_iff (key : Key) (info : FileLoadInfo) (line beyond : List Byte)
    (sound : info.Sound) (held : info.Holds line) (starts : isValueLine line = true) :
    parseValueName lower key line info beyond ≠
      (.outside : Outcome Unit (Option (Key × Nat × Nat))) ↔ ¬ LongOrder line := by
  have nonempty : line ≠ [] := by
    rintro rfl
    exact absurd starts (by decide)
  have size := held.size_lt sound
  have tmp := getFileTmpSpace_tmplen info (line.length * 2)
  have quoted := parseQuoted_text Unit nonempty held.terminated
    (getFileTmpSpace info (line.length * 2)).tmplen
    (by omega) (sound_getFileTmpSpace sound size).tmplen_lt (held.length_lt sound)
  rw [not_iff_not, parseValueName]
  cases name : afterName line with
  | none =>
    rw [name] at quoted
    rw [quoted, success_bind]
    refine iff_of_false (success_ne_outside _) ?_
    rintro ⟨rest, _, found, _⟩
    exact Option.some_ne_none rest (found.symm.trans name)
  | some rest =>
    rw [name] at quoted
    rcases quoted with ⟨units, front, split, read⟩
    have enough : rest.length < (front ++ rest).length + 1 := by
      rw [length_append]
      omega
    have order := parseOrder_append Unit (front ++ rest.takeWhile isspace) (skipSpace rest) beyond
    rw [← skipSpace_split] at order
    rw [read, success_bind]
    dsimp only
    rw [split, skipSpaceFrom_append front rest enough, success_bind, bind_eq_outside_iff, order.1]
    have long : (∃ digits, skipSpace rest = ch '$' :: digits ∧
        CopyOverflows bufSize digits) ↔ LongOrder (front ++ rest) := by
      rw [split] at name
      simp only [LongOrder, name, Option.some.injEq]
      constructor
      · rintro ⟨digits, found⟩
        exact ⟨rest, digits, rfl, found⟩
      · rintro ⟨_, digits, rfl, found⟩
        exact ⟨digits, found⟩
    rw [long]
    refine or_iff_left ?_
    rintro ⟨ordered, parsed, behind⟩
    rcases ordered with _ | ⟨order', len⟩
    · exact success_ne_outside _ behind
    · rcases order.2 _ _ parsed with ⟨before, after, same, rfl⟩
      exact parseEquals_ne_outside lower key units order' same behind

theorem value_name_inside_ordered :
    parseValueName asciiLower {} (text ['"', 'a', '"', '$', '1', '=', '"', '"']) ⟨[], 42, 4⟩ [] ≠
      (.outside : Outcome Unit (Option (Key × Nat × Nat))) := by
  refine (value_name_inside_iff asciiLower {} ⟨[], 42, 4⟩
    (text ['"', 'a', '"', '$', '1', '=', '"', '"']) []
    ⟨by decide, by decide⟩ ⟨by decide, by decide⟩ (by decide)).mpr ?_
  rintro ⟨rest, digits, name, order, overflows⟩
  have found : afterName (text ['"', 'a', '"', '$', '1', '=', '"', '"']) =
      some (text ['$', '1', '=', '"', '"']) := by decide
  rw [← Option.some.inj (found.symm.trans name)] at order
  rw [← (List.cons.inj order).2] at overflows
  exact absurd overflows.1 (by decide)

/-- 513 digits behind the `$` are written behind the local buffer. -/
theorem long_order_leaves_buffer : ¬ parseValueName asciiLower {}
        (text ['@', '$'] ++ List.replicate 513 (ch '0') ++ text ['=', '"', '"'])
        ⟨[], 711, 4⟩ [] ≠
      (.outside : Outcome Unit (Option (Key × Nat × Nat))) := by
  decide +kernel

end WineRedRose.RegText
