import WineRedRose.Der.Length

/-!
# What the loops of the decoders compute

Each loop is described on the list of bytes that it reads: the copy in reverse
order, the number shifted in byte by byte, and the two passes over the numbers
of an object identifier, whose text is given by a function of the contents.
-/

namespace WineRedRose.Der

open Library.Octets Library.Reads List Option

theorem dword_add (first second : Nat) : dword (dword first + second) = dword (first + second) :=
  Nat.mod_add_mod first _ second

/-! ## Copies and numbers -/

theorem copyReversed_append (front body rest : List UInt8) :
    copyReversed (front ++ body ++ rest) front.length body.length = .success body.reverse := by
  induction body using reverseRecOn generalizing rest with
  | nil => rfl
  | append_singleton body octet ih =>
    have here : readAt (front ++ body ++ octet :: rest) (front.length + body.length) =
        (.success octet : Outcome Error UInt8) := by
      rw [← length_append]
      exact readAt_append _ octet rest
    have same : front ++ (body ++ [octet]) ++ rest = front ++ body ++ octet :: rest := by simp
    rw [same, length_append, length_singleton, copyReversed, here,
      success_bind, ih, success_bind, reverse_append]
    rfl

theorem copyReversed_outside {data : List UInt8} {start count : Nat} (some : 0 < count)
    (beyond : data.length < start + count) :
    copyReversed data start count = .outside := by
  obtain ⟨count, rfl⟩ := Nat.exists_eq_succ_of_ne_zero some.ne'
  rw [copyReversed, readAt_of_le (by omega), outside_bind]

/-- One step of shifting a byte into a number. -/
def pushByte (val : UInt32) (octet : UInt8) : UInt32 := val <<< 8 ||| octet.toUInt32

theorem shiftIn_append (front body rest : List UInt8) (val : UInt32) :
    shiftIn (front ++ body ++ rest) body.length front.length val =
      .success (body.foldl pushByte val) := by
  induction body generalizing front val with
  | nil => rfl
  | cons octet body ih =>
    have next := ih (front ++ [octet]) (pushByte val octet)
    rw [length_append, length_singleton] at next
    rw [length_cons, shiftIn, readAt_middle, success_bind, append_cons front]
    exact next

/-! ## Object identifiers -/

/-- The number being read after the continued bytes, and what follows them. -/
def skipContinued : (val : UInt32) → List UInt8 → UInt32 × List UInt8
  | val, [] => (val, [])
  | val, octet :: rest =>
    if octet &&& 0x80 = 0 then (val, octet :: rest)
    else skipContinued (val <<< 7 ||| (octet &&& 0x7f).toUInt32) rest

/-- The text of the numbers after the first byte; there is none when the last
number is not complete. -/
def dottedArcs : (started : Bool) → (val : UInt32) → List UInt8 → Option (List Char)
  | started, _, [] => if started then none else some []
  | _, val, octet :: rest =>
    if octet &&& 0x80 = 0 then
      (dottedArcs false 0 rest).map (arcText (val <<< 7 ||| octet.toUInt32) ++ ·)
    else dottedArcs true (val <<< 7 ||| (octet &&& 0x7f).toUInt32) rest

/-- The text of an object identifier. -/
def dottedText : List UInt8 → Option (List Char)
  | [] => some []
  | octet :: rest => (dottedArcs false 0 rest).map (firstArcs octet ++ ·)

theorem continuedBytes_append (front body rest : List UInt8) (val : UInt32) :
    ∃ skipped, body = skipped ++ (skipContinued val body).2 ∧
      continuedBytes (front ++ body ++ rest) body.length front.length val =
        .success ((skipContinued val body).2.length,
          (front ++ skipped).length, (skipContinued val body).1) := by
  induction body generalizing front val with
  | nil => exact ⟨[], rfl, by simp [continuedBytes, skipContinued]⟩
  | cons octet body ih =>
    rw [length_cons, continuedBytes, readAt_middle, success_bind, skipContinued]
    split_ifs with last
    · exact ⟨[], rfl, by simp⟩
    · obtain ⟨skipped, split, next⟩ :=
        ih (front ++ [octet]) (val <<< 7 ||| (octet &&& 0x7f).toUInt32)
      rw [length_append, length_singleton] at next
      refine ⟨octet :: skipped, by rw [cons_append, ← split], ?_⟩
      rw [append_cons front octet body, next, ← append_cons front octet skipped]

variable {val val' : UInt32} {body : List UInt8} {octet : UInt8} {fuel : Nat} {text : List Char}

/-- Without a byte that ends it, a number is not complete. -/
theorem dottedArcs_eq_none {started : Bool} (skipped : skipContinued val body = (val', []))
    (some : started = true ∨ body ≠ []) :
    dottedArcs started val body = none := by
  induction body generalizing started val with
  | nil =>
    rcases some with rfl | some
    · rfl
    · exact absurd rfl some
  | cons octet rest ih =>
    rw [skipContinued] at skipped
    split_ifs at skipped with last
    · cases skipped
    · rw [dottedArcs, if_neg last]
      exact ih skipped (.inl rfl)

/-- The next number of the text comes from the byte that ends it. -/
theorem dottedArcs_eq_map {started : Bool} {rest : List UInt8}
    (skipped : skipContinued val body = (val', octet :: rest)) :
    octet &&& 0x80 = 0 ∧ dottedArcs started val body = (dottedArcs false 0 rest).map
        (arcText (val' <<< 7 ||| octet.toUInt32) ++ ·) := by
  induction body generalizing started val with
  | nil => cases skipped
  | cons first body ih =>
    rw [skipContinued] at skipped
    split_ifs at skipped with last
    · cases skipped
      rw [dottedArcs, if_pos last]
      exact ⟨last, rfl⟩
    · rw [dottedArcs, if_neg last]
      exact ih skipped

/-- One turn over a number: where the loop over its continued bytes stops, and
the byte found there. -/
theorem continuedBytes_turn (front body rest : List UInt8) {after : List UInt8}
    (skipped : skipContinued 0 body = (val, octet :: after)) :
    ∃ passed, front ++ body ++ rest = passed ++ [octet] ++ after ++ rest ∧
      after.length < body.length ∧
      continuedBytes (front ++ body ++ rest) body.length front.length 0 =
      .success (after.length + 1, passed.length, val) ∧
      readAt (front ++ body ++ rest) passed.length = (.success octet : Outcome Error UInt8) := by
  obtain ⟨before, split, loop⟩ := continuedBytes_append front body rest 0
  rw [skipped] at split loop
  have whole : front ++ body ++ rest = front ++ before ++ [octet] ++ after ++ rest := by
    rw [split]
    simp
  have shorter : after.length < body.length := by
    rw [split, length_append, length_cons]
    omega
  refine ⟨front ++ before, whole, shorter, loop, ?_⟩
  rw [whole, append_assoc _ after, append_assoc _ [octet]]
  exact readAt_append _ octet _

/-- The sizing pass adds the length of the text, if every number is complete. -/
theorem oidBytesNeeded_spec (front body rest : List UInt8) (bytesNeeded : Nat)
    (enough : body.length ≤ fuel) :
    ∃ needed, oidBytesNeeded (front ++ body ++ rest) fuel body.length front.length
        (dword bytesNeeded) = .success ((dottedArcs false 0 body).isSome, needed) ∧
      ∀ text ∈ dottedArcs false 0 body, needed = dword (bytesNeeded + text.length) := by
  induction fuel generalizing front body bytesNeeded with
  | zero =>
    obtain rfl : body = [] := length_eq_zero_iff.mp (by omega)
    exact ⟨dword bytesNeeded, rfl, by rintro _ ⟨⟩; rfl⟩
  | succ fuel ih =>
    cases body with
    | nil => exact ⟨dword bytesNeeded, rfl, by rintro _ ⟨⟩; rfl⟩
    | cons first body =>
      rcases skipped : skipContinued 0 (first :: body) with ⟨val, _ | ⟨octet, after⟩⟩
      · obtain ⟨before, _, loop⟩ := continuedBytes_append front (first :: body) rest 0
        rw [skipped, length_cons] at loop
        rw [dottedArcs_eq_none skipped (.inr (by simp))]
        refine ⟨dword bytesNeeded, ?_, nofun⟩
        rw [length_cons, oidBytesNeeded, loop, success_bind]
        rfl
      obtain ⟨passed, whole, shorter, loop, found⟩ :=
        continuedBytes_turn front (first :: body) rest skipped
      obtain ⟨needed, next, total⟩ := ih (passed ++ [octet]) after
        (bytesNeeded + (arcText (val <<< 7 ||| octet.toUInt32)).length) (by omega)
      rw [length_append, length_singleton] at next
      obtain ⟨last, arcs⟩ := @dottedArcs_eq_map _ _ _ _ false _ skipped
      rw [arcs, isSome_map]
      refine ⟨needed, ?_, fun text complete => ?_⟩
      · rw [length_cons] at loop
        rw [length_cons, oidBytesNeeded, loop, success_bind]
        dsimp only
        rw [if_neg (Nat.succ_ne_zero _), found, success_bind, if_neg (not_not.mpr last),
          Nat.add_sub_cancel, whole, dword_add, next]
      · obtain ⟨tail, more, rfl⟩ := map_eq_some_iff.mp complete
        rw [total tail more, length_append, add_assoc]

/-- The second pass writes the text. -/
theorem oidText_complete (front body rest : List UInt8) (written : List Char)
    (enough : body.length ≤ fuel) (complete : dottedArcs false 0 body = some text) :
    oidText (front ++ body ++ rest) fuel body.length front.length written =
      .success (written ++ text) := by
  induction fuel generalizing front body written text with
  | zero =>
    obtain rfl : body = [] := length_eq_zero_iff.mp (by omega)
    cases complete
    simp [oidText]
  | succ fuel ih =>
    cases body with
    | nil =>
      cases complete
      simp [oidText]
    | cons first body =>
      rcases skipped : skipContinued 0 (first :: body) with ⟨val, _ | ⟨octet, after⟩⟩
      · rw [dottedArcs_eq_none skipped (.inr (by simp))] at complete
        cases complete
      rw [(dottedArcs_eq_map skipped).2, map_eq_some_iff] at complete
      obtain ⟨tail, more, rfl⟩ := complete
      obtain ⟨passed, whole, shorter, loop, found⟩ :=
        continuedBytes_turn front (first :: body) rest skipped
      have next := ih (passed ++ [octet]) after
        (written ++ arcText (val <<< 7 ||| octet.toUInt32)) (by omega) more
      rw [length_append, length_singleton] at next
      rw [length_cons] at loop
      rw [length_cons, oidText, loop, success_bind]
      dsimp only
      rw [found, success_bind, Nat.add_sub_cancel, whole, next, append_assoc]

/-! ## The passes over an object identifier -/

section

variable (front : List UInt8) (octet : UInt8) (body rest : List UInt8)

/-- The sizing pass over contents with a first byte. -/
theorem oidSizing_spec : ∃ needed,
    oidSizing (front ++ octet :: body ++ rest) front.length (body.length + 1) =
      .success ((dottedText (octet :: body)).isSome, needed) ∧
    ∀ text ∈ dottedText (octet :: body), needed = dword (sizeofPointer + (text.length + 1)) := by
  obtain ⟨needed, loop, total⟩ := oidBytesNeeded_spec (front ++ [octet]) body rest
    (sizeofPointer + ((firstArcs octet).length + 1)) (Nat.le_succ _)
  rw [length_append, length_singleton] at loop
  rw [oidSizing, if_neg (Nat.succ_ne_zero _), readAt_middle, success_bind,
    Nat.add_sub_cancel, append_cons front octet body, loop, dottedText, isSome_map]
  refine ⟨needed, rfl, fun text complete => ?_⟩
  obtain ⟨arcs, more, rfl⟩ := map_eq_some_iff.mp complete
  rw [total arcs more, length_append]
  congr 1
  omega

theorem oidFilling_complete (pszObjId : Nat) (complete : dottedText (octet :: body) = some text) :
    oidFilling (front ++ octet :: body ++ rest) front.length (body.length + 1) true pszObjId =
      .success ⟨.output pszObjId, text⟩ := by
  rw [dottedText, map_eq_some_iff] at complete
  obtain ⟨arcs, complete, rfl⟩ := complete
  have loop := oidText_complete (front ++ [octet]) body rest (firstArcs octet)
    (Nat.le_succ _) complete
  rw [length_append, length_singleton] at loop
  rw [oidFilling, if_neg (Nat.succ_ne_zero _), readAt_middle, success_bind, if_pos rfl,
    Nat.add_sub_cancel, append_cons front octet body, loop, success_bind,
    pure_eq_success]

end

end WineRedRose.Der
