import Mathlib.Data.List.TakeWhile
import Mathlib.Tactic

/-!
# Wildcard masks

`PathMatchSpecExW` compares a path with the pieces of a mask between its
semicolons.  A piece is matched by a loop over its characters, which calls itself
for every rest of the name where it meets a star.  Strings are lists of UTF-16
units without the terminator.

The mask that matches every path is recognized by `lstrcmpW`, a comparison in the
language of the thread.  It ignores characters without a weight, such as the soft
hyphen.
-/

namespace WineRedRose.Paths

open List

/-- `WCHAR` -/
abbrev WChar := BitVec 16

def star : WChar := 0x2a

def questionMark : WChar := 0x3f

def semicolon : WChar := 0x3b

def space : WChar := 0x20

def period : WChar := 0x2e

/-- The result of `PathMatchSpecExW`: `S_OK` or `S_FALSE`. -/
inductive HResult where
  | sOk
  | sFalse
deriving DecidableEq, Repr

/-- The test of `path_match_maskW` where the name has ended. -/
def atMaskEnd (mask : List WChar) : Bool :=
  match mask.dropWhile (· = star) with
  | [] => true
  | unit :: _ => unit = semicolon

section

variable (lstrcmpW : List WChar → List WChar → Int) (towupper : WChar → WChar)

/-- `path_match_maskW` -/
def pathMatchMaskW (name : List WChar) : (mask : List WChar) → Bool
  | [] => name.isEmpty
  | unit :: mask =>
    match name with
    | [] => atMaskEnd (unit :: mask)
    | first :: rest =>
      if unit = semicolon then false
      else if unit = star then (first :: rest).tails.any fun name => pathMatchMaskW name mask
      else if towupper unit ≠ towupper first ∧ unit ≠ questionMark then false
      else pathMatchMaskW rest mask

/-- The loop of `PathMatchSpecExW` over the pieces of the mask. -/
def matchPieces (path mask : List WChar) : Bool :=
  match mask with
  | [] => false
  | unit :: rest =>
    let mask := (unit :: rest).dropWhile (· = space)
    if pathMatchMaskW towupper path mask then true
    else matchPieces path ((mask.dropWhile (· ≠ semicolon)).drop 1)
termination_by mask.length
decreasing_by
  have shorter := ((dropWhile_suffix (· ≠ semicolon)).trans
    (dropWhile_suffix (l := unit :: rest) (· = space))).length_le
  rw [length_drop]
  rw [length_cons] at *
  omega

/-- `PathMatchSpecExW`; the flags are ignored. -/
def pathMatchSpecExW (path mask : List WChar) : HResult :=
  if lstrcmpW mask [star, period, star] = 0 then .sOk
  else if matchPieces towupper path mask then .sOk
  else .sFalse

/-! ## What masks mean -/

/-- The piece of a mask matches the whole name: a star any part of it, a question
mark one character, and another character itself up to its case. -/
def Matches : (piece name : List WChar) → Prop
  | [], name => name = []
  | unit :: piece, name =>
    if unit = star then ∃ rest, rest <:+ name ∧ Matches piece rest
    else ∃ other rest, name = other :: rest ∧
      (unit = questionMark ∨ towupper unit = towupper other) ∧ Matches piece rest

/-- The pieces of a mask; an empty one at its end does not count. -/
def pieces (mask : List WChar) : List (List WChar) :=
  let all := mask.splitOn semicolon
  if all.getLast? = some [] then all.dropLast else all

/-- The mask matches every path, or one of its pieces matches the path. -/
def Covered (path mask : List WChar) : Prop := mask = [star, period, star] ∨
    ∃ piece ∈ pieces mask, Matches towupper (piece.dropWhile (· = space)) path

end

variable {towupper : WChar → WChar}

/-- The loops of `path_match_maskW` decide whether the first piece matches. -/
theorem pathMatchMaskW_iff (name mask : List WChar) : pathMatchMaskW towupper name mask = true ↔
    Matches towupper (mask.takeWhile (· ≠ semicolon)) name := by
  induction mask generalizing name with
  | nil => simp [pathMatchMaskW, Matches]
  | cons unit mask ih =>
    have ended : pathMatchMaskW towupper [] mask = atMaskEnd mask := by cases mask <;> rfl
    by_cases last : unit = semicolon
    · subst last
      cases name with
      | nil => simp [pathMatchMaskW, Matches, atMaskEnd, star, semicolon]
      | cons first rest => simp [pathMatchMaskW, Matches]
    · rw [takeWhile_cons_of_pos (by simpa using last), Matches]
      by_cases wild : unit = star
      · rw [if_pos wild]
        cases name with
        | nil =>
          have skips : pathMatchMaskW towupper [] (unit :: mask) = atMaskEnd mask := by
            simp [pathMatchMaskW, atMaskEnd, wild]
          simp [skips, ← ended, ih]
        | cons first rest =>
          simp only [pathMatchMaskW, if_neg last, if_pos wild, any_eq_true, mem_tails, ih]
      · cases name with
        | nil => simp [pathMatchMaskW, atMaskEnd, wild, last]
        | cons first rest =>
          simp only [pathMatchMaskW, if_neg last, if_neg wild, cons.injEq]
          grind

/-! ## Pieces -/

theorem pieces_eq {mask : List WChar} (nonempty : mask ≠ []) : pieces mask =
    mask.takeWhile (· ≠ semicolon) :: pieces ((mask.dropWhile (· ≠ semicolon)).drop 1) := by
  by_cases member : semicolon ∈ mask
  · rcases eq_append_cons_of_mem member with ⟨piece, rest, rfl, single⟩
    have others : ∀ unit ∈ piece, decide (unit ≠ semicolon) = true := by grind
    have split : (piece ++ semicolon :: rest).splitOn semicolon =
        piece :: rest.splitOn semicolon := by
      rw [splitOn_append_cons_of_beq _ _ (beq_self_eq_true _), splitOn_eq_singleton single]
      rfl
    rcases exists_cons_of_ne_nil (splitOn_ne_nil semicolon rest) with ⟨first, later, eq⟩
    rw [takeWhile_append_of_pos others, dropWhile_append_of_pos others,
      takeWhile_cons_of_neg (by simp), dropWhile_cons_of_neg (by simp), append_nil, drop_one,
      tail_cons, pieces, pieces, split, eq, getLast?_cons_cons, dropLast_cons_cons]
    split_ifs <;> rfl
  · have others : ∀ unit ∈ mask, decide (unit ≠ semicolon) = true := by grind
    rw [takeWhile_eq_self_iff.mpr others, dropWhile_eq_nil_iff.mpr others]
    simp [pieces, splitOn_eq_singleton member, nonempty]

/-- The spaces before a piece belong to it. -/
theorem dropWhile_space (mask : List WChar) :
    (mask.dropWhile (· = space)).takeWhile (· ≠ semicolon) =
      (mask.takeWhile (· ≠ semicolon)).dropWhile (· = space) ∧
      (mask.dropWhile (· = space)).dropWhile (· ≠ semicolon) = mask.dropWhile (· ≠ semicolon) := by
  induction mask with
  | nil => exact ⟨rfl, rfl⟩
  | cons unit mask ih =>
    by_cases blank : unit = space
    · simpa [blank, space, semicolon] using ih
    · rw [dropWhile_cons_of_neg (by simpa using blank)]
      by_cases last : unit = semicolon
      · simp [last]
      · simp [blank, last]

theorem matchPieces_iff (path mask : List WChar) : matchPieces towupper path mask = true ↔
    ∃ piece ∈ pieces mask, Matches towupper (piece.dropWhile (· = space)) path := by
  fun_induction matchPieces towupper path mask with
  | case1 => simp [pieces]
  | case2 unit rest mask matched =>
    rw [pathMatchMaskW_iff, (dropWhile_space (unit :: rest)).1] at matched
    exact iff_of_true rfl ⟨_, pieces_eq (cons_ne_nil unit rest) ▸ mem_cons_self, matched⟩
  | case3 unit rest mask unmatched ih =>
    rw [pathMatchMaskW_iff, (dropWhile_space (unit :: rest)).1] at unmatched
    rw [ih, pieces_eq (cons_ne_nil unit rest), exists_mem_cons_iff, or_iff_right unmatched,
      (dropWhile_space (unit :: rest)).2]

/-- `PathMatchSpecExW` finds what masks mean exactly if no mask without a meaning
for the path is taken for the one that matches every path. -/
theorem pathMatchSpecExW_exact_iff (lstrcmpW : List WChar → List WChar → Int)
    (towupper : WChar → WChar) (path mask : List WChar)
    (reflexive : lstrcmpW [star, period, star] [star, period, star] = 0) :
    (pathMatchSpecExW lstrcmpW towupper path mask = .sOk ↔ Covered towupper path mask) ↔
      (lstrcmpW mask [star, period, star] = 0 → Covered towupper path mask) := by
  have loop := @matchPieces_iff towupper path mask
  unfold pathMatchSpecExW
  split_ifs with equal matched
  · simp [equal]
  · have covered : Covered towupper path mask := .inr (loop.mp matched)
    exact iff_of_true (iff_of_true rfl covered) fun _ => covered
  · refine iff_of_true (iff_of_false nofun ?_) fun found => absurd found equal
    rintro (rfl | found)
    · exact equal reflexive
    · exact matched (loop.mpr found)

def softHyphen : WChar := 0xad

/-- What the tables of the languages say about the soft hyphen: it has no weight. -/
def IgnoresSoftHyphen (lstrcmpW : List WChar → List WChar → Int) : Prop :=
  ∀ text, lstrcmpW (text ++ [softHyphen]) text = 0

/-- The characters that have a weight are compared. -/
def compareWeights (own other : List WChar) : Int :=
  if own.filter (· ≠ softHyphen) = other.filter (· ≠ softHyphen) then 0 else 1

theorem compareWeights_ignores : IgnoresSoftHyphen compareWeights := by
  intro text
  simp [compareWeights]

theorem pathMatchSpecExW_exact_star :
    pathMatchSpecExW compareWeights id [0x61] [star] = .sOk ↔ Covered id [0x61] [star] :=
  (pathMatchSpecExW_exact_iff compareWeights id [0x61] [star] rfl).mpr fun equal =>
    absurd equal (by decide)

/-- The mask `*.*` and a soft hyphen matches a name without a period, for every
comparison that ignores the soft hyphen. -/
theorem softHyphen_mask_matches_all : IgnoresSoftHyphen compareWeights ∧
    ∀ lstrcmpW, IgnoresSoftHyphen lstrcmpW →
      pathMatchSpecExW lstrcmpW id [0x61] [star, period, star, softHyphen] = .sOk ∧
        ¬ Covered id [0x61] [star, period, star, softHyphen] := by
  refine ⟨compareWeights_ignores, fun lstrcmpW ignores => ?_⟩
  refine ⟨if_pos (ignores [star, period, star]), ?_⟩
  rintro (same | found)
  · exact absurd same (by decide)
  · have matched := matchPieces_iff [0x61] _ |>.mpr found
    simp [matchPieces, pathMatchMaskW, atMaskEnd, star, period, space, semicolon, softHyphen]
      at matched

end WineRedRose.Paths
