import Mathlib.Tactic

/-!
# Page protections of a range

The protection bytes of the pages are kept in tables of 2^20 bytes.
`get_vprot_range_size` looks for the first page of a range whose byte differs
from that of the first page.  It compares eight bytes at a time, starting at
a multiple of eight; what the last word has beyond the range does not matter.
-/

namespace WineRedRose.Views

open BitVec Option

/-- The protection bytes that can be read, by page. -/
abbrev PagesVprot := Nat → Option (BitVec 8)

section Scan

variable (pages : PagesVprot) (vprot mask : BitVec 8)

/--
`*vprot_ptr` at the page `idx`.  The pointer moves with the index and stays in
the table that it was set to.
-/
def readVprot (table idx : Nat) : Option (BitVec 8) :=
  if idx / 2 ^ 20 = table then pages idx else none

/-- A little-endian word of so many bytes. -/
def readWord (table : Nat) : (count idx : Nat) → Option (BitVec (8 * count))
  | 0, _ => some 0#0
  | count + 1, idx => do
    let rest ← readWord table count (idx + 1)
    let byte ← readVprot pages table idx
    return rest ++ byte

/-- The loops over single bytes: where they stop after at most so many of them. -/
def scanBytes (table : Nat) : (left currIdx : Nat) → Option Nat
  | 0, currIdx => some currIdx
  | left + 1, currIdx => do
    let byte ← readVprot pages table currIdx
    if (vprot ^^^ byte) &&& mask ≠ 0#8 then some currIdx
    else scanBytes table left (currIdx + 1)

def wordFromByte : BitVec 64 := 0x0101010101010101

/-- The loop over words, which returns the index at which it stops before the end. -/
def scanWords (endIdx : Nat) : (fuel table currIdx : Nat) → Option (Option Nat)
  | 0, _, _ => some none
  | fuel + 1, table, currIdx =>
    if currIdx < endIdx then do
      let table := if currIdx % 2 ^ 20 = 0 then currIdx / 2 ^ 20 else table
      let word ← readWord pages table 8 currIdx
      let vprotWord := wordFromByte * vprot.setWidth 64
      let maskWord := wordFromByte * mask.setWidth 64
      if (vprotWord ^^^ word) &&& maskWord ≠ 0#64 then
        (scanBytes pages vprot mask table (endIdx - currIdx) currIdx).map some
      else scanWords endIdx fuel table (currIdx + 8)
    else some none

end Scan

/-- The size and the protection of the first page; `none` if a byte cannot be read. -/
def getVprotRangeSize (pages : PagesVprot) (base size : Nat) (mask : BitVec 8) :
    Option (Nat × BitVec 8) := do
  let startIdx := base / 0x1000
  let endIdx := startIdx + size / 0x1000
  let alignedStartIdx := min ((startIdx + 7) / 8 * 8) endIdx
  let table := startIdx / 2 ^ 20
  let vprot ← readVprot pages table startIdx
  let currIdx ← scanBytes pages vprot mask table (alignedStartIdx - startIdx) startIdx
  if currIdx < alignedStartIdx then return ((currIdx - startIdx) * 0x1000, vprot)
  match ← scanWords pages vprot mask endIdx (endIdx - currIdx) table currIdx with
  | some currIdx => return ((currIdx - startIdx) * 0x1000, vprot)
  | none => return (size, vprot)

/-! ## What the scan is for -/

/-- The bytes of all words of eight that meet the range can be read. -/
def Covered (pages : PagesVprot) (startIdx endIdx : Nat) (byte : Nat → BitVec 8) : Prop :=
  ∀ idx page, startIdx ≤ page → page < endIdx → idx / 8 = page / 8 → pages idx = some (byte idx)

/-- The page has the protection under the mask. -/
def Agrees (byte : Nat → BitVec 8) (vprot mask : BitVec 8) (idx : Nat) : Prop :=
  (vprot ^^^ byte idx) &&& mask = 0#8

/-- The longest run of pages that have the protection. -/
structure LongestRun (byte : Nat → BitVec 8) (vprot mask : BitVec 8) (startIdx endIdx stop : Nat) :
    Prop where
  lower : startIdx ≤ stop
  upper : stop ≤ endIdx
  agree : ∀ idx, startIdx ≤ idx → idx < stop → Agrees byte vprot mask idx
  longest : stop < endIdx → ¬ Agrees byte vprot mask stop

/-- Whatever else can be read, the first byte and the size of the longest run are returned. -/
def Scans (base size : Nat) : Prop :=
  ∀ pages byte mask, Covered pages (base / 0x1000) ((base + size) / 0x1000) byte → ∃ stop,
    LongestRun byte (byte (base / 0x1000)) mask (base / 0x1000) ((base + size) / 0x1000) stop ∧
      getVprotRangeSize pages base size mask = some (stop * 0x1000 - base, byte (base / 0x1000))

/-! ## The loops -/

variable {pages : PagesVprot} {vprot mask : BitVec 8} {byte : Nat → BitVec 8}
  {table currIdx startIdx endIdx : Nat}

/-- A word of equal bytes. -/
def equalBytes (byte : BitVec 8) : (count : Nat) → BitVec (8 * count)
  | 0 => 0#0
  | count + 1 => equalBytes byte count ++ byte

theorem wordFromByte_mul : ∀ byte : BitVec 8,
    wordFromByte * byte.setWidth 64 = equalBytes byte 8 := by
  decide +kernel

theorem append_eq_zero_iff {n m : Nat} (high : BitVec n) (low : BitVec m) :
    high ++ low = 0 ↔ high = 0 ∧ low = 0 := by
  simp [← toNat_inj, toNat_append, Nat.or_eq_zero_iff, Nat.shiftLeft_eq]

theorem readWord_spec (vprot mask : BitVec 8) {count : Nat} (reads : ∀ idx, currIdx ≤ idx →
      idx < currIdx + count → readVprot pages table idx = some (byte idx)) :
    ∃ word, readWord pages table count currIdx = some word ∧
      ((equalBytes vprot count ^^^ word) &&& equalBytes mask count = 0 ↔
        ∀ idx, currIdx ≤ idx → idx < currIdx + count → Agrees byte vprot mask idx) := by
  induction count generalizing currIdx with
  | zero => exact ⟨0#0, rfl, by simp [of_length_zero]; omega⟩
  | succ count ih =>
    rcases @ih (currIdx + 1) (by grind) with ⟨word, found, agree⟩
    have first := reads currIdx le_rfl (by omega)
    refine ⟨word ++ byte currIdx, by simp [readWord, found, first], ?_⟩
    change (equalBytes vprot count ++ vprot ^^^ word ++ byte currIdx) &&&
      equalBytes mask count ++ mask = 0 ↔ _
    rw [xor_append, and_append, append_eq_zero_iff, agree]
    change _ ∧ Agrees byte vprot mask currIdx ↔ _
    grind

/-- Bytes are only read while those before them agree. -/
theorem scanBytes_spec {left : Nat} (reads : ∀ idx, currIdx ≤ idx → idx < currIdx + left →
      (∀ i, currIdx ≤ i → i < idx → Agrees byte vprot mask i) →
      readVprot pages table idx = some (byte idx)) :
    ∃ stop, scanBytes pages vprot mask table left currIdx = some stop ∧
      LongestRun byte vprot mask currIdx (currIdx + left) stop := by
  induction left generalizing currIdx with
  | zero => exact ⟨currIdx, rfl, by constructor <;> omega⟩
  | succ left ih =>
    rw [scanBytes, reads currIdx le_rfl (by omega) (by omega)]
    by_cases agrees : Agrees byte vprot mask currIdx
    · rcases @ih (currIdx + 1) (by grind) with ⟨stop, found, run⟩
      exact ⟨stop, by simp [show _ = _ from agrees, found], by constructor <;> grind [LongestRun]⟩
    · refine ⟨currIdx, ?_, le_rfl, by omega, by omega, fun _ => agrees⟩
      simp [show ¬ _ = _ from agrees]

/-- A word is read from the table of its first byte. -/
theorem Covered.read (covered : Covered pages startIdx endIdx byte) {idx : Nat}
    (lower : startIdx ≤ currIdx) (upper : currIdx < endIdx) (word : idx / 8 = currIdx / 8) :
    readVprot pages (currIdx / 2 ^ 20) idx = some (byte idx) :=
  (if_pos (by omega)).trans (covered idx currIdx lower upper word)

theorem scanWords_spec {fuel : Nat} (covered : Covered pages startIdx endIdx byte)
    (enough : endIdx ≤ currIdx + fuel) (lower : startIdx ≤ currIdx)
    (aligned : currIdx < endIdx → currIdx % 8 = 0)
    (here : currIdx % 2 ^ 20 ≠ 0 → table = currIdx / 2 ^ 20) :
    ∃ stop, scanWords pages vprot mask endIdx fuel table currIdx = some stop ∧
      LongestRun byte vprot mask (min currIdx endIdx) endIdx (stop.getD endIdx) := by
  induction fuel generalizing currIdx table with
  | zero => exact ⟨none, rfl, by constructor <;> grind⟩
  | succ fuel ih =>
    rw [scanWords]
    by_cases inside : currIdx < endIdx
    swap
    · rw [if_neg inside]
      exact ⟨none, rfl, by constructor <;> grind⟩
    have start := aligned inside
    have place : (if currIdx % 2 ^ 20 = 0 then currIdx / 2 ^ 20 else table) = currIdx / 2 ^ 20 := by
      grind
    have reads : ∀ idx, currIdx ≤ idx → idx < currIdx + 8 →
        readVprot pages (currIdx / 2 ^ 20) idx = some (byte idx) :=
      fun idx _ _ => covered.read lower inside (by omega)
    rcases readWord_spec vprot mask reads with ⟨word, found, agree⟩
    simp only [if_pos inside, place, found, wordFromByte_mul, bind_eq_bind, bind_some]
    split_ifs with differs
    · -- the loop over the bytes does not leave the word: one of them differs
      rcases @scanBytes_spec pages vprot mask byte _ currIdx (endIdx - currIdx)
          fun idx after before agreed => reads idx after (by grind) with ⟨stop, scanned, run⟩
      rw [Nat.add_sub_of_le inside.le] at run
      exact ⟨some stop, by rw [scanned]; rfl, by rwa [min_eq_left inside.le]⟩
    · rcases @ih (currIdx / 2 ^ 20) (currIdx + 8) (by omega) (by omega) (by omega) (by omega)
        with ⟨stop, scanned, run⟩
      exact ⟨stop, scanned, by constructor <;> grind [LongestRun]⟩

/-- The scan finds the longest run of every range that has a first page. -/
theorem vprot_range_size_scans (base size : Nat) (aligned : 0x1000 ∣ base ∧ 0x1000 ∣ size)
    (nonempty : size ≠ 0) : Scans base size := by
  rcases aligned with ⟨⟨startIdx, rfl⟩, count, rfl⟩
  simp only [Scans, ← Nat.mul_add, getVprotRangeSize,
    Nat.mul_div_cancel_left _ (by decide : 0 < 0x1000)]
  intro pages byte mask covered
  have inside : startIdx < startIdx + count := by omega
  rcases @scanBytes_spec pages (byte startIdx) mask byte (startIdx / 2 ^ 20) startIdx
      (min ((startIdx + 7) / 8 * 8) (startIdx + count) - startIdx)
      fun idx _ _ _ => covered.read le_rfl inside (by omega) with ⟨stop, scanned, run⟩
  simp only [covered.read le_rfl inside rfl, scanned, bind_eq_bind, bind_some]
  rcases run with ⟨lower, upper, agree, longest⟩
  by_cases early : stop < min ((startIdx + 7) / 8 * 8) (startIdx + count)
  · refine ⟨stop, ⟨lower, by omega, agree, fun _ => longest (by omega)⟩, ?_⟩
    rw [if_pos early, Nat.sub_mul, Nat.mul_comm startIdx]
    rfl
  · rcases @scanWords_spec pages (byte startIdx) mask byte (startIdx / 2 ^ 20) stop startIdx
        (startIdx + count) (startIdx + count - stop) covered (by omega) lower (by omega) (by omega)
      with ⟨stop', found, run⟩
    rw [min_eq_left (by omega)] at run
    refine ⟨stop'.getD (startIdx + count), by constructor <;> grind [LongestRun], ?_⟩
    rw [if_neg early, found]
    cases stop' <;> simp [Nat.sub_mul] <;> omega

/-- Twenty pages over four words; the byte of page 18, in the third of them, is
the first one that differs. -/
theorem vprot_range_size_scans_words :
    getVprotRangeSize (fun idx => some (if idx < 18 then 1 else 2)) 0x7000 0x14000 3 =
      some (0xb000, 1) := by
  rcases vprot_range_size_scans 0x7000 0x14000 (by decide) (by decide)
    (fun idx => some (if idx < 18 then 1 else 2)) (fun idx => if idx < 18 then 1 else 2) 3
    (fun _ _ _ _ _ => rfl) with ⟨stop, ⟨lower, upper, agree, longest⟩, found⟩
  have last : stop = 18 := by
    by_contra other
    rcases Nat.lt_or_gt_of_ne other with before | after
    · exact longest (by omega) (by simp [Agrees, before])
    · exact absurd (agree 18 (by decide) after) (by simp [Agrees])
  rw [found, last]
  rfl

end WineRedRose.Views
