import WineRedRose.Library.SortedArray

/-!
# Names of registry keys and values

The registry compares names without regard to case: character by character
through the case table of `server/unicode.c`, and by length where one name is
the beginning of the other.  The table is loaded from a file when the server
starts, so it is a parameter of everything that compares names.

The comparison of the source returns a difference.  `foldName` turns it into
a linear order, the lexicographic order of the lower-cased names.
-/

namespace WineRedRose.Registry

open Library.SortedArray

abbrev WChar := BitVec 16

/-- A counted string of 16-bit characters. -/
abbrev Name := List WChar

/-- The code of a 7-bit character. -/
def wchar (c : Char) : WChar := BitVec.ofNat 16 c.toNat

/-- A string literal of the source. -/
def wstr (text : List Char) : Name := text.map wchar

/-- The separator of path elements. -/
def backslash : WChar := wchar '\\'

variable (lower : WChar → WChar)

/-- `memicmp_strW` over the characters that both strings have. -/
def memicmpStrW : Name → Name → Int
  | a :: as, b :: bs =>
    let ret : Int := ((lower a).toNat : Int) - (lower b).toNat
    if ret ≠ 0 then ret else memicmpStrW as bs
  | _, _ => 0

/-- The comparison in the loops of `find_subkey` and `find_value`. -/
def compareName (a b : Name) : Int :=
  let res := memicmpStrW lower a b
  if res = 0 then 2 * (a.length : Int) - 2 * (b.length : Int) else res

/-- The length of the first path element. -/
def getPathElement (name : Name) : Nat := (name.takeWhile (· ≠ backslash)).length

def wow6432nodeName : Name := wstr ['W', 'o', 'w', '6', '4', '3', '2', 'N', 'o', 'd', 'e']

/-- The first path element is `Wow6432Node`. -/
def isWow6432node (name : Name) : Bool :=
  let len := getPathElement name
  len = wow6432nodeName.length ∧ memicmpStrW lower (name.take len) wow6432nodeName = 0

/-- The case table on 7-bit characters. -/
def asciiLower (c : WChar) : WChar := if wchar 'A' ≤ c ∧ c ≤ wchar 'Z' then c + 32 else c

/-! ## The order of names -/

/-- What the comparison looks at. -/
def foldName (name : Name) : List Nat := name.map fun c => (lower c).toNat

@[simp]
theorem foldName_nil : foldName lower [] = [] := rfl

@[simp]
theorem foldName_cons (c : WChar) (name : Name) :
    foldName lower (c :: name) = (lower c).toNat :: foldName lower name := rfl

theorem compareName_cons_of_ne {a b : WChar} (differ : (lower a).toNat ≠ (lower b).toNat)
    (as bs : Name) :
    compareName lower (a :: as) (b :: bs) = ((lower a).toNat : Int) - (lower b).toNat := by
  have nonzero : ((lower a).toNat : Int) - (lower b).toNat ≠ 0 := by omega
  simp only [compareName, memicmpStrW, if_pos nonzero, if_neg nonzero]

theorem compareName_cons_of_eq {a b : WChar} (same : (lower a).toNat = (lower b).toNat)
    (as bs : Name) :
    compareName lower (a :: as) (b :: bs) = compareName lower as bs := by
  have zero : ¬ ((lower a).toNat : Int) - (lower b).toNat ≠ 0 := by omega
  simp only [compareName, memicmpStrW, if_neg zero, List.length_cons]
  split
  · push_cast
    ring
  · rfl

/-- The sign of the comparison is the order of the lower-cased names. -/
theorem compareName_order (a b : Name) :
    (compareName lower a b < 0 ↔ foldName lower a < foldName lower b) ∧
      (compareName lower a b = 0 ↔ foldName lower a = foldName lower b) := by
  induction a generalizing b with
  | nil =>
    cases b with
    | nil => simp [compareName, memicmpStrW]
    | cons b bs =>
      simp [compareName, memicmpStrW]
      omega
  | cons a as ih =>
    cases b with
    | nil =>
      simp [compareName, memicmpStrW]
      omega
    | cons b bs =>
      rw [foldName_cons, foldName_cons, List.cons_lt_cons_iff, List.cons.injEq]
      by_cases same : (lower a).toNat = (lower b).toNat
      · rw [compareName_cons_of_eq lower same]
        simp [same, ih bs]
      · rw [compareName_cons_of_ne lower same]
        omega

/-- Searching with the comparison is searching in the order of names. -/
theorem compareName_compares {α : Type*} (nameOf : α → Name) (name : Name) :
    Compares (fun x => compareName lower (nameOf x) name)
      (fun x => foldName lower (nameOf x)) (foldName lower name) :=
  fun x => compareName_order lower (nameOf x) name

end WineRedRose.Registry
