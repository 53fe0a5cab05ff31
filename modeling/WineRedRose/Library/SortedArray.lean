import Mathlib.Tactic

/-!
# Sorted arrays that are changed in place

An array in use is the list of its elements.  This module has the loops that
programs write for sorted arrays, binary search and the two shifting loops,
and says what they do: a search finds an element or the place where it
belongs, and the shifts insert, remove and move single elements.
-/

namespace WineRedRose.Library.SortedArray

open List Option

variable {α : Type*}

/-! ## Shifting -/

/-- The assignment `xs[dst] = xs[src]`. -/
def copySlot (xs : List α) (dst src : Nat) : List α :=
  match xs[src]? with
  | some x => xs.set dst x
  | none => xs

/-- `count` rounds of `xs[i] = xs[i + 1]; i++`. -/
def shiftLeft (xs : List α) (i : Nat) : Nat → List α
  | 0 => xs
  | count + 1 => shiftLeft (copySlot xs i (i + 1)) (i + 1) count

/-- `count` rounds of `xs[i] = xs[i - 1]; i--`. -/
def shiftRight (xs : List α) (i : Nat) : Nat → List α
  | 0 => xs
  | count + 1 => shiftRight (copySlot xs i (i - 1)) (i - 1) count

variable {xs : List α} {index : Nat}

/-! ## One place of an array -/

section Place

variable (before after : List α) (x y : α)

theorem getElem?_place : (before ++ x :: after)[before.length]? = some x := by simp

theorem getElem?_place_succ : (before ++ x :: after)[before.length + 1]? = after.head? := by
  rw [getElem?_append_right (by omega)]
  simp [head?_eq_getElem?]

theorem set_place : (before ++ x :: after).set before.length y = before ++ y :: after := by simp

theorem eraseIdx_place : (before ++ x :: after).eraseIdx before.length = before ++ after := by
  simp [eraseIdx_append_of_length_le]

theorem eraseIdx_place_succ :
    (before ++ x :: y :: after).eraseIdx (before.length + 1) = before ++ x :: after := by
  simp [eraseIdx_append_of_length_le]

theorem modify_place (change : α → α) :
    (before ++ x :: after).modify before.length change = before ++ change x :: after := by
  induction before with
  | nil => rfl
  | cons first before ih => simp [ih]

theorem insertIdx_place : (before ++ after).insertIdx before.length x = before ++ x :: after := by
  induction before with
  | nil => simp
  | cons first before ih => simp [ih]

theorem insertIdx_place_succ :
    (before ++ x :: after).insertIdx (before.length + 1) y = before ++ x :: y :: after := by
  simpa using insertIdx_place (before ++ [x]) after y

variable {before after x y}

theorem copySlot_place {i : Nat} (source : (before ++ x :: after)[i]? = some y) :
    copySlot (before ++ x :: after) before.length i = before ++ y :: after := by
  rw [copySlot, source]
  exact set_place ..

end Place

theorem exists_parts (inside : index ≤ xs.length) :
    ∃ before after, xs = before ++ after ∧ before.length = index :=
  ⟨xs.take index, xs.drop index, (take_append_drop ..).symm, length_take_of_le inside⟩

theorem exists_place (inside : index < xs.length) :
    ∃ before x after, xs = before ++ x :: after ∧ before.length = index :=
  ⟨xs.take index, xs[index], xs.drop (index + 1), by simp, length_take_of_le inside.le⟩

/-- What is shifted down moves over the element before it. -/
theorem shiftLeft_place (before moved after : List α) (x : α) :
    ∃ y, shiftLeft (before ++ x :: (moved ++ after)) before.length moved.length =
      before ++ moved ++ y :: after := by
  induction moved generalizing before x with
  | nil => exact ⟨x, by simp [shiftLeft]⟩
  | cons next moved ih =>
    rcases ih (before ++ [next]) next with ⟨y, shifted⟩
    refine ⟨y, ?_⟩
    rw [length_cons, shiftLeft, cons_append, copySlot_place (getElem?_place_succ ..)]
    simpa using shifted

/-- What is shifted up moves over the element behind it. -/
theorem shiftRight_place (before moved after : List α) (x : α) :
    ∃ y, shiftRight (before ++ moved ++ x :: after) (before ++ moved).length moved.length =
      before ++ y :: (moved ++ after) := by
  induction moved using reverseRecOn generalizing x after with
  | nil => exact ⟨x, by simp [shiftRight]⟩
  | append_singleton moved last ih =>
    rcases ih (last :: after) last with ⟨y, shifted⟩
    refine ⟨y, ?_⟩
    have length : (moved ++ [last]).length = moved.length + 1 := by simp
    rw [length, shiftRight, copySlot_place (y := last) (by simp)]
    simpa using shifted

/-! ## Inserting, removing and moving -/

/-- Make room at `index` by shifting and store an element there. -/
def insertSlot (xs : List α) (index : Nat) (a : α) : List α :=
  (shiftRight (xs ++ [a]) xs.length (xs.length - index)).set index a

/-- Close the gap at `index` and forget the last slot. -/
def removeSlot (xs : List α) (index : Nat) : List α :=
  (shiftLeft xs index (xs.length - 1 - index)).dropLast

theorem insertSlot_eq (inside : index ≤ xs.length) (a : α) :
    insertSlot xs index a = xs.insertIdx index a := by
  obtain ⟨before, moved, rfl, rfl⟩ := exists_parts inside
  have count : (before ++ moved).length - before.length = moved.length := by simp
  rcases shiftRight_place before moved [] a with ⟨y, shifted⟩
  rw [insertSlot, count, shifted, set_place, append_nil, insertIdx_place]

theorem erase_insertSlot [DecidableEq α] {a : α} (absent : a ∉ xs) :
    (insertSlot xs index a).erase a = xs := by
  rcases le_or_gt index xs.length with inside | beyond
  · rw [insertSlot_eq inside]
    obtain ⟨before, moved, rfl, rfl⟩ := exists_parts inside
    rw [insertIdx_place, erase_append_right _ fun member => absent (mem_append_left _ member),
      erase_cons_head]
  · rw [insertSlot, Nat.sub_eq_zero_of_le beyond.le, shiftRight,
      set_eq_of_length_le (by simpa using beyond), erase_append_right _ absent,
      erase_cons_head, append_nil]

theorem removeSlot_eq (inside : index < xs.length) : removeSlot xs index = xs.eraseIdx index := by
  obtain ⟨before, x, moved, rfl, rfl⟩ := exists_place inside
  have count : (before ++ x :: moved).length - 1 - before.length = moved.length := by simp
  rcases shiftLeft_place before moved [] x with ⟨y, shifted⟩
  rw [append_nil] at shifted
  rw [removeSlot, count, shifted, eraseIdx_place]
  exact dropLast_concat

variable {current j fuel lo hi : Nat}

/-- Shift down to `index`, where the moved element is stored. -/
theorem set_shiftLeft_eq (order : current ≤ index) (inside : index < xs.length) (a : α) :
    (shiftLeft xs current (index - current)).set index a =
      (xs.eraseIdx current).insertIdx index a := by
  obtain ⟨before, x, rest, rfl, rfl⟩ := exists_place (order.trans_lt inside)
  obtain ⟨moved, after, rfl, count⟩ := @exists_parts _ rest (index - before.length) (by
    simp at inside
    omega)
  have place : index = (before ++ moved).length := by
    rw [length_append]
    omega
  rcases shiftLeft_place before moved after x with ⟨y, shifted⟩
  rw [← count, shifted, place, set_place, eraseIdx_place, ← append_assoc, insertIdx_place]

/-- Shift up to `index`, where the moved element is stored. -/
theorem set_shiftRight_eq (order : index ≤ current) (inside : current < xs.length) (a : α) :
    (shiftRight xs current (current - index)).set index a =
      (xs.eraseIdx current).insertIdx index a := by
  obtain ⟨front, x, after, rfl, rfl⟩ := exists_place inside
  obtain ⟨before, moved, rfl, rfl⟩ := exists_parts order
  have count : (before ++ moved).length - before.length = moved.length := by simp
  rcases shiftRight_place before moved after x with ⟨y, shifted⟩
  rw [count, shifted, set_place, eraseIdx_place, append_assoc, insertIdx_place]

/-! ## Binary search -/

/--
The loop of a binary search in `xs[lo] .. xs[hi - 1]`.  `cmp` is negative for
elements before the one that is looked for.  Every round makes the interval
shorter, so its length is enough fuel.
-/
def searchLoop (cmp : α → Int) (xs : List α) : Nat → Nat → Nat → Bool × Nat
  | 0, lo, _ => (false, lo)
  | fuel + 1, lo, hi =>
    if lo < hi then
      let i := (lo + hi - 1) / 2
      match xs[i]? with
      | none => (false, lo)
      | some x =>
        if cmp x = 0 then (true, i)
        else if cmp x > 0 then searchLoop cmp xs fuel lo i
        else searchLoop cmp xs fuel (i + 1) hi
    else (false, lo)

/-- The index of the element, or the one where it belongs. -/
def search (cmp : α → Int) (xs : List α) : Bool × Nat := searchLoop cmp xs xs.length 0 xs.length

variable {cmp : α → Int} {xs : List α}

theorem pairwise_getElem? {r : α → α → Prop} (sorted : xs.Pairwise r) {i : Nat} {x y : α}
    (atI : xs[i]? = some x) (atJ : xs[j]? = some y) (less : i < j) : r x y := by
  rcases List.getElem?_eq_some_iff.mp atI with ⟨boundI, rfl⟩
  rcases List.getElem?_eq_some_iff.mp atJ with ⟨boundJ, rfl⟩
  exact pairwise_iff_getElem.mp sorted i j boundI boundJ less

/-- A search for what is not there ends inside the array, sorted or not. -/
theorem search_absent (absent : ∀ x ∈ xs, cmp x ≠ 0) :
    ∃ i ≤ xs.length, search cmp xs = (false, i) := by
  have loop : ∀ fuel lo hi, lo ≤ xs.length → hi ≤ xs.length →
      ∃ i ≤ xs.length, searchLoop cmp xs fuel lo hi = (false, i) := by
    intro fuel
    induction fuel with
    | zero => exact fun lo _ low _ => ⟨lo, low, rfl⟩
    | succ fuel ih =>
      intro lo hi low high
      rw [searchLoop]
      dsimp only
      split_ifs with order
      · cases middle : xs[(lo + hi - 1) / 2]? with
        | none => exact ⟨lo, low, rfl⟩
        | some x =>
          dsimp only
          rw [if_neg (absent x (mem_of_getElem? middle))]
          split_ifs
          · exact ih lo _ low (by omega)
          · exact ih _ hi (by omega) high
      · exact ⟨lo, low, rfl⟩
  exact loop _ _ _ (Nat.zero_le _) le_rfl

/-- What the search finds in an array that is sorted. -/
def Located (cmp : α → Int) (xs : List α) : Bool × Nat → Prop
  | (true, i) => ∃ x, xs[i]? = some x ∧ cmp x = 0
  | (false, i) =>
    i ≤ xs.length ∧ (∀ k x, k < i → xs[k]? = some x → cmp x < 0) ∧
      ∀ k x, i ≤ k → xs[k]? = some x → 0 < cmp x

theorem searchLoop_located (sorted : xs.Pairwise fun x y => 0 ≤ cmp x → 0 < cmp y)
    (enough : hi - lo ≤ fuel) (order : lo ≤ hi) (inside : hi ≤ xs.length)
    (before : ∀ k x, k < lo → xs[k]? = some x → cmp x < 0)
    (after : ∀ k x, hi ≤ k → xs[k]? = some x → 0 < cmp x) :
    Located cmp xs (searchLoop cmp xs fuel lo hi) := by
  induction fuel generalizing lo hi with
  | zero =>
    have empty : lo = hi := by omega
    exact ⟨by omega, before, empty ▸ after⟩
  | succ fuel ih =>
    simp only [searchLoop]
    split
    next active =>
      have middle : (lo + hi - 1) / 2 < xs.length := by omega
      rw [getElem?_eq_getElem middle]
      dsimp only
      have here := getElem?_eq_getElem middle
      split
      next zero => exact ⟨_, here, zero⟩
      next nonzero =>
        split
        next greater =>
          apply ih (by omega) (by omega) (by omega) before
          intro k x beyond atK
          rcases beyond.eq_or_lt with rfl | beyond
          · rw [here] at atK
            exact some.inj atK ▸ greater
          · exact pairwise_getElem? sorted here atK beyond greater.le
        next notGreater =>
          apply ih (by omega) (by omega) inside ?_ after
          intro k x below atK
          by_contra nonneg
          rcases (Nat.lt_succ_iff.mp below).eq_or_lt with rfl | below
          · rw [here] at atK
            cases atK
            omega
          · have := pairwise_getElem? sorted atK here below (not_lt.mp nonneg)
            omega
    next inactive =>
      have empty : lo = hi := by omega
      exact ⟨by omega, before, empty ▸ after⟩

/-- A binary search in a sorted array finds the element or its place. -/
theorem search_located (sorted : xs.Pairwise fun x y => 0 ≤ cmp x → 0 < cmp y) :
    Located cmp xs (search cmp xs) := by
  apply searchLoop_located sorted (by omega) (by omega) le_rfl
  · intro k x below
    omega
  · intro k x beyond atK
    rw [getElem?_eq_none beyond] at atK
    cases atK

/-! ## The first element past a bound -/

/--
The loop of a search for the first element that is not before a bound.  Every
round makes the interval shorter, so its length is enough fuel.
-/
def lowerBoundLoop (isBefore : α → Bool) (xs : List α) : Nat → Nat → Nat → Nat
  | 0, lo, _ => lo
  | fuel + 1, lo, hi =>
    if lo < hi then
      let mid := lo + (hi - lo) / 2
      match xs[mid]? with
      | none => lo
      | some x =>
        if isBefore x then lowerBoundLoop isBefore xs fuel (mid + 1) hi
        else lowerBoundLoop isBefore xs fuel lo mid
    else lo

/-- The index of the first element that is not before the bound. -/
def lowerBound (isBefore : α → Bool) (xs : List α) : Nat :=
  lowerBoundLoop isBefore xs xs.length 0 xs.length

/-- The index separates the elements before a bound from the others. -/
structure Separates (isBefore : α → Bool) (xs : List α) (lo hi : Nat) :
    Prop where
  order : lo ≤ hi
  inside : hi ≤ xs.length
  before : ∀ k x, k < lo → xs[k]? = some x → isBefore x
  after : ∀ k x, hi ≤ k → xs[k]? = some x → ¬ isBefore x

theorem lowerBoundLoop_separates {isBefore : α → Bool}
    (sorted : xs.Pairwise fun x y => isBefore y → isBefore x) (enough : hi - lo ≤ fuel)
    (between : Separates isBefore xs lo hi) :
    Separates isBefore xs (lowerBoundLoop isBefore xs fuel lo hi)
      (lowerBoundLoop isBefore xs fuel lo hi) := by
  have order := between.order
  have inside := between.inside
  induction fuel generalizing lo hi with
  | zero =>
    have empty : lo = hi := by omega
    exact empty ▸ between
  | succ fuel ih =>
    simp only [lowerBoundLoop]
    split
    next active =>
      have middle : lo + (hi - lo) / 2 < xs.length := by omega
      have here := getElem?_eq_getElem middle
      rw [here]
      dsimp only
      split
      next less =>
        have next : Separates isBefore xs (lo + (hi - lo) / 2 + 1) hi := by
          refine ⟨by omega, inside, ?_, between.after⟩
          intro k x below atK
          rcases (Nat.lt_succ_iff.mp below).eq_or_lt with rfl | below
          · exact some.inj (here.symm.trans atK) ▸ less
          · exact pairwise_getElem? sorted atK here below less
        exact ih (by omega) next next.order inside
      next notLess =>
        have next : Separates isBefore xs lo (lo + (hi - lo) / 2) := by
          refine ⟨by omega, by omega, between.before, ?_⟩
          intro k x beyond atK less
          rcases beyond.eq_or_lt with rfl | beyond
          · exact notLess (some.inj (here.symm.trans atK) ▸ less)
          · exact notLess (pairwise_getElem? sorted here atK beyond less)
        exact ih (by omega) next next.order next.inside
    next inactive =>
      have empty : lo = hi := by omega
      exact empty ▸ between

/-- The search splits a sorted array into the elements before and past it. -/
theorem lowerBound_split (isBefore : α → Bool)
    (sorted : xs.Pairwise fun x y => isBefore y → isBefore x) :
    ∃ before after, xs = before ++ after ∧ before.length = lowerBound isBefore xs ∧
      (∀ x ∈ before, isBefore x) ∧ ∀ x ∈ after, ¬ isBefore x := by
  have found : Separates isBefore xs (lowerBound isBefore xs) (lowerBound isBefore xs) := by
    apply lowerBoundLoop_separates sorted (by omega)
    refine ⟨by omega, le_rfl, fun k x below => by omega, ?_⟩
    intro k x beyond atK
    rw [getElem?_eq_none beyond] at atK
    cases atK
  refine ⟨xs.take (lowerBound isBefore xs), xs.drop (lowerBound isBefore xs),
    (take_append_drop _ _).symm, length_take_of_le found.inside,
    ?_, ?_⟩
  · intro x member
    rcases mem_take_iff_getElem.mp member with ⟨k, bound, rfl⟩
    exact found.before k _ (by omega) (getElem?_eq_getElem _)
  · intro x member
    rcases mem_drop_iff_getElem.mp member with ⟨k, bound, rfl⟩
    exact found.after _ _ (by omega) (getElem?_eq_getElem _)

/-! ## Arrays sorted by a key -/

section Sorted

variable {K : Type*} [LinearOrder K] {key key' : α → K} {k : K}
variable {xs : List α} {i : Nat}

/-- The keys are strictly increasing. -/
def SortedBy (key : α → K) (xs : List α) : Prop := xs.Pairwise fun x y => key x < key y

/-- The index separates the smaller keys from the greater ones. -/
structure Fits (key : α → K) (k : K) (xs : List α) (i : Nat) : Prop where
  inside : i ≤ xs.length
  before : ∀ j x, j < i → xs[j]? = some x → key x < k
  after : ∀ j x, i ≤ j → xs[j]? = some x → k < key x

/-- The sign of the comparison is the order of the keys. -/
def Compares (cmp : α → Int) (key : α → K) (k : K) : Prop :=
  ∀ x, (cmp x < 0 ↔ key x < k) ∧ (cmp x = 0 ↔ key x = k)

theorem Compares.pos_iff (compares : Compares cmp key k) (x : α) : 0 < cmp x ↔ k < key x := by
  rcases compares x with ⟨less, same⟩
  constructor
  · intro positive
    have notLess : ¬ key x < k := mt less.mpr (by omega)
    have notSame : key x ≠ k := mt same.mpr (by omega)
    exact lt_of_le_of_ne (not_lt.mp notLess) (Ne.symm notSame)
  · intro greater
    have notLess : ¬ cmp x < 0 := mt less.mp (not_lt.mpr greater.le)
    have notSame : cmp x ≠ 0 := mt same.mp greater.ne'
    omega

theorem SortedBy.congr (sorted : SortedBy key xs) (same : ∀ x ∈ xs, key' x = key x) :
    SortedBy key' xs := by
  apply List.Pairwise.imp_of_mem ?_ sorted
  intro x y memX memY less
  rwa [same x memX, same y memY]

theorem Fits.congr (fits : Fits key k xs i) (same : ∀ x ∈ xs, key' x = key x) :
    Fits key' k xs i where
  inside := fits.inside
  before j x below atJ := by
    rw [same x (mem_of_getElem? atJ)]
    exact fits.before j x below atJ
  after j x beyond atJ := by
    rw [same x (mem_of_getElem? atJ)]
    exact fits.after j x beyond atJ

/-- No element has the key that fits between others. -/
theorem Fits.key_ne (fits : Fits key k xs i) : ∀ x ∈ xs, key x ≠ k := by
  intro x member
  rcases mem_iff_getElem?.mp member with ⟨j, atJ⟩
  rcases lt_or_ge j i with below | beyond
  · exact (fits.before j x below atJ).ne
  · exact (fits.after j x beyond atJ).ne'

section

variable (sorted : SortedBy key xs)
include sorted

theorem SortedBy.key_lt_iff {x y : α} (atI : xs[i]? = some x) (atJ : xs[j]? = some y) :
    key x < key y ↔ i < j := by
  refine ⟨fun less => ?_, pairwise_getElem? sorted atI atJ⟩
  rcases lt_trichotomy i j with before | rfl | after
  · exact before
  · rw [atI] at atJ
    cases atJ
    exact (lt_irrefl _ less).elim
  · exact (lt_asymm less (pairwise_getElem? sorted atJ atI after)).elim

theorem SortedBy.index_injective {x y : α} (atI : xs[i]? = some x) (atJ : xs[j]? = some y)
    (same : key x = key y) : i = j := by
  rcases lt_trichotomy i j with less | equal | greater
  · exact ((pairwise_getElem? sorted atI atJ less).ne same).elim
  · exact equal
  · exact ((pairwise_getElem? sorted atJ atI greater).ne same.symm).elim

theorem SortedBy.key_injective {x y : α} (memX : x ∈ xs) (memY : y ∈ xs) (same : key x = key y) :
    x = y := by
  rcases mem_iff_getElem?.mp memX with ⟨i, atI⟩
  rcases mem_iff_getElem?.mp memY with ⟨j, atJ⟩
  obtain rfl := sorted.index_injective atI atJ same
  exact some.inj (atI.symm.trans atJ)

theorem SortedBy.nodup : xs.Nodup := by
  apply List.Pairwise.imp ?_ sorted
  intro x y less same
  exact less.ne (congrArg key same)

/-- An element may be replaced by one with the same key. -/
theorem SortedBy.set {x x' : α} (here : xs[i]? = some x) (same : key x' = key x) :
    SortedBy key (xs.set i x') := by
  have keys : (xs.set i x').map key = xs.map key := by
    rcases List.getElem?_eq_some_iff.mp here with ⟨bound, rfl⟩
    rw [map_set, same, ← getElem_map key]
    exact set_getElem_self (by simpa using bound)
  have pairs : (xs.map key).Pairwise (· < ·) := pairwise_map.mpr sorted
  rw [← keys] at pairs
  exact pairwise_map.mp pairs

omit sorted in
/-- Inserting where the key fits keeps the order. -/
theorem Fits.insertIdx {a : α} (fits : Fits key (key a) xs i) (sorted : SortedBy key xs) :
    SortedBy key (xs.insertIdx i a) := by
  induction xs generalizing i with
  | nil =>
    have first : i = 0 := by simpa using fits.inside
    subst first
    simp [SortedBy]
  | cons x xs ih =>
    rcases pairwise_cons.mp sorted with ⟨least, sortedTail⟩
    cases i with
    | zero =>
      rw [insertIdx_zero]
      refine pairwise_cons.mpr ⟨fun y member => ?_, sorted⟩
      rcases mem_iff_getElem?.mp member with ⟨j, atJ⟩
      exact fits.after j y j.zero_le atJ
    | succ i =>
      have inside : i ≤ xs.length := by simpa using fits.inside
      have fitsTail : Fits key (key a) xs i := ⟨inside,
          fun j y below atJ => fits.before (j + 1) y (by omega) (by simpa),
          fun j y beyond atJ => fits.after (j + 1) y (by omega) (by simpa)⟩
      rw [insertIdx_succ_cons]
      refine pairwise_cons.mpr ⟨fun y member => ?_, ih fitsTail sortedTail⟩
      rcases (mem_insertIdx inside).mp member with rfl | later
      · exact fits.before 0 x (by omega) rfl
      · exact least y later

theorem SortedBy.eraseIdx (i : Nat) : SortedBy key (xs.eraseIdx i) :=
  List.Pairwise.eraseIdx i sorted

end

/-- Where a key fits after an element has been taken out. -/
theorem Fits.eraseIdx (fits : Fits key k xs i) (inside : current < xs.length) :
    Fits key k (xs.eraseIdx current) (if current < i then i - 1 else i) := by
  have bound := fits.inside
  refine ⟨?_, fun j x below atJ => ?_, fun j x beyond atJ => ?_⟩
  · rw [length_eraseIdx_of_lt inside]
    split_ifs with first
    · omega
    · omega
  · rw [getElem?_eraseIdx] at atJ
    split_ifs at below atJ with first second
    · exact fits.before j x (by omega) atJ
    · exact fits.before (j + 1) x (by omega) atJ
    · exact fits.before j x below atJ
    · exact fits.before (j + 1) x (by omega) atJ
  · rw [getElem?_eraseIdx] at atJ
    split_ifs at beyond atJ with first second
    · exact fits.after j x (by omega) atJ
    · exact fits.after (j + 1) x (by omega) atJ
    · exact fits.after j x (by omega) atJ
    · exact fits.after (j + 1) x (by omega) atJ

/-- What a binary search in an array sorted by a key finds. -/
theorem search_sorted (compares : Compares cmp key k) (sorted : SortedBy key xs) :
    (∃ i x, search cmp xs = (true, i) ∧ xs[i]? = some x ∧ key x = k) ∨
      ∃ i, search cmp xs = (false, i) ∧ Fits key k xs i := by
  have ordered : xs.Pairwise fun x y => 0 ≤ cmp x → 0 < cmp y := by
    apply List.Pairwise.imp ?_ sorted
    intro x y less nonneg
    rw [compares.pos_iff]
    exact lt_of_le_of_lt (not_lt.mp (mt (compares x).1.mpr (not_lt.mpr nonneg))) less
  have located := search_located ordered
  rcases found : search cmp xs with ⟨_ | _, i⟩
  · rw [found] at located
    rcases located with ⟨inside, before, after⟩
    refine .inr ⟨i, rfl, inside, fun j x below atJ => ?_, fun j x beyond atJ => ?_⟩
    · exact (compares x).1.mp (before j x below atJ)
    · exact (compares.pos_iff x).mp (after j x beyond atJ)
  · rw [found] at located
    rcases located with ⟨x, here, zero⟩
    exact .inl ⟨i, x, rfl, here, (compares x).2.mp zero⟩

end Sorted

end WineRedRose.Library.SortedArray
