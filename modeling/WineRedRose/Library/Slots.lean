import Mathlib.Tactic

/-!
# Slots

An array of slots that are empty or hold something.  A scan upwards finds the
first empty slot and a scan downwards the last one in use.  The slots that hold
something of a kind are counted.
-/

namespace WineRedRose.Library.Slots

open Function Finset

variable {α : Type*}

/-! ## Scans -/

/-- The first empty slot among so many from a slot on, or the slot behind them. -/
def firstFree (slots : Nat → Option α) : (steps start : Nat) → Nat × Bool
  | 0, i => (i, false)
  | steps + 1, i =>
    match slots i with
    | none => (i, true)
    | some _ => firstFree slots steps (i + 1)

/-- The last slot in use among so many, `-1` if there is none. -/
def lastUsed (slots : Nat → Option α) : (size : Nat) → Int
  | 0 => -1
  | size + 1 =>
    match slots size with
    | some _ => size
    | none => lastUsed slots size

/-- What a scan downwards finds. -/
structure LastUsed (slots : Nat → Option α) (size : Nat) (last : Int) : Prop where
  low : -1 ≤ last
  high : last < size
  used : ∀ i : Nat, (i : Int) = last → (slots i).isSome = true
  empty : ∀ i : Nat, last < i → i < size → slots i = none

theorem lastUsed_spec (slots : Nat → Option α) (size : Nat) :
    LastUsed slots size (lastUsed slots size) := by
  induction size with
  | zero =>
    refine ⟨le_rfl, neg_one_lt_zero, fun i same => ?_, fun i _ less => by omega⟩
    have negative : (i : Int) = -1 := same
    omega
  | succ size ih =>
    rw [lastUsed]
    cases here : slots size with
    | some a =>
      dsimp only
      refine ⟨by omega, by omega, fun i same => ?_, fun i above less => by omega⟩
      rw [Int.ofNat_inj.mp same, here]
      rfl
    | none =>
      refine ⟨ih.low, ih.high.trans (by omega), ih.used, fun i above less => ?_⟩
      rcases Nat.lt_succ_iff_lt_or_eq.mp less with below | rfl
      · exact ih.empty i above below
      · exact here

/-! ## Counting -/

variable (kind : α → Prop) [DecidablePred kind]

/-- The slots among the first ones that hold something of a kind. -/
def holders (slots : Nat → Option α) (size : Nat) : Finset Nat :=
  (Finset.range size).filter fun i => (slots i).any (fun a => decide (kind a)) = true

/-- The number of slots that hold something of a kind. -/
def holding (slots : Nat → Option α) (size : Nat) : Nat := (holders kind slots size).card

variable {kind} {slots slots' : Nat → Option α} {size size' i : Nat} {a : α}

theorem mem_holders : i ∈ holders kind slots size ↔ i < size ∧ ∃ a, slots i = some a ∧ kind a := by
  rw [holders, mem_filter, mem_range, Option.any_eq_true]
  simp only [decide_eq_true_eq]

/-- Counts depend on the slots with something in them only. -/
theorem holding_congr (same : ∀ i a, i < size ∧ slots i = some a ↔ i < size' ∧ slots' i = some a) :
    holding kind slots size = holding kind slots' size' := by
  have equal : holders kind slots size = holders kind slots' size' := by
    ext i
    simp only [mem_holders, ← exists_and_left, ← and_assoc, same]
  rw [holding, holding, equal]

theorem holding_eq_sum : holding kind slots size =
    ∑ j ∈ range size, if (slots j).any (fun a => decide (kind a)) = true then 1 else 0 :=
  card_filter ..

/-- One more holder if something of the kind is put into an empty slot. -/
theorem holding_fill (less : i < size) (empty : slots i = none) :
    holding kind (update slots i (some a)) size =
      holding kind slots size + if kind a then 1 else 0 := by
  have inside := mem_range.mpr less
  have others : ∀ j ∈ (range size).erase i, update slots i (some a) j = slots j :=
    fun j member => update_of_ne (ne_of_mem_erase member) ..
  rw [holding_eq_sum, holding_eq_sum, ← add_sum_erase _ _ inside,
    ← add_sum_erase (range size) _ inside,
    sum_congr rfl fun j member => by rw [others j member]]
  simp [empty, add_comm]

theorem holding_succ : holding kind slots (size + 1) = holding kind slots size +
        if (slots size).any (fun a => decide (kind a)) = true then 1 else 0 := by
  rw [holding_eq_sum, holding_eq_sum, sum_range_succ]

theorem holding_update_behind (a : Option α) :
    holding kind (update slots size a) size = holding kind slots size := by
  refine holding_congr fun i b => and_congr_right fun less => ?_
  rw [update_of_ne less.ne]

/-- The slot behind the first ones is counted as well. -/
theorem holding_update_succ (a : Option α) :
    holding kind (update slots size a) (size + 1) = holding kind slots size +
        if a.any (fun a => decide (kind a)) = true then 1 else 0 := by
  rw [holding_succ, holding_update_behind, update_self]

end WineRedRose.Library.Slots
