import WineRedRose.Views.FreeRanges

/-!
# Blocks of 64K

The table of free ranges is about blocks, the views are not aligned to them.
This module says which blocks a view touches, what it means that the table
matches the views, and where ranges of a table that matches can end.
-/

namespace WineRedRose.Views

open Library.Extents List View

/-! ## The blocks of a view -/

/-- The view has a byte in the block. -/
def View.Touches (view : View) (block : Nat) : Prop :=
  view.base < (block + 1) * 0x10000 ∧ block * 0x10000 < view.limit

/-- The number of blocks. -/
def Target.blocks (target : Target) : Nat := target.space / 0x10000

/-- The first block a view touches. -/
def View.firstBlock (view : View) : Nat := view.base / 0x10000

/-- The block after the last one a view touches. -/
def View.endBlock (view : View) : Nat := (view.limit + 0xffff) / 0x10000

instance (view : View) (block : Nat) : Decidable (view.Touches block) :=
  inferInstanceAs (Decidable (_ ∧ _))

theorem Target.space_eq (target : Target) : target.space = target.blocks * 0x10000 := by
  cases target <;> rfl

theorem Target.two_le_blocks (target : Target) : 2 ≤ target.blocks := by cases target <;> decide

theorem View.touches_iff (view : View) (block : Nat) :
    view.Touches block ↔ view.firstBlock ≤ block ∧ block < view.endBlock := by
  simp only [View.Touches, firstBlock, endBlock]
  omega

theorem View.blockBase_eq (view : View) : view.blockBase = view.firstBlock * 0x10000 := by
  simp only [blockBase, firstBlock, roundAddr, granularityMask]
  omega

/-- Below the last block the end of the view is rounded up as intended. -/
theorem View.blockEnd_eq {target : Target} {view : View}
    (low : view.limit + 0x10000 ≤ target.space) :
    view.blockEnd target = view.endBlock * 0x10000 := by
  simp only [limit] at low
  have small : (view.base + view.size + granularityMask) % target.space =
      view.base + view.size + granularityMask :=
    Nat.mod_eq_of_lt (by simp only [granularityMask]; omega)
  rw [blockEnd, small]
  simp only [endBlock, limit, roundAddr, granularityMask]
  omega

/-- In the last block the end of the view wraps around to zero. -/
theorem View.blockEnd_wraps {target : Target} {view : View} (inside : view.limit ≤ target.space - 1)
    (high : target.space < view.limit + 0x10000) :
    view.blockEnd target = 0 := by
  have size := target.space_eq
  have many := target.two_le_blocks
  simp only [limit] at inside high
  have wrapped : (view.base + view.size + granularityMask) % target.space =
      view.base + view.size + granularityMask - target.space := by
    simp only [granularityMask]
    rw [Nat.mod_eq_sub_mod (by omega), Nat.mod_eq_of_lt (by omega)]
  rw [blockEnd, wrapped]
  simp only [roundAddr, granularityMask]
  omega

/-! ## Views side by side -/

/-- A view of whole pages inside the initial free range. -/
structure View.Legal (target : Target) (view : View) : Prop where
  base_aligned : pageMask + 1 ∣ view.base
  size_aligned : pageMask + 1 ∣ view.size
  nonempty : 0 < view.size
  inside : view.limit ≤ target.space - 1

/-- No byte belongs to both views. -/
def View.Disjoint (view other : View) : Prop := view.limit ≤ other.base ∨ other.limit ≤ view.base

instance (view other : View) : Decidable (view.Disjoint other) :=
  inferInstanceAs (Decidable (_ ∨ _))

/-- The tree is ordered and its views are legal and pairwise disjoint. -/
structure WellPlaced (target : Target) (views : List View) : Prop where
  legal : ∀ view ∈ views, view.Legal target
  ordered : views.Pairwise fun lower upper => lower.limit ≤ upper.base

section Views

variable {target : Target} {views : List View} {view : View}

theorem View.Legal.first_lt_end (legal : view.Legal target) : view.firstBlock < view.endBlock := by
  have nonempty := legal.nonempty
  simp only [firstBlock, endBlock, limit]
  omega

theorem View.Legal.base_lt_limit (legal : view.Legal target) : view.base < view.limit := by
  have nonempty := legal.nonempty
  simp only [limit]
  omega

section

variable (placed : WellPlaced target views) (own : view.Legal target)
  (disjoint : ∀ other ∈ views, view.Disjoint other)
include placed own disjoint

/-- A view that is disjoint from the others is put between those below and those above. -/
theorem rbPut_eq : ∃ before after, views = before ++ after ∧
    rbPut views view = before ++ view :: after ∧ (∀ other ∈ before, other.limit ≤ view.base) ∧
      ∀ other ∈ after, view.limit ≤ other.base := by
  rcases placed with ⟨legal, ordered⟩
  induction views with
  | nil => exact ⟨[], [], rfl, rfl, nofun, nofun⟩
  | cons first views ih =>
    rw [forall_mem_cons] at legal disjoint
    rw [pairwise_cons] at ordered
    have short := own.base_lt_limit
    have short' := legal.1.base_lt_limit
    rw [rbPut]
    rcases disjoint.1 with below | above
    · rw [if_pos (by omega)]
      refine ⟨[], _, rfl, rfl, nofun, forall_mem_cons.mpr ⟨below, fun other later => ?_⟩⟩
      have := ordered.1 other later
      omega
    · obtain ⟨before, after, rfl, put, low, high⟩ := ih disjoint.2 legal.2 ordered.2
      rw [if_neg (by omega), if_neg (by omega), put]
      exact ⟨first :: before, after, rfl, rfl, forall_mem_cons.mpr ⟨above, low⟩, high⟩

theorem mem_rbPut (other : View) : other ∈ rbPut views view ↔ other = view ∨ other ∈ views := by
  obtain ⟨before, after, rfl, put, -⟩ := rbPut_eq placed own disjoint
  rw [put, mem_append, mem_cons, mem_append]
  exact or_left_comm

/-- Registering a view that is disjoint from the others keeps them in order. -/
theorem WellPlaced.put : WellPlaced target (rbPut views view) := by
  obtain ⟨before, after, rfl, put, low, high⟩ := rbPut_eq placed own disjoint
  rcases placed with ⟨legal, ordered⟩
  rw [forall_mem_append] at legal
  rw [pairwise_append] at ordered
  rw [put]
  constructor
  · exact forall_mem_append.mpr ⟨legal.1, forall_mem_cons.mpr ⟨own, legal.2⟩⟩
  · exact pairwise_append.mpr ⟨ordered.1, pairwise_cons.mpr ⟨high, ordered.2.1⟩,
      fun lower member => forall_mem_cons.mpr ⟨low lower member, ordered.2.2 lower member⟩⟩

end

theorem WellPlaced.erase (placed : WellPlaced target views) (view : View) :
    WellPlaced target (views.erase view) where
  legal := fun other member => placed.legal other (mem_of_mem_erase member)
  ordered := placed.ordered.sublist erase_sublist

/-- The views below and above one of them. -/
structure Neighbours
    (target : Target) (views : List View) (view : View)
    (lower upper : List View) : Prop where
  split : views = lower ++ view :: upper
  erased : views.erase view = lower ++ upper
  below : ∀ other ∈ lower, other.limit ≤ view.base
  above : ∀ other ∈ upper, view.limit ≤ other.base
  legal : ∀ other ∈ views, other.Legal target
  lower_ordered : lower.Pairwise fun first second => first.limit ≤ second.base
  upper_ordered : upper.Pairwise fun first second => first.limit ≤ second.base

theorem WellPlaced.neighbours (placed : WellPlaced target views) (member : view ∈ views) :
    ∃ lower upper, Neighbours target views view lower upper := by
  rcases append_of_mem member with ⟨lower, upper, rfl⟩
  have parts := pairwise_append.mp placed.ordered
  have rest := pairwise_cons.mp parts.2.1
  have below : ∀ other ∈ lower, other.limit ≤ view.base :=
    fun other low => parts.2.2 other low view (.head _)
  have short := (placed.legal view member).base_lt_limit
  have absent : view ∉ lower := by
    intro low
    have := below view low
    omega
  refine ⟨lower, upper, rfl, ?_, below, rest.1, placed.legal, parts.1, rest.2⟩
  rw [erase_append_right _ absent, erase_cons_head]

section Neighbours

variable {lower upper : List View}

theorem Neighbours.mem (near : Neighbours target views view lower upper) : view ∈ views :=
  near.split ▸ mem_append_right _ (.head _)

variable {other : View}

section

variable (near : Neighbours target views view lower upper)
include near

theorem Neighbours.mem_lower (member : other ∈ lower) : other ∈ views :=
  near.split ▸ mem_append_left _ member

theorem Neighbours.mem_upper (member : other ∈ upper) : other ∈ views :=
  near.split ▸ mem_append_right _ (.tail _ member)

theorem Neighbours.base_lt (member : other ∈ lower) : other.base < view.base := by
  have short := (near.legal other (near.mem_lower member)).base_lt_limit
  have below := near.below other member
  omega

theorem Neighbours.lt_base (member : other ∈ upper) : view.base < other.base := by
  have short := (near.legal view near.mem).base_lt_limit
  have above := near.above other member
  omega

theorem Neighbours.rbPrev_eq : rbPrev views view = lower.getLast? := by
  have all : lower.filter (fun other => other.base < view.base) = lower :=
    filter_eq_self.mpr fun other member => by simpa using near.base_lt member
  have none : upper.filter (fun other => other.base < view.base) = [] :=
    filter_eq_nil_iff.mpr fun other member => by simpa using (near.lt_base member).le
  rw [rbPrev, near.split, filter_append, all, filter_cons_of_neg (by simp), none, append_nil]

theorem Neighbours.following_eq : following views view = upper := by
  have none : lower.filter (fun other => view.base < other.base) = [] :=
    filter_eq_nil_iff.mpr fun other member => by simpa using (near.base_lt member).le
  have all : upper.filter (fun other => view.base < other.base) = upper :=
    filter_eq_self.mpr fun other member => by simpa using near.lt_base member
  rw [following, near.split, filter_append, none, filter_cons_of_neg (by simp), all, nil_append]

end

end Neighbours

end Views

/-! ## The table and the views -/

/-- The whole block, as far as the address space goes, lies in the range. -/
def HoldsBlock (target : Target) (range : Range) (block : Nat) : Prop :=
  range.base ≤ block * 0x10000 ∧ min ((block + 1) * 0x10000) (target.space - 1) ≤ range.stop

/-- A range of blocks; the last one ends with the address space. -/
structure Aligned (target : Target) (range : Range) : Prop where
  base : 0x10000 ∣ range.base
  stop : 0x10000 ∣ range.stop ∨ range.stop = target.space - 1
  inside : range.stop ≤ target.space - 1

/--
The table matches the views: its ranges are sorted, not empty, aligned, do
not touch each other, and hold exactly the blocks that no view touches.
-/
structure Matches (target : Target) (space : Space) : Prop where
  apart : Apart space.freeRanges
  aligned : ∀ range ∈ space.freeRanges, Aligned target range
  exactly : ∀ block < target.blocks, (∃ range ∈ space.freeRanges, HoldsBlock target range block) ↔
      ∀ view ∈ space.views, ¬ view.Touches block

section Table

variable {target : Target} {range : Range}

variable {block : Nat} {ranges : List Range}

theorem Aligned.holdsBlock_iff (aligned : Aligned target range) (inside : block < target.blocks) :
    HoldsBlock target range block ↔ range.Has (block * 0x10000) := by
  have size := target.space_eq
  rcases aligned.stop with stop | stop
  · simp only [HoldsBlock, Extent.Has]
    omega
  · simp only [HoldsBlock, Extent.Has]
    omega

theorem exists_holdsBlock_iff (aligned : ∀ range ∈ ranges, Aligned target range)
    (inside : block < target.blocks) :
    (∃ range ∈ ranges, HoldsBlock target range block) ↔ Covers ranges (block * 0x10000) := by
  apply exists_congr
  intro range
  exact and_congr_right fun member => (aligned range member).holdsBlock_iff inside

theorem Matches.covers_iff {space : Space} (matches' : Matches target space)
    (inside : block < target.blocks) :
    Covers space.freeRanges (block * 0x10000) ↔ ∀ view ∈ space.views, ¬ view.Touches block :=
  (exists_holdsBlock_iff matches'.aligned inside).symm.trans (matches'.exactly block inside)

/-- The end of an extent is not covered. -/
theorem not_covers_stop (apart : Apart ranges) (member : range ∈ ranges) :
    ¬ Covers ranges range.stop := by
  rcases append_of_mem member with ⟨before, after, rfl⟩
  have around := apart_middle.mp apart
  intro covered
  rcases (covers_append _ _ _).mp covered with low | rest
  · exact (around.lt_base low).not_gt around.nonempty
  · rcases (covers_cons _ _ _).mp rest with here | high
    · exact here.2.false
    · exact (around.stop_lt high).false

/-- A range ends at a block exactly if the block before it is free and it is not. -/
theorem exists_stop_iff (apart : Apart ranges) (aligned : ∀ range ∈ ranges, Aligned target range)
    (inside : block < target.blocks) : (∃ range ∈ ranges, range.stop = block * 0x10000) ↔
      0 < block ∧ Covers ranges ((block - 1) * 0x10000) ∧ ¬ Covers ranges (block * 0x10000) := by
  have size := target.space_eq
  constructor
  · rintro ⟨range, member, stop⟩
    have nonempty := apart.nonempty range member
    have base := (aligned range member).base
    refine ⟨by omega, ⟨range, member, by omega, by omega⟩, ?_⟩
    rw [← stop]
    exact not_covers_stop apart member
  · rintro ⟨positive, ⟨range, member, has⟩, free⟩
    refine ⟨range, member, ?_⟩
    have start := has.1
    have finish := has.2
    have short : range.stop ≤ block * 0x10000 := by
      by_contra long
      have low : range.base ≤ block * 0x10000 :=
        start.trans (Nat.mul_le_mul_right _ (Nat.sub_le _ _))
      have here : range.Has (block * 0x10000) := ⟨low, not_le.mp long⟩
      exact free ⟨range, member, here⟩
    rcases (aligned range member).stop with stop | stop
    · omega
    · omega

end Table

end WineRedRose.Views
