import WineRedRose.Views.Blocks

/-!
# Registering a view

From a table that matches the views, registering another one leads to a table
that matches again, or not, depending on how the view shares its first block
with the view below it.  Both directions are proved here.
-/

namespace WineRedRose.Views

open Library.Extents List View

/-- The table matches the views, and these leave the last block alone. -/
structure Inv (target : Target) (space : Space) : Prop
    extends Matches target space where
  placed : WellPlaced target space.views
  low : ∀ view ∈ space.views, view.limit + 0x10000 ≤ target.space

/--
The view starts in a block that another view is in too, nothing is in the
block before that one, and the view has a block of its own.
-/
def SharesFirstBlock (others : List View) (view : View) : Prop :=
  (∃ other ∈ others, other.Touches view.firstBlock) ∧ (0 < view.firstBlock ∧
      ∀ other ∈ others, ¬ other.Touches (view.firstBlock - 1)) ∧
    ∃ block, view.Touches block ∧ ∀ other ∈ others, ¬ other.Touches block

section

variable {target : Target} {space : Space} {view : View}

/-! ## The place in the table -/

/-- The last range ends with the address space. -/
theorem Inv.last (inv : Inv target space) :
    ∃ range ∈ space.freeRanges, range.stop = target.space - 1 := by
  have size := target.space_eq
  have many := target.two_le_blocks
  have free : ∀ view ∈ space.views, ¬ view.Touches (target.blocks - 1) := by
    intro view member touches
    have low := inv.low view member
    have high := touches.2
    omega
  rcases (inv.covers_iff (by omega)).mpr free with ⟨range, member, has⟩
  have aligned := inv.aligned range member
  have inside := aligned.inside
  have high := has.2
  refine ⟨range, member, ?_⟩
  rcases aligned.stop with stop | stop
  · omega
  · exact stop

/-- The place in the table where the search for an address ends. -/
structure Place
    (target : Target) (space : Space) (addr : Nat)
    (before : List Range) (range : Range) (after : List Range) : Prop where
  split : space.freeRanges = before ++ range :: after
  length : before.length = freeRangesLowerBound (before ++ range :: after) addr
  below : ∀ lower ∈ before, lower.stop < addr
  above : addr ≤ range.stop
  more : range.stop < target.space - 1 → after ≠ []

/-- The search finds a range, and there is another one behind a short one. -/
theorem Inv.place (inv : Inv target space) {addr : Nat} (inside : addr ≤ target.space - 1) :
    ∃ before range after, Place target space addr before range after := by
  rcases inv.apart.lowerBound_split addr with ⟨before, rest, split, length, below, above⟩
  rcases inv.last with ⟨final, member, stop⟩
  rw [split] at member
  have behind : final ∈ rest := by
    rcases mem_append.mp member with low | high
    · have := below final low
      omega
    · exact high
  cases rest with
  | nil => cases behind
  | cons range after =>
    refine ⟨before, range, after, split, split ▸ length, below, above range (.head _), ?_⟩
    intro short empty
    subst empty
    rcases mem_singleton.mp behind with rfl
    omega

section Place

variable {addr : Nat} {before after : List Range} {range : Range}

section

variable (place : Place target space addr before range after)
include place

theorem Place.mem : range ∈ space.freeRanges := place.split ▸ mem_append_right _ (.head _)

theorem Place.mem_after {other : Range} (member : other ∈ after) : other ∈ space.freeRanges :=
  place.split ▸ mem_append_right _ (.tail _ member)

theorem Place.mem_before {other : Range} (member : other ∈ before) : other ∈ space.freeRanges :=
  place.split ▸ mem_append_left _ member

theorem Place.around (inv : Inv target space) : Around before range.base range.stop after :=
  apart_middle.mp (place.split ▸ inv.apart)

/-- A range that ends at the address is the one that is found. -/
theorem Place.exists_stop_iff (inv : Inv target space) :
    (∃ range ∈ space.freeRanges, range.stop = addr) ↔ range.stop = addr := by
  have around := place.around inv
  constructor
  · rintro ⟨found, member, stop⟩
    rw [place.split] at member
    rcases mem_append.mp member with low | rest
    · have := place.below found low
      omega
    · rcases mem_cons.mp rest with rfl | high
      · exact stop
      · have start := around.above found high
        have nonempty := around.after_apart.nonempty found high
        have above := place.above
        omega
  · intro stop
    exact ⟨range, place.mem, stop⟩

end

end Place

/-! ## Registering -/

/-- What is assumed when a view is registered. -/
structure Fresh (target : Target) (space : Space) (view : View) : Prop where
  legal : view.Legal target
  disjoint : ∀ other ∈ space.views, view.Disjoint other
  room : target.fits (space.freeRanges.length + 1)

theorem Fresh.blockBase_le (fresh : Fresh target space view) :
    view.blockBase ≤ target.space - 1 := by
  have inside := fresh.legal.inside
  have nonempty := fresh.legal.base_lt_limit
  rw [view.blockBase_eq, firstBlock]
  omega

section

variable (inv : Inv target space) (fresh : Fresh target space view)
include inv fresh

/-- A block in the middle of a new view was free. -/
theorem Inv.covers_interior {block : Nat} (after : view.firstBlock < block)
    (before : block + 1 < view.endBlock) :
    Covers space.freeRanges (block * 0x10000) := by
  have size := target.space_eq
  have inside := fresh.legal.inside
  simp only [firstBlock, endBlock] at after before
  apply (inv.covers_iff (by omega)).mpr
  intro other member touches
  have start := touches.1
  have finish := touches.2
  rcases fresh.disjoint other member with low | high
  · omega
  · omega

/-- Nothing happens if a range ends where the blocks of the view start. -/
theorem Inv.insert_touching (touching : ∃ range ∈ space.freeRanges, range.stop = view.blockBase) :
    freeRangesInsertView target space.freeRanges view = some space.freeRanges := by
  rcases inv.place fresh.blockBase_le with ⟨before, range, after, place⟩
  have here := (place.exists_stop_iff inv).mp touching
  have nonempty := fresh.legal.base_lt_limit
  have inside := fresh.legal.inside
  rw [place.split]
  apply freeRangesInsertView_touching place.length (place.around inv).nonempty here
  apply place.more
  rw [here, view.blockBase_eq, firstBlock]
  omega

/-- Nothing happens if the view reaches the last block. -/
theorem Inv.insert_wraps (high : target.space < view.limit + 0x10000) :
    freeRangesInsertView target space.freeRanges view = some space.freeRanges := by
  by_cases touching : ∃ range ∈ space.freeRanges, range.stop = view.blockBase
  · exact inv.insert_touching fresh touching
  rcases inv.place fresh.blockBase_le with ⟨before, range, after, place⟩
  have beyond := mt (place.exists_stop_iff inv).mpr touching
  have zero := blockEnd_wraps fresh.legal.inside high
  have nonempty := (place.around inv).nonempty
  have above := place.above
  have room := fresh.room
  rw [place.split] at room ⊢
  rw [freeRangesInsertView_beyond place.length nonempty (by omega) room
    (by intro short; omega), zero, if_pos (by omega)]

/-- What the table covers after the blocks of a view were taken out. -/
structure Taken
    (target : Target) (old new : List Range) (view : View) : Prop where
  apart : Apart new
  aligned : ∀ range ∈ new, Aligned target range
  covers_iff : ∀ x, Covers new x ↔ Covers old x ∧ ¬ (view.blockBase ≤ x ∧ x < view.blockEnd target)

omit inv fresh in
theorem aligned_cut {range : Range} (aligned : Aligned target range) {lo hi : Nat}
    (low : 0x10000 ∣ lo) (high : hi < range.stop → 0x10000 ∣ hi) (upper : lo ≤ range.stop) :
    ∀ piece ∈ range.cut lo hi, Aligned target piece := by
  have inside := aligned.inside
  intro piece member
  rcases mem_append.mp member with first | second
  · split at first
    · rcases mem_singleton.mp first with rfl
      exact ⟨aligned.base, .inl low, by simp only; omega⟩
    · cases first
  · split at second
    next short =>
      rcases mem_singleton.mp second with rfl
      exact ⟨high short, aligned.stop, aligned.inside⟩
    · cases second

omit inv fresh in
/-- The covered blocks of a new view lie in the range that is found. -/
theorem Place.has {before after : List Range} {range : Range}
    (place : Place target space view.blockBase before range after) (inv : Inv target space)
    (fresh : Fresh target space view) (low : view.limit + 0x10000 ≤ target.space)
    (beyond : range.stop ≠ view.blockBase) {x : Nat} (covered : Covers space.freeRanges x)
    (start : view.blockBase ≤ x) (finish : x < view.blockEnd target) : range.Has x := by
  have around := place.around inv
  have above := place.above
  have first := view.blockBase_eq
  have last := blockEnd_eq low
  rw [place.split, covers_append, covers_cons] at covered
  rcases covered with lower | here | upper
  · rcases lower with ⟨extent, member, has⟩
    have short := place.below extent member
    have ends := has.2
    omega
  · exact here
  · -- the gap after the range would be a block in the middle of the view
    rcases upper with ⟨extent, member, has⟩
    have gap := around.above extent member
    have aligned := inv.aligned extent (place.mem_after member)
    have base := aligned.base
    have bound := aligned.inside
    have begins := has.1
    have ends := has.2
    have stop : 0x10000 ∣ range.stop := (inv.aligned range place.mem).stop.resolve_right (by omega)
    have inner := inv.covers_interior fresh
      (show view.firstBlock < range.stop / 0x10000 by omega) (by omega)
    rw [Nat.div_mul_cancel stop] at inner
    exact absurd inner (not_covers_stop inv.apart place.mem)

/-- In all other cases exactly the blocks of the view are taken out. -/
theorem Inv.insert_beyond (low : view.limit + 0x10000 ≤ target.space)
    (beyond : ¬ ∃ range ∈ space.freeRanges, range.stop = view.blockBase) :
    ∃ ranges, freeRangesInsertView target space.freeRanges view =
      some ranges ∧ Taken target space.freeRanges ranges view := by
  rcases inv.place fresh.blockBase_le with ⟨before, range, after, place⟩
  have apart := place.split ▸ inv.apart
  have nonempty := (place.around inv).nonempty
  have past := mt (place.exists_stop_iff inv).mpr beyond
  have above := place.above
  have inRange := fun x => @Place.has _ _ _ _ _ _ place inv fresh low past x
  have found := inv.aligned range place.mem
  have first := view.blockBase_eq
  have last := blockEnd_eq low
  have size := target.space_eq
  have short : view.blockEnd target < target.space - 1 := by
    rw [last, endBlock]
    omega
  have rest : range.stop ≤ view.blockEnd target → before ++ after ≠ [] :=
    fun all => append_ne_nil_of_right_ne_nil _ (place.more (by omega))
  have room := fresh.room
  rw [place.split] at room
  have result := freeRangesInsertView_beyond place.length nonempty (by omega) room rest
  rw [← place.split] at result
  rw [result]
  split
  next outside =>
    refine ⟨_, rfl, inv.apart, inv.aligned, ?_⟩
    intro x
    refine ⟨fun covered => ⟨covered, fun both => ?_⟩, And.left⟩
    have has := inRange x covered both.1 both.2
    exact (lt_min both.2 has.2).not_ge (outside.trans (max_le both.1 has.1))
  next within =>
    have lower : range.base ≤ max view.blockBase range.base := le_max_right _ _
    have upper : min (view.blockEnd target) range.stop ≤ range.stop := min_le_right _ _
    refine ⟨_, rfl, apart.cut lower (not_le.mp within) upper, ?_, ?_⟩
    · intro piece member
      rcases mem_append.mp member with old | rest
      · exact inv.aligned piece (place.mem_before old)
      · rcases mem_append.mp rest with cut | old
        · refine aligned_cut found ?_ ?_ ((not_le.mp within).le.trans upper) piece cut
          · rcases max_choice view.blockBase range.base with same | same
            · rw [same, first]
              exact Nat.dvd_mul_left _ _
            · rw [same]
              exact found.base
          · intro less
            rcases min_choice (view.blockEnd target) range.stop with same | same
            · rw [same, last]
              exact Nat.dvd_mul_left _ _
            · exact absurd same less.ne
        · exact inv.aligned piece (place.mem_after old)
    · intro x
      rw [apart.covers_cut lower (not_le.mp within) upper, ← place.split]
      refine and_congr_right fun covered => not_congr ?_
      constructor
      · intro both
        exact ⟨(le_max_left _ _).trans both.1, both.2.trans_le (min_le_left _ _)⟩
      · intro both
        have has := inRange x covered both.1 both.2
        exact ⟨max_le both.1 has.1, lt_min both.2 has.2⟩

end

/-- Where the table has a range that ends at the blocks of a view. -/
theorem Inv.exists_stop_iff (inv : Inv target space) (inside : view.firstBlock < target.blocks) :
    (∃ range ∈ space.freeRanges, range.stop = view.blockBase) ↔
      (∃ other ∈ space.views, other.Touches view.firstBlock) ∧ 0 < view.firstBlock ∧
      ∀ other ∈ space.views, ¬ other.Touches (view.firstBlock - 1) := by
  rw [view.blockBase_eq, Views.exists_stop_iff inv.apart inv.aligned inside,
    inv.covers_iff inside, inv.covers_iff (by omega)]
  simp only [not_forall, not_not, exists_prop]
  exact ⟨fun ⟨positive, free, taken⟩ => ⟨taken, positive, free⟩,
    fun ⟨taken, positive, free⟩ => ⟨positive, free, taken⟩⟩

theorem Fresh.firstBlock_lt (fresh : Fresh target space view) :
    view.firstBlock < target.blocks := by
  have size := target.space_eq
  have inside := fresh.legal.inside
  have nonempty := fresh.legal.base_lt_limit
  rw [firstBlock]
  omega

theorem Fresh.forall_put (fresh : Fresh target space view) (inv : Inv target space) (block : Nat) :
    (∀ other ∈ rbPut space.views view, ¬ other.Touches block) ↔
      ¬ view.Touches block ∧ ∀ other ∈ space.views, ¬ other.Touches block := by
  simp only [mem_rbPut inv.placed fresh.legal fresh.disjoint, forall_eq_or_imp]

section

variable (inv : Inv target space) (fresh : Fresh target space view)
include inv fresh

/-- A table that was not changed matches if the view has no block of its own. -/
theorem Inv.matches_put_iff :
    Matches target ⟨rbPut space.views view, space.freeRanges⟩ ↔ ∀ block < target.blocks,
        (∀ other ∈ space.views, ¬ other.Touches block) → ¬ view.Touches block := by
  constructor
  · intro matches' block inside free
    have covered := (inv.covers_iff inside).mpr free
    exact ((fresh.forall_put inv block).mp ((matches'.covers_iff inside).mp covered)).1
  · intro shared
    refine ⟨inv.apart, inv.aligned, ?_⟩
    intro block inside
    rw [inv.exactly block inside, fresh.forall_put inv]
    exact ⟨fun free => ⟨shared block inside free, free⟩, And.right⟩

/-- A table from which the blocks of the view were taken matches. -/
theorem Inv.matches_taken (low : view.limit + 0x10000 ≤ target.space) {ranges : List Range}
    (taken : Taken target space.freeRanges ranges view) :
    Matches target ⟨rbPut space.views view, ranges⟩ := by
  refine ⟨taken.apart, taken.aligned, ?_⟩
  intro block inside
  rw [exists_holdsBlock_iff taken.aligned inside, taken.covers_iff,
    inv.covers_iff inside, fresh.forall_put inv, view.touches_iff,
    view.blockBase_eq, blockEnd_eq low, and_comm]
  simp only [Nat.mul_le_mul_right_iff, Nat.mul_lt_mul_right, Nat.zero_lt_succ]

/--
Registering a view keeps the table in step with the views exactly if the view
stays below the last block and does not share its first block in the way above.
-/
theorem Inv.register : ∃ ranges, freeRangesInsertView target space.freeRanges view = some ranges ∧
      (Matches target ⟨rbPut space.views view, ranges⟩ ↔ view.limit + 0x10000 ≤ target.space ∧
          ¬ SharesFirstBlock space.views view) := by
  have size := target.space_eq
  by_cases low : view.limit + 0x10000 ≤ target.space
  · have stops := inv.exists_stop_iff fresh.firstBlock_lt
    by_cases touching : ∃ range ∈ space.freeRanges, range.stop = view.blockBase
    · refine ⟨_, inv.insert_touching fresh touching, ?_⟩
      rcases stops.mp touching with ⟨taken, free⟩
      rw [inv.matches_put_iff fresh]
      constructor
      · rintro shared
        refine ⟨low, fun ⟨_, _, block, touches, own⟩ => ?_⟩
        have high := touches.2
        exact shared block (by omega) own touches
      · intro ⟨_, shares⟩ block _ own touches
        exact shares ⟨taken, free, block, touches, own⟩
    · rcases inv.insert_beyond fresh low touching with ⟨ranges, result, taken⟩
      refine ⟨ranges, result, fun _ => ⟨low, fun shares => ?_⟩,
        fun _ => inv.matches_taken fresh low taken⟩
      exact touching (stops.mpr ⟨shares.1, shares.2.1⟩)
  · refine ⟨_, inv.insert_wraps fresh (not_le.mp low), ?_⟩
    rw [inv.matches_put_iff fresh]
    constructor
    · intro shared
      have inside := fresh.legal.inside
      have nonempty := fresh.legal.base_lt_limit
      refine absurd ?_ (shared (target.blocks - 1) (by omega) ?_)
      · constructor <;> omega
      · intro other member touches
        have below := inv.low other member
        have high := touches.2
        omega
    · exact fun both => absurd both.1 low

end

end

end WineRedRose.Views
