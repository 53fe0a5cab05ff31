import WineRedRose.Views.Registering

/-!
# Unregistering a view

The blocks that become free are those no other view touches; the two
neighbours of the view in the tree decide which these are.  They are put back
into the table at the place that was found for the first block of the view,
which is the wrong place if this block stays in use and the one before it is
free.
-/

namespace WineRedRose.Views

open Library.Extents List View

/--
The view is the lowest one, and another view starts in the block at address
zero.
-/
def HidesLowestBlock (others : List View) (view : View) : Prop :=
  (∀ other ∈ others, ¬ other.base < view.base) ∧ ∃ other ∈ others, other.base < 0x10000

section

variable {target : Target} {space : Space} {view : View}

/-! ## The neighbours -/

section Neighbours

variable {lower upper : List View}

/-- Of the lower views only the nearest one matters. -/
theorem Neighbours.exists_lower_iff {init : List View} {prev : View}
    (near : Neighbours target space.views view (init ++ [prev]) upper) :
    (∃ other ∈ init ++ [prev], other.Touches view.firstBlock) ↔
      view.firstBlock < prev.endBlock := by
  have member : prev ∈ init ++ [prev] := by simp
  have below := near.below prev member
  have short := (near.legal prev (near.mem_lower member)).base_lt_limit
  simp only [firstBlock, endBlock]
  constructor
  · rintro ⟨other, either, touches⟩
    have high := touches.2
    rcases mem_append.mp either with far | here
    · have order := (pairwise_append.mp near.lower_ordered).2.2 other far prev (.head _)
      omega
    · rcases mem_singleton.mp here with rfl
      omega
  · intro reaches
    exact ⟨prev, member, by omega, by omega⟩

/-- Of the upper views only the nearest one matters. -/
theorem Neighbours.exists_upper_iff {next : View} {rest : List View}
    (near : Neighbours target space.views view lower (next :: rest)) :
    (∃ other ∈ next :: rest, other.Touches (view.endBlock - 1)) ↔
      next.firstBlock < view.endBlock := by
  have above := near.above next (.head _)
  have short := (near.legal next (near.mem_upper (.head _))).base_lt_limit
  have own := (near.legal view near.mem).base_lt_limit
  simp only [firstBlock, endBlock]
  constructor
  · rintro ⟨other, either, touches⟩
    have high := touches.1
    rcases mem_cons.mp either with rfl | far
    · omega
    · have order := (pairwise_cons.mp near.upper_ordered).1 other far
      omega
  · intro reaches
    exact ⟨next, .head _, by omega, by omega⟩

/-! ## The blocks that become free -/

/-- The first block counts unless a lower view is in it too. -/
theorem Neighbours.own_low (near : Neighbours target space.views view lower upper)
    (inv : Inv target space) : ∃ lo, (view.ownBlocks target space.views).1 = lo * 0x10000 ∧
      view.firstBlock ≤ lo ∧ lo ≤ view.firstBlock + 1 ∧
      (view.firstBlock < lo ↔ ∃ other ∈ lower, other.Touches view.firstBlock) := by
  have start := view.blockBase_eq
  rw [ownBlocks, near.rbPrev_eq]
  rcases lower.eq_nil_or_concat with rfl | ⟨init, prev, rfl⟩
  · refine ⟨view.firstBlock, start, le_rfl, Nat.le_succ _, ?_⟩
    simp
  · rw [concat_eq_append] at near ⊢
    have member : prev ∈ init ++ [prev] := by simp
    have below := near.below prev member
    have short := (near.legal prev (near.mem_lower member)).base_lt_limit
    have own := (near.legal view near.mem).first_lt_end
    have last := blockEnd_eq (inv.low prev (near.mem_lower member))
    have last' := blockEnd_eq (inv.low view near.mem)
    have first := prev.blockBase_eq
    rw [near.exists_lower_iff, getLast?_concat]
    simp only [clipToNeighbours]
    have limit : prev.endBlock ≤ view.firstBlock + 1 := by
      simp only [firstBlock, endBlock]
      omega
    have order : prev.firstBlock ≤ view.firstBlock := by
      simp only [firstBlock]
      omega
    split
    next clipped => exact ⟨prev.endBlock, last, by omega, by omega, by omega⟩
    next whole => exact ⟨view.firstBlock, start, le_rfl, Nat.le_succ _, by omega⟩

/-- The last block counts unless an upper view is seen to be in it too. -/
theorem Neighbours.own_high (near : Neighbours target space.views view lower upper)
    (inv : Inv target space) {lo : Nat}
    (clipped : (view.ownBlocks target space.views).1 = lo * 0x10000) :
    ∃ hi, (view.ownBlocks target space.views).2 = hi * 0x10000 ∧
      hi ≤ view.endBlock ∧ view.endBlock ≤ hi + 1 ∧
      (hi < view.endBlock → 1 < view.endBlock ∧
        ∃ other ∈ upper, other.Touches (view.endBlock - 1)) ∧
      ((∃ other ∈ upper, other.Touches (view.endBlock - 1)) →
        1 < view.endBlock → lo < view.endBlock → hi < view.endBlock) := by
  have last := blockEnd_eq (inv.low view near.mem)
  simp only [ownBlocks, clipToNeighbours] at clipped ⊢
  rw [clipped, rbNext, near.following_eq]
  cases upper with
  | nil =>
    refine ⟨view.endBlock, last, le_rfl, Nat.le_succ _, by omega, ?_⟩
    simp
  | cons next rest =>
    have above := near.above next (.head _)
    have short := (near.legal next (near.mem_upper (.head _))).base_lt_limit
    have last' := blockEnd_eq (inv.low next (near.mem_upper (.head _)))
    have first := next.blockBase_eq
    rw [near.exists_upper_iff, head?_cons]
    dsimp only
    have limit : view.endBlock ≤ next.firstBlock + 1 := by
      simp only [firstBlock, endBlock]
      omega
    have order : next.firstBlock < next.endBlock := by
      simp only [firstBlock, endBlock]
      omega
    split
    next shared => exact ⟨next.firstBlock, first, by omega, by omega, by omega, by omega⟩
    next whole =>
      refine ⟨view.endBlock, last, le_rfl, Nat.le_succ _, by omega, ?_⟩
      intro reaches many some
      exact absurd ⟨by omega, by omega, by omega⟩ whole

end Neighbours

/-- The blocks from `lo` up to `hi` are those that only this view touches. -/
structure Own (view : View) (others : List View) (lo hi : Nat) : Prop where
  first_le : view.firstBlock ≤ lo
  le_end : hi ≤ view.endBlock
  exactly : ∀ block, lo ≤ block ∧ block < hi ↔
    view.Touches block ∧ ∀ other ∈ others, ¬ other.Touches block

/-- The two neighbours decide rightly, except in the block at address zero. -/
theorem Inv.own (inv : Inv target space) (member : view ∈ space.views)
    (seen : ¬ HidesLowestBlock (space.views.erase view) view) :
    ∃ lo hi, view.ownBlocks target space.views = (lo * 0x10000, hi * 0x10000) ∧
      Own view (space.views.erase view) lo hi := by
  rcases inv.placed.neighbours member with ⟨lower, upper, near⟩
  rcases near.own_low inv with ⟨lo, fst, first, step, lowShared⟩
  rcases near.own_high inv fst with ⟨hi, snd, last, step', shared, clipped⟩
  refine ⟨lo, hi, Prod.ext fst snd, first, last, ?_⟩
  intro block
  rw [near.erased] at seen ⊢
  rw [view.touches_iff]
  constructor
  · rintro ⟨start, finish⟩
    refine ⟨⟨by omega, by omega⟩, fun other either touches => ?_⟩
    have begins := touches.1
    have ends := touches.2
    rcases mem_append.mp either with low | high
    · have below := near.below other low
      have here : block = view.firstBlock := by
        simp only [firstBlock] at first ⊢
        omega
      have less := lowShared.mpr ⟨other, low, here ▸ touches⟩
      omega
    · have above := near.above other high
      have here : block = view.endBlock - 1 := by
        simp only [endBlock] at last ⊢
        omega
      by_cases many : 1 < view.endBlock
      · have less := clipped ⟨other, high, here ▸ touches⟩ many (by omega)
        omega
      · -- the view lies in the block at address zero
        apply seen
        refine ⟨?_, other, mem_append_right _ high, by omega⟩
        intro another either less
        rcases mem_append.mp either with low | far
        · have short := (near.legal another (near.mem_lower low)).base_lt_limit
          have zero : view.firstBlock = 0 := by omega
          have less := lowShared.mpr ⟨another, low, by
            simp only [View.Touches, zero]
            simp only [firstBlock] at zero
            omega⟩
          omega
        · exact (near.lt_base far).not_gt less
  · rintro ⟨⟨start, finish⟩, alone⟩
    constructor
    · by_contra less
      have here : block = view.firstBlock := by omega
      rcases lowShared.mp (by omega) with ⟨other, low, touches⟩
      exact alone other (mem_append_left _ low) (here ▸ touches)
    · by_contra more
      have here : block = view.endBlock - 1 := by omega
      rcases shared (by omega) with ⟨_, other, high, touches⟩
      exact alone other (mem_append_right _ high) (here ▸ touches)

/-! ## Putting them back -/

/-- What the table covers after a stretch was put back. -/
structure Filled
    (target : Target) (old new : List Range) (lo hi : Nat) : Prop where
  apart : Apart new
  aligned : ∀ range ∈ new, Aligned target range
  covers_iff : ∀ x, Covers new x ↔ Covers old x ∨ lo ≤ x ∧ x < hi

section Given

variable {addr lo hi : Nat} {before after ranges : List Range} {range : Range}

/-- A stretch next to the range that was found, or right before it, is added. -/
theorem Given.filled (given : Given lo hi before range after ranges)
    (place : Place target space addr before range after) (inv : Inv target space)
    (start : addr ≤ lo) (within : lo < hi) (lower : 0x10000 ∣ lo) (upper : 0x10000 ∣ hi)
    (inside : hi ≤ target.space - 1)
    (free : ∀ other ∈ space.freeRanges, other.stop ≤ lo ∨ hi ≤ other.base)
    (side : range.stop = lo ∨ hi ≤ range.base) :
    Filled target space.freeRanges ranges lo hi := by
  have around := place.around inv
  have found := inv.aligned range place.mem
  have below : ∀ other ∈ before, other.stop < lo := fun other member =>
    (place.below other member).trans_le start
  have low : ∀ other ∈ before, Aligned target other := fun other member =>
    inv.aligned other (place.mem_before member)
  have high : ∀ other ∈ after, Aligned target other := fun other member =>
    inv.aligned other (place.mem_after member)
  have fill : ∀ {base stop : Nat} {rest : List Range}, Around before base stop rest →
      Aligned target ⟨base, stop⟩ → (∀ other ∈ rest, Aligned target other) →
      (∀ x, Covers (before ++ ⟨base, stop⟩ :: rest) x ↔
        Covers (before ++ range :: after) x ∨ lo ≤ x ∧ x < hi) →
      Filled target space.freeRanges (before ++ ⟨base, stop⟩ :: rest) lo hi := by
    intro base stop rest around here rest covers
    rw [← place.split] at covers
    exact ⟨apart_middle.mpr around,
      forall_mem_append.mpr ⟨low, forall_mem_cons.mpr ⟨here, rest⟩⟩, covers⟩
  cases given with
  | join base stop after =>
    have next := high ⟨hi, stop⟩ (.head _)
    exact fill (apart_middle.mp (place.split ▸ inv.apart).join) ⟨found.base, next.stop, next.inside⟩
      (forall_mem_cons.mp high).2
      (covers_join around.nonempty within (around.after_apart.nonempty _ (.head _)))
  | growUp base next after apart =>
    have nonempty := around.after_apart.nonempty next (.head _)
    have gap : hi < next.base := by
      have less : lo < next.base := around.above next (.head _)
      have far := free next (place.mem_after (.head _))
      omega
    have order := (pairwise_cons.mp around.after_apart.ordered).1
    refine fill ⟨around.before_apart, around.after_apart, around.nonempty.trans within,
      around.below, forall_mem_cons.mpr ⟨gap, fun other later => ?_⟩⟩
      ⟨found.base, .inl upper, inside⟩ high (covers_growUp around.nonempty within)
    exact gap.trans (nonempty.trans (order other later))
  | growDown stop after apart =>
    have nonempty : hi < stop := around.nonempty
    exact fill ⟨around.before_apart, around.after_apart, within.trans nonempty, below,
      around.above⟩ ⟨lower, found.stop, found.inside⟩ high (covers_growDown nonempty within)
  | insert range after above apart =>
    have gap : hi < range.base := by
      rcases side with touching | beyond
      · exact absurd touching above
      · omega
    refine fill ⟨around.before_apart, ?_, within, below,
      forall_mem_cons.mpr ⟨gap, fun other later =>
      gap.trans (around.nonempty.trans (around.above other later))⟩⟩ ⟨lower, .inl upper, inside⟩
      (forall_mem_cons.mpr ⟨found, high⟩) covers_insert
    exact (@apart_middle _ _ [] after range).mpr
      ⟨⟨by simp, .nil⟩, around.after_apart, around.nonempty, by simp, around.above⟩

/-- A stretch that lies behind the range is put before it all the same. -/
theorem Given.not_apart (given : Given lo hi before range after ranges)
    (nonempty : range.base < range.stop) (behind : range.stop < lo) (within : lo < hi) :
    ¬ Apart ranges := by
  cases given with
  | join base stop after => exact absurd behind (lt_irrefl lo)
  | growUp base next after apart => exact absurd behind (lt_irrefl lo)
  | growDown stop after apart => exact absurd (nonempty.trans (behind.trans within)) (lt_irrefl hi)
  | insert range after above apart =>
    intro sorted
    have gap := (apart_middle.mp sorted).above range (.head _)
    exact absurd (gap.trans (nonempty.trans (behind.trans within))) (lt_irrefl hi)

end Given

variable {lo hi : Nat}

section

variable (inv : Inv target space) (member : view ∈ space.views)
include inv member

/-- No range meets the blocks of a registered view. -/
theorem Inv.outside (first : view.firstBlock ≤ lo) (last : hi ≤ view.endBlock) (within : lo < hi)
    (other : Range) (entry : other ∈ space.freeRanges) :
    other.stop ≤ lo * 0x10000 ∨ hi * 0x10000 ≤ other.base := by
  by_contra meets
  have size := target.space_eq
  have low := inv.low view member
  have base := (inv.aligned other entry).base
  have nonempty := inv.apart.nonempty other entry
  -- the first common block is covered and touched
  have common : ∃ block, lo ≤ block ∧ block < hi ∧
      other.base ≤ block * 0x10000 ∧ block * 0x10000 < other.stop := by
    rcases le_total (lo * 0x10000) other.base with start | start
    · exact ⟨other.base / 0x10000, by omega, by omega, by omega, by omega⟩
    · exact ⟨lo, le_rfl, by omega, start, by omega⟩
  rcases common with ⟨block, start, finish, has⟩
  have touches := (view.touches_iff block).mpr ⟨by omega, by omega⟩
  have inside : block < target.blocks := by
    have high := touches.2
    omega
  exact (inv.covers_iff inside).mp ⟨other, entry, has⟩ view member touches

/--
Blocks of the view are put back into the table, unless the first block of the
view stays in use behind a free one.
-/
theorem Inv.remove_own (room : target.fits (space.freeRanges.length + 1))
    (own : view.ownBlocks target space.views = (lo * 0x10000, hi * 0x10000))
    (first : view.firstBlock ≤ lo) (last : hi ≤ view.endBlock) (within : lo < hi) :
    ∃ ranges, freeRangesRemoveView target space.views space.freeRanges view = some ranges ∧
      if view.firstBlock < lo ∧ ∃ range ∈ space.freeRanges, range.stop = view.blockBase then
        ¬ Apart ranges
      else Filled target space.freeRanges ranges (lo * 0x10000) (hi * 0x10000) := by
  have low := inv.low view member
  have start := view.blockBase_eq
  have inside : view.blockBase ≤ target.space - 1 := by
    rw [start, firstBlock]
    have short := (inv.placed.legal view member).base_lt_limit
    omega
  have limit : hi * 0x10000 ≤ target.space - 1 := by
    simp only [endBlock] at last
    omega
  rcases inv.place inside with ⟨before, range, after, place⟩
  have outside := inv.outside member first last within
  have around := place.around inv
  have nonempty := around.nonempty
  have above := place.above
  rw [place.split] at room
  rcases freeRangesRemoveView_given own place.length (by omega)
    (outside range place.mem) nonempty room
    (fun short => place.more (by omega)) with ⟨ranges, result, given⟩
  rw [← place.split] at result
  refine ⟨ranges, result, ?_⟩
  have stops := place.exists_stop_iff inv
  split
  next behind =>
    have touching := stops.mp behind.2
    exact given.not_apart nonempty (by omega) (by omega)
  next here =>
    rw [stops] at here
    apply given.filled place inv (by omega) (by omega) ⟨lo, Nat.mul_comm _ _⟩
      ⟨hi, Nat.mul_comm _ _⟩ limit outside
    -- a range that ends inside the view would meet its blocks
    have whole := inv.outside member le_rfl last (by omega) range place.mem
    rcases whole with short | far
    · left
      omega
    · right
      exact far

/-! ## The table after the call -/

theorem Inv.forall_erase (block : Nat) : (∀ other ∈ space.views, ¬ other.Touches block) ↔
      ¬ view.Touches block ∧ ∀ other ∈ space.views.erase view, ¬ other.Touches block := by
  rcases inv.placed.neighbours member with ⟨lower, upper, near⟩
  rw [near.erased, near.split]
  simp only [forall_mem_append, forall_mem_cons]
  exact and_left_comm

/-- A table into which the blocks of the view were put back matches. -/
theorem Inv.matches_filled (own : Own view (space.views.erase view) lo hi) {ranges : List Range}
    (filled : Filled target space.freeRanges ranges (lo * 0x10000) (hi * 0x10000)) :
    Matches target ⟨space.views.erase view, ranges⟩ := by
  refine ⟨filled.apart, filled.aligned, ?_⟩
  intro block inside
  have mine := own.exactly block
  rw [exists_holdsBlock_iff filled.aligned inside, filled.covers_iff,
    inv.covers_iff inside, inv.forall_erase member, Nat.mul_le_mul_right_iff
    (by omega), Nat.mul_lt_mul_right (by omega), mine, ← or_and_right]
  exact and_iff_right (em' _)

/-- A table that was not changed matches if the view has no block of its own. -/
theorem Inv.matches_erase (own : Own view (space.views.erase view) lo hi) (empty : hi ≤ lo) :
    Matches target ⟨space.views.erase view, space.freeRanges⟩ := by
  refine ⟨inv.apart, inv.aligned, ?_⟩
  intro block inside
  rw [inv.exactly block inside, inv.forall_erase member]
  refine ⟨And.right, fun free => ⟨fun touches => ?_, free⟩⟩
  have mine := (own.exactly block).mpr ⟨touches, free⟩
  omega

omit inv member in
/-- With a block of its own a view shares its first block if that is not one. -/
theorem Own.first_lt_iff {others : List View} (own : Own view others lo hi)
    (legal : view.Legal target) (within : lo < hi) :
    view.firstBlock < lo ↔ ∃ other ∈ others, other.Touches view.firstBlock := by
  have mine := own.exactly view.firstBlock
  have touches := (view.touches_iff _).mpr ⟨le_rfl, legal.first_lt_end⟩
  have first := own.first_le
  constructor
  · intro less
    by_contra alone
    push Not at alone
    have here := mine.mpr ⟨touches, alone⟩
    omega
  · rintro ⟨other, member, shared⟩
    by_contra least
    exact (mine.mp ⟨by omega, by omega⟩).2 other member shared

theorem Inv.firstBlock_lt : view.firstBlock < target.blocks := by
  have size := target.space_eq
  have low := inv.low view member
  have short := (inv.placed.legal view member).base_lt_limit
  rw [firstBlock]
  omega

/-- When a range ends where the blocks of a registered view start. -/
theorem Inv.exists_stop_iff_erase : (∃ range ∈ space.freeRanges, range.stop = view.blockBase) ↔
      0 < view.firstBlock ∧ ∀ other ∈
      space.views.erase view, ¬ other.Touches (view.firstBlock - 1) := by
  have touches := (view.touches_iff view.firstBlock).mpr
    ⟨le_rfl, (inv.placed.legal view member).first_lt_end⟩
  rw [inv.exists_stop_iff (inv.firstBlock_lt member),
    and_iff_right ⟨view, member, touches⟩, inv.forall_erase member,
    view.touches_iff]
  refine and_congr_right fun positive => and_iff_right ?_
  omega

/-- In the block at address zero the next view is not seen. -/
theorem Inv.own_hidden (hides : HidesLowestBlock (space.views.erase view) view) :
    view.ownBlocks target space.views = (0 * 0x10000, 1 * 0x10000) ∧ view.firstBlock = 0 ∧
      view.endBlock = 1 ∧ ∃ other ∈ space.views.erase view, other.Touches 0 := by
  rcases inv.placed.neighbours member with ⟨lower, upper, near⟩
  rcases hides with ⟨lowest, other, either, zero⟩
  rw [near.erased] at lowest either ⊢
  have least : lower = [] := by
    apply eq_nil_iff_forall_not_mem.mpr
    intro another low
    exact lowest another (mem_append_left _ low) (near.base_lt low)
  subst least
  have above := near.above other either
  have short := (near.legal view near.mem).base_lt_limit
  have long := (near.legal other (near.mem_upper either)).base_lt_limit
  have touches : other.Touches 0 := by
    simp only [View.Touches]
    omega
  have first : view.firstBlock = 0 := by
    rw [firstBlock]
    omega
  have last : view.endBlock = 1 := by
    rw [endBlock]
    omega
  rcases near.own_low inv with ⟨lo, fst, start, _, shared⟩
  rcases near.own_high inv fst with ⟨hi, snd, finish, more, clipped, _⟩
  have low : lo = 0 := by
    have alone : ¬ view.firstBlock < lo := by simp [shared]
    omega
  have high : hi = 1 := by
    by_contra other
    omega
  exact ⟨Prod.ext (low ▸ fst) (high ▸ snd), first, last, other, either, touches⟩

/--
Unregistering a view keeps the table in step with the views exactly if the
view does not share its first block in the way above, and is not the lowest
one with another view in the block at address zero.
-/
theorem Inv.unregister (room : target.fits (space.freeRanges.length + 1)) :
    ∃ ranges, freeRangesRemoveView target space.views space.freeRanges view = some ranges ∧
      (Matches target ⟨space.views.erase view, ranges⟩ ↔
        ¬ SharesFirstBlock (space.views.erase view) view ∧
          ¬ HidesLowestBlock (space.views.erase view) view) := by
  have legal := inv.placed.legal view member
  by_cases hides : HidesLowestBlock (space.views.erase view) view
  · rcases inv.own_hidden member hides with ⟨clipped, first, last, other, remains, touches⟩
    rcases inv.remove_own member room clipped first.le last.ge (by omega)
      with ⟨ranges, result, filled⟩
    refine ⟨ranges, result, fun matches' => ?_, fun both => absurd hides both.2⟩
    have many := target.two_le_blocks
    have covered : Covers ranges (0 * 0x10000) :=
      (filled.covers_iff _).mpr (.inr ⟨le_rfl, by omega⟩)
    exact absurd touches ((matches'.covers_iff (by omega)).mp covered other remains)
  · rcases inv.own member hides with ⟨lo, hi, clipped, own⟩
    rw [and_iff_left hides]
    rcases le_or_gt hi lo with empty | within
    · refine ⟨_, freeRangesRemoveView_none clipped (by omega) _,
        fun _ shares => ?_, fun _ => inv.matches_erase member own empty⟩
      rcases shares.2.2 with ⟨block, mine⟩
      have inside := (own.exactly block).mpr mine
      omega
    · have shares : SharesFirstBlock (space.views.erase view) view ↔
          view.firstBlock < lo ∧ ∃ range ∈ space.freeRanges, range.stop = view.blockBase := by
        have mine := (own.exactly lo).mp ⟨le_rfl, within⟩
        rw [own.first_lt_iff legal within, inv.exists_stop_iff_erase member]
        exact and_congr_right fun _ => and_iff_left ⟨lo, mine⟩
      rcases inv.remove_own member room clipped own.first_le own.le_end within
        with ⟨ranges, result, outcome⟩
      refine ⟨ranges, result, ?_⟩
      rw [shares]
      split at outcome
      next behind =>
        exact ⟨fun matches' => absurd matches'.apart outcome, fun other => absurd behind other⟩
      next other => exact ⟨fun _ => other, fun _ => inv.matches_filled member own outcome⟩

end

end

end WineRedRose.Views
