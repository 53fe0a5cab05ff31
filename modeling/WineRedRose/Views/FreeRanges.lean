import WineRedRose.Views.Model

/-!
# What the two table functions do at a place

The search splits the table at a range.  Seen from there, inserting a view
cuts a stretch out of that range or leaves the table alone, and removing a
view adds a stretch next to it.  The equations below are the only place where
the bodies of the two functions are opened.
-/

namespace WineRedRose.Views

open Library.Extents List
open Library.SortedArray

variable {target : Target} {before after : List Range} {range : Range}

/-! ## Inserting -/

/-- A stretch inside a range is cut out of it. -/
theorem takeFromRange_eq {lo hi : Nat} (room : target.fits ((before ++ range :: after).length + 1))
    (rest : range.stop ≤ hi → before ++ after ≠ []) :
    takeFromRange target (before ++ range :: after) before.length range lo hi =
      some (before ++ (range.cut lo hi ++ after)) := by
  rw [takeFromRange, Extent.cut]
  by_cases low : range.base < lo <;> by_cases high : hi < range.stop
  · rw [if_pos ⟨low, high⟩, if_pos room, if_pos low, if_pos high, set_place, insertIdx_place_succ]
    rfl
  · rw [if_neg fun both => high both.2, if_pos low, if_pos low, if_neg high, if_pos low, set_place]
    rfl
  · rw [if_neg fun both => low both.1, if_neg low, if_neg low, if_pos high, if_pos high, set_place]
    rfl
  · have empty := length_pos_iff.mpr (rest (not_lt.mp high))
    rw [if_neg fun both => low both.1, if_neg low, if_neg low, if_neg high,
      if_neg high, eraseIdx_place, if_pos empty]
    rfl

/-- Nothing is left of a view that starts where the range ends. -/
theorem clipToRange_touching (next : Range) {viewBase : Nat} (viewEnd : Nat)
    (nonempty : range.base < range.stop) (touching : range.stop = viewBase) :
    ∃ viewEnd' ≤ viewBase, clipToRange range (some next) viewBase viewEnd =
      some (viewBase, viewEnd') := by
  have start : ¬ range.base > viewBase := by omega
  simp only [clipToRange, if_neg start, if_pos touching, Option.map_some]
  refine ⟨_, ?_, rfl⟩
  split_ifs <;> omega

section Insert

variable {view : View}
variable (place : before.length =
  freeRangesLowerBound (before ++ range :: after) view.blockBase)

include place

/-- A range that ends where the blocks of the view start is all that is seen. -/
theorem freeRangesInsertView_touching (nonempty : range.base < range.stop)
    (touching : range.stop = view.blockBase) (more : after ≠ []) :
    freeRangesInsertView target (before ++ range :: after) view =
      some (before ++ range :: after) := by
  rcases exists_cons_of_ne_nil more with ⟨next, others, rfl⟩
  rcases clipToRange_touching next (view.blockEnd target) nonempty touching
    with ⟨viewEnd, short, clipped⟩
  rw [freeRangesInsertView, ← place, getElem?_place, getElem?_place_succ]
  simp only [head?_cons, Option.isSome_some, or_true, if_true, clipped, if_pos short]

/-- Otherwise the part of the range that the blocks of the view meet is cut. -/
theorem freeRangesInsertView_beyond (nonempty : range.base < range.stop)
    (beyond : view.blockBase < range.stop)
    (room : target.fits ((before ++ range :: after).length + 1))
    (rest : range.stop ≤ view.blockEnd target → before ++ after ≠ []) :
    freeRangesInsertView target (before ++ range :: after) view =
      if min (view.blockEnd target) range.stop ≤ max view.blockBase range.base then
        some (before ++ range :: after)
      else
        some (before ++ (range.cut (max view.blockBase range.base)
          (min (view.blockEnd target) range.stop) ++ after)) := by
  have lower : (if range.base > view.blockBase then range.base
      else view.blockBase) = max view.blockBase range.base := by
    rw [max_def]
    split <;> split <;> omega
  have upper : (if range.stop < view.blockEnd target then range.stop
      else view.blockEnd target) = min (view.blockEnd target) range.stop := by
    rw [min_def]
    split <;> split <;> omega
  have apart : range.stop ≠ max view.blockBase range.base := by omega
  rw [freeRangesInsertView, ← place, getElem?_place]
  simp only [beyond, true_or, if_true, clipToRange, lower, upper, gt_iff_lt, if_neg apart]
  split
  · rfl
  · rw [if_pos ⟨le_max_right _ _, min_le_right _ _⟩,
      takeFromRange_eq room fun all => rest (all.trans (min_le_left _ _))]

end Insert

/-! ## Removing -/

/-- Where the stretch lies relative to the range that was found. -/
inductive Given (lo hi : Nat) (before : List Range) :
    Range → List Range → List Range → Prop where
  | join (base stop : Nat) (after : List Range) :
      Given lo hi before ⟨base, lo⟩ (⟨hi, stop⟩ :: after) (before ++ ⟨base, stop⟩ :: after)
  | growUp (base : Nat) (next : Range) (after : List Range) (apart : next.base ≠ hi) :
      Given lo hi before ⟨base, lo⟩ (next :: after) (before ++ ⟨base, hi⟩ :: next :: after)
  | growDown (stop : Nat) (after : List Range) (apart : stop ≠ lo) :
      Given lo hi before ⟨hi, stop⟩ after (before ++ ⟨lo, stop⟩ :: after)
  | insert (range : Range) (after : List Range)
      (above : range.stop ≠ lo) (below : range.base ≠ hi) :
      Given lo hi before range after (before ++ ⟨lo, hi⟩ :: range :: after)

theorem giveToRange_given {lo hi : Nat} (room : target.fits ((before ++ range :: after).length + 1))
    (more : range.stop = lo → after ≠ []) :
    ∃ ranges, giveToRange target (before ++ range :: after) before.length range lo hi =
      some ranges ∧ Given lo hi before range after ranges := by
  rw [giveToRange]
  split
  next touching =>
    rcases exists_cons_of_ne_nil (more touching) with ⟨next, others, rfl⟩
    rcases range with ⟨base, stop⟩
    subst touching
    rw [getElem?_place_succ]
    simp only [head?_cons]
    split
    next joins =>
      rcases next with ⟨start, stop'⟩
      subst joins
      rw [set_place, eraseIdx_place_succ, if_pos (by simp)]
      exact ⟨_, rfl, .join base stop' others⟩
    next apart =>
      rw [set_place]
      exact ⟨_, rfl, .growUp base next others apart⟩
  next above =>
    split
    next touching =>
      rcases range with ⟨base, stop⟩
      subst touching
      rw [set_place]
      exact ⟨_, rfl, .growDown stop after above⟩
    next below =>
      rw [insertIdx_place]
      exact ⟨_, rfl, .insert range after above below⟩

/-- What the neighbours leave of the blocks of a view. -/
def View.ownBlocks (target : Target) (views : List View) (view : View) : Nat × Nat :=
  clipToNeighbours target (rbPrev views view) (rbNext views view)
    view.blockBase (view.blockEnd target)

section Remove

variable {views : List View} {view : View} {lo hi : Nat}
variable (own : view.ownBlocks target views = (lo, hi))

include own

theorem freeRangesRemoveView_none (empty : hi ≤ lo) (ranges : List Range) :
    freeRangesRemoveView target views ranges view = some ranges := by
  rw [View.ownBlocks] at own
  rw [freeRangesRemoveView, own, if_pos empty]

/-- A stretch that the range does not meet is added to the table. -/
theorem freeRangesRemoveView_given
    (place : before.length = freeRangesLowerBound (before ++ range :: after) view.blockBase)
    (within : lo < hi) (outside : range.stop ≤ lo ∨ hi ≤ range.base)
    (nonempty : range.base < range.stop)
    (room : target.fits ((before ++ range :: after).length + 1))
    (more : range.stop ≤ lo → after ≠ []) :
    ∃ ranges, freeRangesRemoveView target views (before ++ range :: after) view = some ranges ∧
      Given lo hi before range after ranges := by
  have seen : range.stop > lo ∨ after.head?.isSome := by
    rcases outside with low | high
    · exact .inr (by simpa [Option.isSome_iff_ne_none] using more low)
    · exact .inl (by omega)
  have apart : ¬ (range.base ≤ lo ∧ range.stop ≥ hi) := by omega
  rw [View.ownBlocks] at own
  rw [freeRangesRemoveView, own]
  simp only [← place, getElem?_place, getElem?_place_succ, if_pos seen,
    if_neg apart, if_neg (not_le.mpr within), ge_iff_le, if_pos outside]
  exact giveToRange_given room fun touching => more touching.le

end Remove

end WineRedRose.Views
