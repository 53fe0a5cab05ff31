import Mathlib.Tactic

/-!
# The wineserver region objects

A region is a y-x-banded list of rectangles with a cached bounding box.  This
module embeds `server/region.c`: the validation of a rectangle list, the band
callbacks of the three set operations, the two-list band sweep `region_op`
with its coalescing of equal neighbouring bands, and the four public
operations.

Coordinates are only ever compared, so they are plain integers.  Regions live
in a heap and the operations take region addresses: a destination may be one
of the sources, and `union_region` compares the two source pointers.  The
array of a region is the list of its first `num_rects` rectangles together
with its allocated size; allocations succeed.
-/

namespace WineRedRose.Regions

/-- `rectangle_t`. -/
structure Rect where
  left : Int
  top : Int
  right : Int
  bottom : Int
deriving DecidableEq, Repr

/-- `is_rect_empty`. -/
def isRectEmpty (rect : Rect) : Bool := rect.left ≥ rect.right || rect.top ≥ rect.bottom

/-- `empty_rect`, the all-zero rectangle of empty regions. -/
def emptyRect : Rect := ⟨0, 0, 0, 0⟩

/-- `struct region`; `rects` holds the `num_rects` rectangles in use. -/
structure Region where
  size : Nat
  rects : List Rect
  extents : Rect
deriving DecidableEq, Repr

/-- `RGN_DEFAULT_RECTS`. -/
def rgnDefaultRects : Nat := 2

/-- `EXTENTCHECK`. -/
def extentCheck (r1 r2 : Rect) : Bool := r1.right > r2.left && r1.left < r2.right &&
    r1.bottom > r2.top && r1.top < r2.bottom

/-- `add_rect`, storing the rectangle at the place it returns. -/
def addRect (reg : Region) (rect : Rect) : Region :=
  { reg with
    rects := reg.rects ++ [rect]
    size := if reg.rects.length ≥ reg.size then 2 * reg.size else reg.size }

/-- `validate_rectangles`. -/
def validateRectangles : List Rect → Bool
  | [] => true
  | [rect] => !isRectEmpty rect
  | rect :: next :: rects =>
    if isRectEmpty rect then false
    else if rect.top = next.top then
      if rect.bottom ≠ next.bottom then false
      else if rect.right ≥ next.left then false
      else validateRectangles (next :: rects)
    else if rect.bottom > next.top then false
    else validateRectangles (next :: rects)

/-! ## Coalescing -/

/-- The rectangles of the first band: those with the top of the first one. -/
def bandOf : List Rect → List Rect
  | [] => []
  | rect :: rects => rect :: rects.takeWhile fun other => other.top = rect.top

/-- What follows the first band. -/
def afterBand : List Rect → List Rect
  | [] => []
  | rect :: rects => rects.dropWhile fun other => other.top = rect.top

/-- The index at which the last band starts. -/
def lastBandStart (rects : List Rect) : Nat := rects.length - (bandOf rects.reverse).length

/-- Both bands have the same horizontal sides, pairwise. -/
def sameSides (prev cur : List Rect) : Bool := (prev.zip cur).all fun pair =>
    pair.1.left = pair.2.left && pair.1.right = pair.2.right

/-- Extend the rectangles of a band down to the bottom of the next one. -/
def extendBand (prev cur : List Rect) : List Rect :=
  List.zipWith (fun above below => { above with bottom := below.bottom }) prev cur

/--
`coalesce_region`: merge the band at `curStart` into the one at `prevStart`
when they touch and have the same sides.  Returns the region and the start
of the band that the next call takes as its previous one.
-/
def coalesceRegion (pReg : Region) (prevStart curStart : Nat) : Region × Nat :=
  let prev := (pReg.rects.drop prevStart).take (curStart - prevStart)
  let current := pReg.rects.drop curStart
  let band := bandOf current
  let rest := afterBand current
  -- Only the tail of the sweep adds several bands before it coalesces.
  let curStart' := if rest.isEmpty then curStart else lastBandStart pReg.rects
  match prev, band with
  | above :: _, below :: _ =>
    if prev.length = band.length && above.bottom = below.top && sameSides prev band then
      ({ pReg with
          rects := pReg.rects.take prevStart ++ extendBand prev band ++ rest },
        if rest.isEmpty then prevStart else curStart')
    else (pReg, curStart')
  | _, _ => (pReg, curStart')

/-! ## Band callbacks -/

/-- `overlap_func_t`. -/
abbrev OverlapFunc := Region → List Rect → List Rect → Int → Int → Region

/-- `non_overlap_func_t`; a null callback is `none`. -/
abbrev NonOverlapFunc := Region → List Rect → Int → Int → Region

/-- `intersect_overlapping`. -/
def intersectOverlapping (pReg : Region) : List Rect → List Rect → Int → Int → Region
  | r1 :: r1s, r2 :: r2s, top, bottom =>
    let left := max r1.left r2.left
    let right := min r1.right r2.right
    let pReg :=
      if left < right then addRect pReg ⟨left, top, right, bottom⟩
      else pReg
    if r1.right < r2.right then intersectOverlapping pReg r1s (r2 :: r2s) top bottom
    else if r2.right < r1.right then intersectOverlapping pReg (r1 :: r1s) r2s top bottom
    else intersectOverlapping pReg r1s r2s top bottom
  | _, _, _, _ => pReg
termination_by r1 r2 => r1.length + r2.length

/-- The copying loop shared by the two non-overlapping callbacks. -/
def copyBand (pReg : Region) : List Rect → Int → Int → Region
  | [], _, _ => pReg
  | r :: rs, top, bottom => copyBand (addRect pReg ⟨r.left, top, r.right, bottom⟩) rs top bottom

/-- `subtract_non_overlapping`. -/
def subtractNonOverlapping : NonOverlapFunc := copyBand

/-- `union_non_overlapping`. -/
def unionNonOverlapping : NonOverlapFunc := copyBand

/-- `left` after `r1++`: the next rectangle's left side, if there is one. -/
def nextLeft (left : Int) : List Rect → Int
  | [] => left
  | r :: _ => r.left

/-- The two loops of `subtract_overlapping`. -/
def subtractLoop (pReg : Region) (left : Int) : List Rect → List Rect → Int → Int → Region
  | [], _, _, _ => pReg
  | r1 :: r1s, [], top, bottom =>
    subtractLoop (addRect pReg ⟨left, top, r1.right, bottom⟩) (nextLeft left r1s) r1s [] top bottom
  | r1 :: r1s, r2 :: r2s, top, bottom =>
    if r2.right ≤ left then subtractLoop pReg left (r1 :: r1s) r2s top bottom
    else if r2.left ≤ left then
      if r2.right ≥ r1.right then
        subtractLoop pReg (nextLeft r2.right r1s) r1s (r2 :: r2s) top bottom
      else subtractLoop pReg r2.right (r1 :: r1s) r2s top bottom
    else if r2.left < r1.right then
      let pReg := addRect pReg ⟨left, top, r2.left, bottom⟩
      if r2.right ≥ r1.right then
        subtractLoop pReg (nextLeft r2.right r1s) r1s (r2 :: r2s) top bottom
      else subtractLoop pReg r2.right (r1 :: r1s) r2s top bottom
    else
      let pReg :=
        if r1.right > left then addRect pReg ⟨left, top, r1.right, bottom⟩
        else pReg
      subtractLoop pReg (nextLeft left r1s) r1s (r2 :: r2s) top bottom
termination_by r1 r2 => r1.length + r2.length

/-- `subtract_overlapping`; the band of the first region is not empty. -/
def subtractOverlapping : OverlapFunc := fun pReg r1 r2 top bottom =>
    subtractLoop pReg (nextLeft 0 r1) r1 r2 top bottom

/-- `MERGERECT`. -/
def mergeRect (pReg : Region) (r : Rect) (top bottom : Int) : Region :=
  match pReg.rects.getLast? with
  | some last =>
    if last.top = top ∧ last.bottom = bottom ∧ last.right ≥ r.left then
      if last.right < r.right then
        { pReg with
          rects := pReg.rects.dropLast ++ [{ last with right := r.right }] }
      else pReg
    else addRect pReg ⟨r.left, top, r.right, bottom⟩
  | none => addRect pReg ⟨r.left, top, r.right, bottom⟩

/-- `union_overlapping`. -/
def unionOverlapping (pReg : Region) : List Rect → List Rect → Int → Int → Region
  | [], [], _, _ => pReg
  | r1 :: r1s, [], top, bottom => unionOverlapping (mergeRect pReg r1 top bottom) r1s [] top bottom
  | [], r2 :: r2s, top, bottom => unionOverlapping (mergeRect pReg r2 top bottom) [] r2s top bottom
  | r1 :: r1s, r2 :: r2s, top, bottom =>
    if r1.left < r2.left then
      unionOverlapping (mergeRect pReg r1 top bottom) r1s (r2 :: r2s) top bottom
    else unionOverlapping (mergeRect pReg r2 top bottom) (r1 :: r1s) r2s top bottom
termination_by r1 r2 => r1.length + r2.length

/-! ## The band sweep -/

/-- Apply a callback that may be null. -/
def callNonOverlap (func : Option NonOverlapFunc)
    (reg : Region) (band : List Rect) (top bottom : Int) : Region :=
  match func with
  | some func => func reg band top bottom
  | none => reg

/-- Coalesce if rectangles have been added since `curBand`. -/
def closeBand (newReg : Region) (prevBand curBand : Nat) : Region × Nat :=
  if newReg.rects.length ≠ curBand then coalesceRegion newReg prevBand curBand
  else (newReg, prevBand)

/-- The variables of the main loop of `region_op`. -/
structure Sweep where
  newReg : Region
  r1 : List Rect
  r2 : List Rect
  ybot : Int
  prevBand : Nat
deriving DecidableEq, Repr

/--
The first half of a sweep step: emit the part of the higher band that lies
above the other one.  Returns the region, the start of its last band and
`ytop`.
-/
def sweepNonOverlap (non1 non2 : Option NonOverlapFunc)
    (state : Sweep) (h1 h2 : Rect) : Region × Nat × Int :=
  let curBand := state.newReg.rects.length
  if h1.top < h2.top then
    let top := max h1.top state.ybot
    let bot := min h1.bottom h2.top
    let newReg :=
      if top ≠ bot then callNonOverlap non1 state.newReg (bandOf state.r1) top bot
      else state.newReg
    let closed := closeBand newReg state.prevBand curBand
    (closed.1, closed.2, h2.top)
  else if h2.top < h1.top then
    let top := max h2.top state.ybot
    let bot := min h2.bottom h1.top
    let newReg :=
      if top ≠ bot then callNonOverlap non2 state.newReg (bandOf state.r2) top bot
      else state.newReg
    let closed := closeBand newReg state.prevBand curBand
    (closed.1, closed.2, h1.top)
  else (state.newReg, state.prevBand, h1.top)

/-- The body of the main loop of `region_op`, for current bands at `h1`, `h2`. -/
def sweepStep (overlap : OverlapFunc) (non1 non2 : Option NonOverlapFunc)
    (state : Sweep) (h1 h2 : Rect) : Sweep :=
  let (newReg, prevBand, ytop) := sweepNonOverlap non1 non2 state h1 h2
  let ybot := min h1.bottom h2.bottom
  let curBand := newReg.rects.length
  let newReg :=
    if ybot > ytop then overlap newReg (bandOf state.r1) (bandOf state.r2) ytop ybot
    else newReg
  let closed := closeBand newReg prevBand curBand
  { newReg := closed.1
    prevBand := closed.2
    ybot := ybot
    r1 := if h1.bottom = ybot then afterBand state.r1 else state.r1
    r2 := if h2.bottom = ybot then afterBand state.r2 else state.r2 }

theorem length_afterBand_lt (rect : Rect) (rects : List Rect) :
    (afterBand (rect :: rects)).length < (rect :: rects).length := by
  simpa [afterBand] using Nat.lt_succ_of_le (List.dropWhile_suffix _).length_le

/-- The main loop of `region_op`, run while both regions have bands left. -/
def sweepLoop (overlap : OverlapFunc) (non1 non2 : Option NonOverlapFunc) (state : Sweep) : Sweep :=
  match _first : state.r1, _second : state.r2 with
  | h1 :: _, h2 :: _ => sweepLoop overlap non1 non2 (sweepStep overlap non1 non2 state h1 h2)
  | _, _ => state
termination_by state.r1.length + state.r2.length
decreasing_by
  simp only [sweepStep]
  have shorter1 := length_afterBand_lt h1 (state.r1.tail)
  have shorter2 := length_afterBand_lt h2 (state.r2.tail)
  simp only [_first, _second, List.tail_cons] at shorter1 shorter2 ⊢
  rcases le_total h1.bottom h2.bottom with lower | lower
  · rw [if_pos (min_eq_left lower).symm]
    split_ifs <;> omega
  · rw [if_pos (min_eq_right lower).symm]
    split_ifs <;> omega

/-- The loop over the bands that are left in one region. -/
def tailLoop (func : NonOverlapFunc) (newReg : Region) (ybot : Int) (rects : List Rect) : Region :=
  match rects with
  | [] => newReg
  | head :: rest =>
    tailLoop func (func newReg (bandOf (head :: rest)) (max head.top ybot) head.bottom)
      ybot (afterBand (head :: rest))
termination_by rects.length
decreasing_by exact length_afterBand_lt head rest

/-- The tail phase of `region_op`, up to its last call of `coalesce_region`. -/
def sweepTail (non1 non2 : Option NonOverlapFunc) (state : Sweep) : Region :=
  let newReg :=
    match state.r1, non1, state.r2, non2 with
    | _ :: _, some func, _, _ => tailLoop func state.newReg state.ybot state.r1
    | [], _, _ :: _, some func => tailLoop func state.newReg state.ybot state.r2
    | _, _, _, _ => state.newReg
  (closeBand newReg state.prevBand state.newReg.rects.length).1

/-- Give back unused memory at the end of `region_op`. -/
def shrinkRects (newReg : Region) : Region :=
  if newReg.rects.length < newReg.size / 2 ∧ newReg.size > 2 then
    { newReg with size := max newReg.rects.length rgnDefaultRects }
  else newReg

/-! ## The heap of regions and the public operations -/

/-- The address of a region. -/
abbrev RegionId := Nat

/-- The regions of the server; addresses from `nextId` on are not in use. -/
structure Heap where
  region : RegionId → Region
  nextId : RegionId

section

variable (heap : Heap) (dst src1 src2 : RegionId)

/-- Write a region. -/
def Heap.set (id : RegionId) (region : Region) : Heap :=
  { heap with region := Function.update heap.region id region }

/--
`region_op`: sweep over the bands of two regions that are not empty.  The
rectangle arrays of the sources are read through pointers taken before the
destination gets its new array.
-/
def regionOp (newReg reg1 reg2 : RegionId)
    (overlap : OverlapFunc) (non1 non2 : Option NonOverlapFunc) : Heap :=
  let r1 := (heap.region reg1).rects
  let r2 := (heap.region reg2).rects
  let heap := heap.set newReg
    { heap.region newReg with
      size := max r1.length r2.length * 2
      rects := [] }
  let top1 := (heap.region reg1).extents.top
  let top2 := (heap.region reg2).extents.top
  let state := sweepLoop overlap non1 non2
    { newReg := heap.region newReg
      r1 := r1
      r2 := r2
      ybot := if top1 < top2 then top1 else top2
      prevBand := 0 }
  heap.set newReg (shrinkRects (sweepTail non1 non2 state))

/-- One step of the loop of `set_region_extents`. -/
def widenExtents (extents rect : Rect) : Rect :=
  { extents with
    left := if rect.left < extents.left then rect.left else extents.left
    right := if rect.right > extents.right then rect.right else extents.right }

/-- The extents that `set_region_extents` computes. -/
def regionExtents (rects : List Rect) : Rect :=
  match rects with
  | [] => emptyRect
  | first :: rest =>
    let last := (first :: rest).getLast (List.cons_ne_nil _ _)
    (first :: rest).foldl widenExtents ⟨first.left, first.top, last.right, last.bottom⟩

/-- `set_region_extents`. -/
def setRegionExtents (region : Region) : Region :=
  { region with extents := regionExtents region.rects }

/-- `copy_region`. -/
def copyRegion (heap : Heap) (dst src : RegionId) : Heap :=
  if dst = src then heap
  else
    let target := heap.region dst
    let source := heap.region src
    heap.set dst
      { size :=
          if target.size < source.rects.length then source.rects.length
          else target.size
        rects := source.rects
        extents := source.extents }

/-- `intersect_region`. -/
def intersectRegion : Heap :=
  let reg1 := heap.region src1
  let reg2 := heap.region src2
  if reg1.rects.isEmpty || reg2.rects.isEmpty || !extentCheck reg1.extents reg2.extents then
    heap.set dst
      { heap.region dst with rects := [], extents := emptyRect }
  else
    let heap := regionOp heap dst src1 src2 intersectOverlapping none none
    heap.set dst (setRegionExtents (heap.region dst))

/-- `subtract_region`. -/
def subtractRegion : Heap :=
  let reg1 := heap.region src1
  let reg2 := heap.region src2
  if reg1.rects.isEmpty || reg2.rects.isEmpty || !extentCheck reg1.extents reg2.extents then
    copyRegion heap dst src1
  else
    let heap := regionOp heap dst src1 src2 subtractOverlapping (some subtractNonOverlapping) none
    heap.set dst (setRegionExtents (heap.region dst))

/-- The first region is one rectangle that contains the second region. -/
def coversExtents (reg1 reg2 : Region) : Bool := reg1.rects.length = 1 &&
    reg1.extents.left ≤ reg2.extents.left &&
    reg1.extents.top ≤ reg2.extents.top &&
    reg1.extents.right ≥ reg2.extents.right &&
    reg1.extents.bottom ≥ reg2.extents.bottom

/-- `union_region`. -/
def unionRegion : Heap :=
  if src1 = src2 then copyRegion heap dst src1
  else
    let reg1 := heap.region src1
    let reg2 := heap.region src2
    if reg1.rects.isEmpty then copyRegion heap dst src2
    else if reg2.rects.isEmpty then copyRegion heap dst src1
    else if coversExtents reg1 reg2 then copyRegion heap dst src1
    else if coversExtents reg2 reg1 then copyRegion heap dst src2
    else
      let heap := regionOp heap dst src1 src2 unionOverlapping
        (some unionNonOverlapping) (some unionNonOverlapping)
      -- The sources still have their extents, also when one is `dst`.
      let extents1 := (heap.region src1).extents
      let extents2 := (heap.region src2).extents
      heap.set dst
        { heap.region dst with
          extents :=
            { left := min extents1.left extents2.left
              top := min extents1.top extents2.top
              right := max extents1.right extents2.right
              bottom := max extents1.bottom extents2.bottom } }

/-- `create_empty_region`: the region at the next free address. -/
def createEmptyRegion : Heap × RegionId := ({ heap.set heap.nextId
      { size := rgnDefaultRects, rects := [], extents := emptyRect } with
      nextId := heap.nextId + 1 },
    heap.nextId)

/-- `xor_region`; the temporary region is unreachable once it is freed. -/
def xorRegion : Heap :=
  let (heap, tmp) := createEmptyRegion heap
  let heap := subtractRegion heap tmp src1 src2
  let heap := subtractRegion heap dst src2 src1
  unionRegion heap dst dst tmp

end

/-- `is_rect_equal`. -/
def isRectEqual (rect1 rect2 : Rect) : Bool :=
  rect1.left = rect2.left && rect1.right = rect2.right &&
    rect1.top = rect2.top && rect1.bottom = rect2.bottom

/-- `is_region_equal`. -/
def isRegionEqual (region1 region2 : Region) : Bool :=
  if region1.rects.length ≠ region2.rects.length then false
  else if region1.rects.length = 0 then true
  else if !isRectEqual region1.extents region2.extents then false
  else (region1.rects.zip region2.rects).all fun pair => isRectEqual pair.1 pair.2

/-- The loop of `point_in_region`. -/
def pointInRects (x y : Int) : List Rect → Bool
  | [] => false
  | rect :: rects =>
    if rect.top > y then false
    else if rect.bottom ≤ y then pointInRects x y rects
    else if rect.left > x then false
    else if rect.right ≤ x then pointInRects x y rects
    else true

/-- `point_in_region`. -/
def pointInRegion (region : Region) (x y : Int) : Bool := pointInRects x y region.rects

end WineRedRose.Regions
