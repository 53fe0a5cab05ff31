import WineRedRose.Regions.RegionOp

/-!
# The algebra of regions

A well-formed region denotes a set of points, and the four public operations
compute the set operations on what their sources denote, whichever region
the destination is.  The extents of a region are the bounding box of its
points, so they do not depend on how the points are cut into rectangles;
this is what makes the shortcuts of the operations sound.
-/

namespace WineRedRose.Regions

open List Heap

/-! ## Bounding boxes -/

/-- `box` is the least rectangle around a nonempty set of points. -/
structure Bounds (points : Int → Int → Prop) (box : Rect) : Prop where
  inside : ∀ x y, points x y → (box.left ≤ x ∧ x < box.right) ∧ box.top ≤ y ∧ y < box.bottom
  leftmost : ∃ y, points box.left y
  rightmost : ∃ y, points (box.right - 1) y
  topmost : ∃ x, points x box.top
  bottommost : ∃ x, points x (box.bottom - 1)

variable {points : Int → Int → Prop} {rects : List Rect} {region : Region}
variable {box box1 box2 : Rect} {points' : Int → Int → Prop} {src id : RegionId}

theorem Bounds.unique {box' : Rect} (bounds : Bounds points box) (bounds' : Bounds points box') :
    box = box' := by
  rcases bounds with ⟨inside, ⟨y1, l⟩, ⟨y2, r⟩, ⟨x1, t⟩, ⟨x2, b⟩⟩
  rcases bounds' with ⟨inside', ⟨y1', l'⟩, ⟨y2', r'⟩, ⟨x1', t'⟩, ⟨x2', b'⟩⟩
  have sides := And.intro (inside' _ _ l) (inside _ _ l')
  have sidesRight := And.intro (inside' _ _ r) (inside _ _ r')
  have sidesTop := And.intro (inside' _ _ t) (inside _ _ t')
  have sidesBottom := And.intro (inside' _ _ b) (inside _ _ b')
  rcases box with ⟨left, top, right, bottom⟩
  rcases box' with ⟨left', top', right', bottom'⟩
  simp only [Rect.mk.injEq] at sides sidesRight sidesTop sidesBottom ⊢
  omega

theorem Bounds.congr (bounds : Bounds points box) (same : ∀ x y, points x y ↔ points' x y) :
    Bounds points' box := by
  have equal : points = points' := funext₂ fun x y => propext (same x y)
  exact equal ▸ bounds

theorem Bounds.union {points1 points2 : Int → Int → Prop} (bounds1 : Bounds points1 box1)
    (bounds2 : Bounds points2 box2) :
    Bounds (fun x y => points1 x y ∨ points2 x y)
      { left := min box1.left box2.left
        top := min box1.top box2.top
        right := max box1.right box2.right
        bottom := max box1.bottom box2.bottom } where
  inside x y point := by
    rcases point with point | point
    · have := bounds1.inside x y point
      dsimp only
      omega
    · have := bounds2.inside x y point
      dsimp only
      omega
  leftmost := by
    rcases min_choice box1.left box2.left with least | least <;>
      simp only [least]
    · exact bounds1.leftmost.imp fun _ => .inl
    · exact bounds2.leftmost.imp fun _ => .inr
  rightmost := by
    rcases max_choice box1.right box2.right with greatest | greatest <;>
      simp only [greatest]
    · exact bounds1.rightmost.imp fun _ => .inl
    · exact bounds2.rightmost.imp fun _ => .inr
  topmost := by
    rcases min_choice box1.top box2.top with least | least <;>
      simp only [least]
    · exact bounds1.topmost.imp fun _ => .inl
    · exact bounds2.topmost.imp fun _ => .inr
  bottommost := by
    rcases max_choice box1.bottom box2.bottom with greatest | greatest <;>
      simp only [greatest]
    · exact bounds1.bottommost.imp fun _ => .inl
    · exact bounds2.bottommost.imp fun _ => .inr

/-! ## The extents of a rectangle list -/

theorem widenExtents_spec (extents rect : Rect) : (widenExtents extents rect).left =
      min extents.left rect.left ∧ (widenExtents extents rect).right =
      max extents.right rect.right ∧ (widenExtents extents rect).top = extents.top ∧
      (widenExtents extents rect).bottom = extents.bottom := by
  simp only [widenExtents, and_self, and_true]
  split_ifs <;> omega

/-- `wide` is `extents` widened to the outermost sides of the rectangles. -/
structure Widened (extents : Rect) (rects : List Rect) (wide : Rect) :
    Prop where
  top : wide.top = extents.top
  bottom : wide.bottom = extents.bottom
  left_le : wide.left ≤ extents.left
  le_right : extents.right ≤ wide.right
  inside : ∀ rect ∈ rects, wide.left ≤ rect.left ∧ rect.right ≤ wide.right
  leftmost : wide.left = extents.left ∨ ∃ rect ∈ rects, wide.left = rect.left
  rightmost : wide.right = extents.right ∨ ∃ rect ∈ rects, wide.right = rect.right

/-- The loop of `set_region_extents` finds the outermost sides. -/
theorem foldl_widenExtents (extents : Rect) :
    Widened extents rects (rects.foldl widenExtents extents) := by
  induction rects generalizing extents with
  | nil => exact ⟨rfl, rfl, le_rfl, le_rfl, by simp, .inl rfl, .inl rfl⟩
  | cons rect rects ih =>
    rcases widenExtents_spec extents rect with ⟨left, right, top, bottom⟩
    rcases ih (widenExtents extents rect) with
      ⟨wideTop, wideBottom, wideLeft, wideRight, all, outerL, outerR⟩
    rw [left] at wideLeft outerL
    rw [right] at wideRight outerR
    rw [foldl_cons]
    refine ⟨wideTop.trans top, wideBottom.trans bottom, wideLeft.trans (min_le_left _ _),
      (le_max_left _ _).trans wideRight, ?_, ?_, ?_⟩
    · rw [forall_mem_cons]
      exact ⟨⟨wideLeft.trans (min_le_right _ _), (le_max_right _ _).trans wideRight⟩, all⟩
    · rw [exists_mem_cons_iff]
      rcases outerL with same | other
      · rw [same]
        exact (min_choice _ _).imp_right .inl
      · exact .inr (.inr other)
    · rw [exists_mem_cons_iff]
      rcases outerR with same | other
      · rw [same]
        exact (max_choice _ _).imp_right .inl
      · exact .inr (.inr other)

theorem bottom_le_getLast (banded : Banded rects) (nonempty : rects ≠ []) :
    ∀ rect ∈ rects, rect.bottom ≤ (rects.getLast nonempty).bottom := by
  induction rects with
  | nil => simp
  | cons head tail ih =>
    rcases banded_cons.mp banded with ⟨-, later, bandedTail⟩
    intro rect member
    cases tail with
    | nil => simp_all
    | cons next rest =>
      rw [getLast_cons (cons_ne_nil next rest)]
      rcases mem_cons.mp member with rfl | member
      · have first := ih bandedTail (cons_ne_nil next rest) next mem_cons_self
        exact (head_le_of_mem banded next (by simp)).2.trans first
      · exact ih bandedTail (cons_ne_nil next rest) rect member

/-- Every corner of a proper rectangle is one of its points. -/
theorem contains_corner (banded : Banded rects) {rect : Rect} (member : rect ∈ rects) :
    Contains rects rect.left rect.top ∧ Contains rects (rect.right - 1) (rect.bottom - 1) := by
  have proper := banded.1 rect member
  simp only [Rect.Proper] at proper
  refine ⟨⟨rect, member, ?_⟩, ⟨rect, member, ?_⟩⟩ <;> omega

/-- The extents of a banded list are the bounding box of its points. -/
theorem bounds_regionExtents (banded : Banded rects) (nonempty : rects ≠ []) :
    Bounds (Contains rects) (regionExtents rects) := by
  cases rects with
  | nil => exact (nonempty rfl).elim
  | cons head tail =>
    let last := (head :: tail).getLast nonempty
    have lastMember : last ∈ head :: tail := getLast_mem nonempty
    have widened : Widened ⟨head.left, head.top, last.right, last.bottom⟩
        (head :: tail) (regionExtents (head :: tail)) :=
      foldl_widenExtents _
    rcases widened with ⟨top, bottom, -, -, sides, left, right⟩
    have corners := fun rect (member : rect ∈ head :: tail) => contains_corner banded member
    have bottoms := bottom_le_getLast banded nonempty
    have tops := head_le_of_mem banded
    refine ⟨?_, ?_, ?_, ⟨head.left, ?_⟩, ⟨last.right - 1, ?_⟩⟩
    · rintro x y ⟨rect, member, inX, inY⟩
      have side := sides rect member
      have low : rect.bottom ≤ last.bottom := bottoms rect member
      have high := tops rect member
      dsimp only at top bottom
      omega
    · rcases left with same | ⟨rect, member, same⟩
      · exact ⟨head.top, same ▸ (corners head mem_cons_self).1⟩
      · exact ⟨rect.top, same ▸ (corners rect member).1⟩
    · rcases right with same | ⟨rect, member, same⟩
      · exact ⟨last.bottom - 1, same ▸ (corners last lastMember).2⟩
      · exact ⟨rect.bottom - 1, same ▸ (corners rect member).2⟩
    · exact top ▸ (corners head mem_cons_self).1
    · exact bottom ▸ (corners last lastMember).2

/-! ## Well-formed regions -/

/--
A region is well formed if its rectangles pass `validate_rectangles` and its
extents are those that `set_region_extents` computes.
-/
def Region.WellFormed (region : Region) : Prop := validateRectangles region.rects = true ∧
    region.extents = (setRegionExtents region).extents

instance (region : Region) : Decidable region.WellFormed :=
  inferInstanceAs (Decidable (_ ∧ _))

/-- A well-formed region with the points of a set. -/
structure Denotes (region : Region) (points : Int → Int → Prop) : Prop where
  wellFormed : region.WellFormed
  mem : ∀ x y, pointInRegion region x y = true ↔ points x y

theorem Region.WellFormed.denotes (wellFormed : region.WellFormed) :
    Denotes region fun x y => pointInRegion region x y = true :=
  ⟨wellFormed, fun _ _ => Iff.rfl⟩

theorem denotes_iff :
    Denotes region points ↔ Banded region.rects ∧ (∀ x y, Contains region.rects x y ↔ points x y) ∧
      region.extents = regionExtents region.rects := by
  constructor
  · rintro ⟨⟨valid, extents⟩, mem⟩
    have banded := validateRectangles_iff.mp valid
    refine ⟨banded, fun x y => ?_, extents⟩
    rw [← mem x y]
    exact (pointInRects_iff banded).symm
  · rintro ⟨banded, mem, extents⟩
    refine ⟨⟨validateRectangles_iff.mpr banded, extents⟩, fun x y => ?_⟩
    rw [← mem x y]
    exact pointInRects_iff banded

theorem Region.WellFormed.denotes_contains (wellFormed : region.WellFormed) :
    Denotes region (Contains region.rects) :=
  denotes_iff.mpr ⟨validateRectangles_iff.mp wellFormed.1, fun _ _ => Iff.rfl, wellFormed.2⟩

section

variable (denotes : Denotes region points)
include denotes

theorem Denotes.congr (same : ∀ x y, points x y ↔ points' x y) : Denotes region points' :=
  ⟨denotes.wellFormed, fun x y => (denotes.mem x y).trans (same x y)⟩

/-- Only the rectangles and the extents of a region matter. -/
theorem Denotes.of_eq {region' : Region} (rects : region'.rects = region.rects)
    (extents : region'.extents = region.extents) :
    Denotes region' points := by
  rw [denotes_iff] at denotes ⊢
  rwa [rects, extents]

theorem Denotes.bounds (nonempty : region.rects ≠ []) : Bounds points region.extents := by
  rcases denotes_iff.mp denotes with ⟨banded, mem, extents⟩
  rw [extents]
  exact (bounds_regionExtents banded nonempty).congr mem

theorem Denotes.empty (noRects : region.rects = []) (x y : Int) : ¬ points x y := by
  rw [← denotes.mem x y]
  simp [pointInRegion, noRects, pointInRects]

omit denotes in
/-- A banded list of rectangles with new extents. -/
theorem denotes_setRegionExtents (banded : Banded region.rects)
    (mem : ∀ x y, Contains region.rects x y ↔ points x y) :
    Denotes (setRegionExtents region) points :=
  denotes_iff.mpr ⟨banded, mem, rfl⟩

/-- The top of the extents is the top of the first rectangle. -/
theorem Denotes.top {head : Rect} {tail : List Rect} (cons : region.rects = head :: tail) :
    region.extents.top = head.top := by
  rcases denotes_iff.mp denotes with ⟨-, -, extents⟩
  rw [extents, cons]
  exact (foldl_widenExtents _).top

end

/-- `EXTENTCHECK` fails only for regions without a common point. -/
theorem Bounds.disjoint {points1 points2 : Int → Int → Prop} (bounds1 : Bounds points1 box1)
    (bounds2 : Bounds points2 box2) (apart : extentCheck box1 box2 = false) (x y : Int) :
    ¬ (points1 x y ∧ points2 x y) := by
  rintro ⟨point1, point2⟩
  have inside1 := bounds1.inside x y point1
  have inside2 := bounds2.inside x y point2
  simp only [extentCheck, Bool.and_eq_false_iff, decide_eq_false_iff_not] at apart
  omega

/-! ## The operations -/

section Operations

variable {heap : Heap} {dst src1 src2 : RegionId}
variable {points1 points2 : Int → Int → Prop}

theorem copyRegion_region_of_ne (other : id ≠ dst) :
    (copyRegion heap dst src).region id = heap.region id := by
  rw [copyRegion]
  split
  · rfl
  · exact set_region_of_ne heap _ other

theorem copyRegion_denotes (denotes : Denotes (heap.region src) points) :
    Denotes ((copyRegion heap dst src).region dst) points := by
  rw [copyRegion]
  split
  next same => exact same ▸ denotes
  next => apply denotes.of_eq <;> simp

variable (dst) in
/-- `region_op` on sources that are not empty. -/
theorem regionOp_denotes {op : Prop → Prop → Prop} {overlap : OverlapFunc}
    {non1 non2 : Option NonOverlapFunc} (operation : BandOperation op overlap non1 non2)
    (denotes1 : Denotes (heap.region src1) points1) (denotes2 : Denotes (heap.region src2) points2)
    (nonempty1 : (heap.region src1).rects ≠ []) (nonempty2 : (heap.region src2).rects ≠ []) :
    let result := regionOp heap dst src1 src2 overlap non1 non2
    Banded (result.region dst).rects ∧ (∀ x y, Contains (result.region dst).rects x y ↔
        op (points1 x y) (points2 x y)) ∧
      (Settled points1 (heap.region src1).rects → Settled points2 (heap.region src2).rects →
        Settled (fun x y => op (points1 x y) (points2 x y)) (result.region dst).rects) := by
  rcases exists_cons_of_ne_nil nonempty1 with ⟨h1, t1, first⟩
  rcases exists_cons_of_ne_nil nonempty2 with ⟨h2, t2, second⟩
  rcases denotes_iff.mp denotes1 with ⟨banded1, mem1, -⟩
  rcases denotes_iff.mp denotes2 with ⟨banded2, mem2, -⟩
  rw [first] at banded1 mem1
  rw [second] at banded2 mem2
  have spec := regionOp_spec operation dst first second
    banded1 banded2 (denotes1.top first) (denotes2.top second)
  have same1 : Contains (h1 :: t1) = points1 := funext₂ fun x y => propext (mem1 x y)
  have same2 : Contains (h2 :: t2) = points2 := funext₂ fun x y => propext (mem2 x y)
  rw [← same1, ← same2, first, second]
  exact spec

section

variable (denotes1 : Denotes (heap.region src1) points1)
  (denotes2 : Denotes (heap.region src2) points2)
include denotes1 denotes2

/-- The test that `intersect_region` and `subtract_region` share. -/
theorem disjoint_of_shortcut
    (shortcut : ((heap.region src1).rects.isEmpty || (heap.region src2).rects.isEmpty ||
      !extentCheck (heap.region src1).extents (heap.region src2).extents) = true)
    (x y : Int) : ¬ (points1 x y ∧ points2 x y) := by
  by_cases empty1 : (heap.region src1).rects = []
  · exact fun both => denotes1.empty empty1 x y both.1
  by_cases empty2 : (heap.region src2).rects = []
  · exact fun both => denotes2.empty empty2 x y both.2
  have apart : extentCheck (heap.region src1).extents (heap.region src2).extents = false := by
    simpa [empty1, empty2] using shortcut
  exact (denotes1.bounds empty1).disjoint (denotes2.bounds empty2) apart x y

omit denotes1 denotes2 in
theorem nonempty_of_not_shortcut {check : Bool} (run : ¬ ((heap.region src1).rects.isEmpty ||
      (heap.region src2).rects.isEmpty || !check) = true) :
    (heap.region src1).rects ≠ [] ∧ (heap.region src2).rects ≠ [] := by
  simp only [Bool.or_eq_true, List.isEmpty_iff, not_or] at run
  exact run.1

theorem intersectRegion_denotes : Denotes ((intersectRegion heap dst src1 src2).region dst)
      fun x y => points1 x y ∧ points2 x y := by
  simp only [intersectRegion]
  split
  next shortcut =>
    have disjoint := disjoint_of_shortcut denotes1 denotes2 shortcut
    rw [set_region_self, denotes_iff]
    exact ⟨banded_nil, fun x y => iff_of_false contains_nil (disjoint x y), rfl⟩
  next run =>
    rcases nonempty_of_not_shortcut run with ⟨nonempty1, nonempty2⟩
    have swept := regionOp_denotes dst intersect_bandOperation denotes1 denotes2 nonempty1 nonempty2
    rw [set_region_self]
    exact denotes_setRegionExtents swept.1 swept.2.1

theorem subtractRegion_denotes : Denotes ((subtractRegion heap dst src1 src2).region dst)
      fun x y => points1 x y ∧ ¬ points2 x y := by
  simp only [subtractRegion]
  split
  next shortcut =>
    have disjoint := disjoint_of_shortcut denotes1 denotes2 shortcut
    apply (copyRegion_denotes denotes1).congr
    intro x y
    exact ⟨fun point => ⟨point, fun other => disjoint x y ⟨point, other⟩⟩, And.left⟩
  next run =>
    rcases nonempty_of_not_shortcut run with ⟨nonempty1, nonempty2⟩
    have swept := regionOp_denotes dst subtract_bandOperation denotes1 denotes2 nonempty1 nonempty2
    rw [set_region_self]
    exact denotes_setRegionExtents swept.1 swept.2.1

end

theorem subtractRegion_region_of_ne (other : id ≠ dst) :
    (subtractRegion heap dst src1 src2).region id = heap.region id := by
  simp only [subtractRegion]
  split
  · exact copyRegion_region_of_ne other
  · rw [set_region_of_ne _ _ other, regionOp_region_of_ne other]

/-- A single rectangle around the extents of another region covers it. -/
theorem covers_of_coversExtents {reg1 reg2 : Region} (denotes1 : Denotes reg1 points1)
    (denotes2 : Denotes reg2 points2) (nonempty2 : reg2.rects ≠ [])
    (covers : coversExtents reg1 reg2 = true) (x y : Int) (point : points2 x y) : points1 x y := by
  simp only [coversExtents, Bool.and_eq_true, decide_eq_true_eq] at covers
  rcases covers with ⟨⟨⟨⟨single, left⟩, top⟩, right⟩, bottom⟩
  rcases length_eq_one_iff.mp single with ⟨rect, only⟩
  rcases denotes_iff.mp denotes1 with ⟨-, mem, extents⟩
  have box : reg1.extents = rect := by
    rw [extents, only]
    simp [regionExtents, widenExtents]
  have inside := (denotes2.bounds nonempty2).inside x y point
  rw [box] at left top right bottom
  rw [← mem x y, only]
  refine ⟨rect, mem_cons_self, ?_⟩
  omega

private theorem unionNon_extents (func : NonOverlapFunc)
    (either : some func = some unionNonOverlapping ∨ some func = some unionNonOverlapping)
    (reg : Region) (band : List Rect) (top bottom : Int) :
    (func reg band top bottom).extents = reg.extents := by
  rw [Option.some.injEq, or_self] at either
  subst either
  exact copyBand_extents band

theorem unionRegion_denotes (denotes1 : Denotes (heap.region src1) points1)
    (denotes2 : Denotes (heap.region src2) points2) :
    Denotes ((unionRegion heap dst src1 src2).region dst) fun x y => points1 x y ∨ points2 x y := by
  simp only [unionRegion]
  split
  next same =>
    subst same
    apply (copyRegion_denotes denotes1).congr
    intro x y
    rw [← denotes1.mem x y, ← denotes2.mem x y, or_self]
  next =>
    split
    next empty1 =>
      have none1 := denotes1.empty (isEmpty_iff.mp empty1)
      apply (copyRegion_denotes denotes2).congr
      exact fun x y => (or_iff_right (none1 x y)).symm
    next run1 =>
    split
    next empty2 =>
      have none2 := denotes2.empty (isEmpty_iff.mp empty2)
      apply (copyRegion_denotes denotes1).congr
      exact fun x y => (or_iff_left (none2 x y)).symm
    next run2 =>
    rw [List.isEmpty_iff] at run1 run2
    split
    next covers =>
      have included := covers_of_coversExtents denotes1 denotes2 run2 covers
      apply (copyRegion_denotes denotes1).congr
      exact fun x y => (or_iff_left_of_imp (included x y)).symm
    next =>
    split
    next covers =>
      have included := covers_of_coversExtents denotes2 denotes1 run1 covers
      apply (copyRegion_denotes denotes2).congr
      exact fun x y => (or_iff_right_of_imp (included x y)).symm
    next =>
      have swept := regionOp_denotes dst union_bandOperation denotes1 denotes2 run1 run2
      have bounds := (denotes1.bounds run1).union (denotes2.bounds run2)
      rw [set_region_self, denotes_iff]
      refine ⟨swept.1, swept.2.1, ?_⟩
      rw [regionOp_extents unionOverlapping_extents unionNon_extents,
        regionOp_extents unionOverlapping_extents unionNon_extents]
      apply bounds.unique
      apply (bounds_regionExtents swept.1 ?_).congr swept.2.1
      rcases bounds.leftmost with ⟨y, point⟩
      rcases (swept.2.1 _ y).mpr point with ⟨rect, member, -⟩
      exact ne_nil_of_mem member

/--
`xor_region`: the temporary region is fresh, so it is none of the regions
that the caller names. What the two operations do to a description of regions
is done to the descriptions of the sources.
-/
theorem xorRegion_composes {α : Type} (holds : α → Region → Prop) (minus union : α → α → α)
    (first second : α)
    (subtracted : ∀ heap dst src1 src2 first second, holds first (heap.region src1) →
      holds second (heap.region src2) →
      holds (minus first second) ((subtractRegion heap dst src1 src2).region dst))
    (united : ∀ heap dst src1 src2 first second, holds first (heap.region src1) →
      holds second (heap.region src2) →
      holds (union first second) ((unionRegion heap dst src1 src2).region dst))
    (dstLive : dst < heap.nextId) (live1 : src1 < heap.nextId) (live2 : src2 < heap.nextId)
    (here1 : holds first (heap.region src1)) (here2 : holds second (heap.region src2)) :
    holds (union (minus second first) (minus first second))
      ((xorRegion heap dst src1 src2).region dst) := by
  let fresh := (createEmptyRegion heap).1
  let tmp := heap.nextId
  have old : ∀ id < tmp, fresh.region id = heap.region id :=
    fun id live => set_region_of_ne heap _ live.ne
  rw [← old src1 live1] at here1
  rw [← old src2 live2] at here2
  let left := subtractRegion fresh tmp src1 src2
  have kept : ∀ id < tmp, left.region id = fresh.region id :=
    fun id live => subtractRegion_region_of_ne live.ne
  have difference : holds (minus first second) (left.region tmp) :=
    subtracted _ _ _ _ _ _ here1 here2
  rw [← kept src1 live1] at here1
  rw [← kept src2 live2] at here2
  have stillTmp : (subtractRegion left dst src2 src1).region tmp = left.region tmp :=
    subtractRegion_region_of_ne dstLive.ne'
  rw [← stillTmp] at difference
  exact united _ _ _ _ _ _ (subtracted _ _ _ _ _ _ here2 here1) difference

theorem xorRegion_denotes (dstLive : dst < heap.nextId) (live1 : src1 < heap.nextId)
    (live2 : src2 < heap.nextId) (denotes1 : Denotes (heap.region src1) points1)
    (denotes2 : Denotes (heap.region src2) points2) :
    Denotes ((xorRegion heap dst src1 src2).region dst) fun x y => (points1 x y ∧ ¬ points2 x y) ∨
      (points2 x y ∧ ¬ points1 x y) := by
  refine Denotes.congr ?_ fun x y => or_comm
  exact xorRegion_composes (fun points region => Denotes region points)
    (fun here away x y => here x y ∧ ¬ away x y) (fun left right x y => left x y ∨ right x y)
    _ _ (fun _ _ _ _ _ _ => subtractRegion_denotes) (fun _ _ _ _ _ _ => unionRegion_denotes)
    dstLive live1 live2 denotes1 denotes2

end Operations

/-! ## The algebra -/

/--
For well-formed sources, the four operations compute intersection,
difference, union and symmetric difference pointwise, and the destination is
well formed again.  The destination may be any region, also a source.
-/
theorem regionOperations_pointwise (heap : Heap) (dst src1 src2 : RegionId)
    (dstLive : dst < heap.nextId) (live1 : src1 < heap.nextId) (live2 : src2 < heap.nextId)
    (wellFormed1 : (heap.region src1).WellFormed) (wellFormed2 : (heap.region src2).WellFormed) :
    let A := Contains (heap.region src1).rects
    let B := Contains (heap.region src2).rects
    Denotes ((intersectRegion heap dst src1 src2).region dst) (fun x y => A x y ∧ B x y) ∧
      Denotes ((subtractRegion heap dst src1 src2).region dst) (fun x y => A x y ∧ ¬ B x y) ∧
      Denotes ((unionRegion heap dst src1 src2).region dst) (fun x y => A x y ∨ B x y) ∧
      Denotes ((xorRegion heap dst src1 src2).region dst)
        (fun x y => (A x y ∧ ¬ B x y) ∨ (B x y ∧ ¬ A x y)) := by
  have denotes1 := wellFormed1.denotes_contains
  have denotes2 := wellFormed2.denotes_contains
  exact ⟨intersectRegion_denotes denotes1 denotes2, subtractRegion_denotes denotes1 denotes2,
    unionRegion_denotes denotes1 denotes2,
    xorRegion_denotes dstLive live1 live2 denotes1 denotes2⟩

/-- Two overlapping squares. -/
def overlappingSquares : Heap where
  region id :=
    if id = 0 then ⟨2, [⟨0, 0, 2, 2⟩], ⟨0, 0, 2, 2⟩⟩
    else ⟨2, [⟨1, 1, 3, 3⟩], ⟨1, 1, 3, 3⟩⟩
  nextId := 2

theorem regionOperations_pointwise_squares : (overlappingSquares.region 0).WellFormed ∧
      (overlappingSquares.region 1).WellFormed ∧
      Denotes ((xorRegion overlappingSquares 0 0 1).region 0) fun x y =>
        (Contains [⟨0, 0, 2, 2⟩] x y ∧ ¬ Contains [⟨1, 1, 3, 3⟩] x y) ∨
          (Contains [⟨1, 1, 3, 3⟩] x y ∧ ¬ Contains [⟨0, 0, 2, 2⟩] x y) :=
  ⟨by decide, by decide, (regionOperations_pointwise overlappingSquares 0 0 1
      (by decide) (by decide) (by decide) (by decide) (by decide)).2.2.2⟩

end WineRedRose.Regions
