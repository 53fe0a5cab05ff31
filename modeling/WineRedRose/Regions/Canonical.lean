import WineRedRose.Regions.Algebra

/-!
# Canonical regions

One set of points has many banded lists, since a band can be cut into two
that touch.  A region is canonical if no band could be merged with the one
below it.  In terms of points this says that every band ends at a line where
the set changes, and then the set determines the list.

The sweep keeps this form: it coalesces every band that it adds with the last
one before it, and the bands that its tail copies come from one source.
-/

namespace WineRedRose.Regions

open Library.Spans List Region

/-! ## Bands that cannot be merged -/

/-- The bands of a list of rectangles. -/
def bands (rects : List Rect) : List (List Rect) :=
  match rects with
  | [] => []
  | head :: rest => bandOf (head :: rest) :: bands (afterBand (head :: rest))
termination_by rects.length
decreasing_by exact length_afterBand_lt head rest

/-- The bands touch and have the same list of spans. -/
def Mergeable (above below : List Rect) : Prop :=
  above.head?.map Rect.bottom = below.head?.map Rect.top ∧ above.map Rect.span = below.map Rect.span

/--
A region is canonical if it is well formed and no two consecutive bands could
be merged.
-/
def Region.Canonical (region : Region) : Prop := region.WellFormed ∧
    (bands region.rects).IsChain fun above below => ¬ Mergeable above below

/-- Every rectangle of the list ends where the points of the list change. -/
def Tight (rects : List Rect) : Prop := Settled (Contains rects) rects

section FirstBand

variable {head : Rect} {tail : List Rect}

section

variable (banded : Banded (head :: tail))
include banded

/-- The last line of the first band. -/
theorem contains_lastLine (x : Int) : Contains (head :: tail) x (head.bottom - 1) ↔
      Covers ((bandOf (head :: tail)).map Rect.span) x := by
  have tall := (banded.1 head mem_cons_self).2
  rw [contains_head banded x (by omega), and_iff_left (by omega)]

theorem covers_headLeft : Covers ((bandOf (head :: tail)).map Rect.span) head.left :=
  ⟨head.span, mem_map_of_mem mem_cons_self, le_rfl, (banded.1 head mem_cons_self).1⟩

/-- A first band with an empty line below it ends at a change. -/
theorem changes_bottom_of_empty (empty : ∀ x, ¬ Contains (afterBand (head :: tail)) x head.bottom) :
    Changes (Contains (head :: tail)) head.bottom := by
  refine ⟨head.left, fun same => empty head.left ?_⟩
  rw [← contains_afterBand banded head.left le_rfl, ← same, contains_lastLine banded]
  exact covers_headLeft banded

/-- The first band ends at a change unless it could be merged. -/
theorem changes_bottom_iff : Changes (Contains (head :: tail)) head.bottom ↔ ∀ next ∈
      (bands (afterBand (head :: tail))).head?, ¬ Mergeable (bandOf (head :: tail)) next := by
  have bandedAfter := (banded_bandOf banded).2
  have below := bottom_le_afterBand banded
  have empty := changes_bottom_of_empty banded
  have nextLine := fun x => contains_afterBand banded x le_rfl
  cases after : afterBand (head :: tail) with
  | nil =>
    rw [after] at empty
    exact iff_of_true (empty fun x => contains_nil) (by simp [bands])
  | cons next rest =>
    rw [after] at bandedAfter below empty nextLine
    have tall := (bandedAfter.1 next mem_cons_self).2
    have order := below next mem_cons_self
    have mergeable : Mergeable (bandOf (head :: tail)) (bandOf (next :: rest)) ↔
        head.bottom = next.top ∧ (bandOf (head :: tail)).map Rect.span =
        (bandOf (next :: rest)).map Rect.span := by
      simp [Mergeable, bandOf]
    simp only [bands, head?_cons, Option.mem_some_iff, forall_eq', mergeable]
    rcases order.lt_or_eq with gap | meets
    · refine iff_of_true (empty fun x => ?_) fun both => gap.ne both.1
      rw [contains_head bandedAfter x (by omega)]
      exact fun inside => not_le.mpr gap inside.2
    · have lines : ∀ x, (Contains (head :: tail) x (head.bottom - 1) ↔
              Contains (head :: tail) x head.bottom) ↔
            (Covers ((bandOf (head :: tail)).map Rect.span) x ↔
              Covers ((bandOf (next :: rest)).map Rect.span) x) := by
        intro x
        rw [contains_lastLine banded, nextLine x, contains_head bandedAfter x (meets ▸ tall),
          and_iff_left meets.ge]
      rw [Changes, ← not_forall, and_iff_right meets]
      refine not_congr ⟨fun same => ?_, fun equal x => ?_⟩
      · exact (separated_bandOf banded).eq_of_covers (separated_bandOf bandedAfter)
          fun x => (lines x).mp (same x)
      · rw [lines, equal]

/-- Below the first band, the points change where those of the rest do. -/
theorem changes_afterBand_iff {rect : Rect} (member : rect ∈ afterBand (head :: tail)) :
    Changes (Contains (head :: tail)) rect.bottom ↔
      Changes (Contains (afterBand (head :: tail))) rect.bottom := by
  have top := bottom_le_afterBand banded rect member
  have tall := ((banded_bandOf banded).2.1 rect member).2
  have same : ∀ x, ∀ line ≥ rect.bottom - 1, Contains (head :: tail) x line ↔
      Contains (afterBand (head :: tail)) x line :=
    fun x line low => contains_afterBand banded x (by omega)
  exact ⟨fun changes => changes.congr same, fun changes =>
    changes.congr fun x line low => (same x line low).symm⟩

theorem tight_cons : Tight (head :: tail) ↔
      Changes (Contains (head :: tail)) head.bottom ∧ Tight (afterBand (head :: tail)) := by
  constructor
  · intro tight
    exact ⟨tight head mem_cons_self, fun rect member =>
      (changes_afterBand_iff banded member).mp (tight rect (mem_of_mem_afterBand member))⟩
  · rintro ⟨first, rest⟩ rect member
    rw [← bandOf_append_afterBand (head :: tail)] at member
    rcases mem_append.mp member with member | member
    · rw [(level_bandOf banded rect member).2]
      exact first
    · exact (changes_afterBand_iff banded member).mpr (rest rect member)

end

end FirstBand

/-- No bands can be merged exactly if every band ends at a change. -/
theorem tight_iff {rects : List Rect} (banded : Banded rects) :
    Tight rects ↔ (bands rects).IsChain fun above below => ¬ Mergeable above below := by
  fun_induction bands rects with
  | case1 => exact iff_of_true (settled_nil _) isChain_nil
  | case2 head rest ih =>
    rw [tight_cons banded, changes_bottom_iff banded, ih (banded_bandOf banded).2, isChain_cons]

theorem Region.canonical_iff (region : Region) :
    region.Canonical ↔ region.WellFormed ∧ Tight region.rects := by
  refine and_congr_right fun wellFormed => ?_
  exact (tight_iff (validateRectangles_iff.mp wellFormed.1)).symm

/-! ## Canonical lists are determined by their points -/

section Unique

variable {head1 head2 : Rect} {tail1 tail2 : List Rect}

section

variable (banded1 : Banded (head1 :: tail1)) (banded2 : Banded (head2 :: tail2))
include banded1 banded2

/-- Lists with the same points start at the same line. -/
theorem top_le_of_contains
    (same : ∀ x y, Contains (head1 :: tail1) x y ↔ Contains (head2 :: tail2) x y) :
    head1.top ≤ head2.top := by
  have proper := banded2.1 head2 mem_cons_self
  by_contra higher
  exact not_contains_above banded1 (not_le.mp higher)
    ((same head2.left head2.top).mpr ⟨head2, mem_cons_self, ⟨le_rfl, proper.1⟩, le_rfl, proper.2⟩)

/-- A tight list does not end its first band before the lines change. -/
theorem bottom_le_of_contains (top : head1.top = head2.top) (tight : Tight (head2 :: tail2))
    (same : ∀ x y, Contains (head1 :: tail1) x y ↔ Contains (head2 :: tail2) x y) :
    head1.bottom ≤ head2.bottom := by
  have tall := (banded2.1 head2 mem_cons_self).2
  by_contra longer
  rcases tight head2 mem_cons_self with ⟨x, differs⟩
  apply differs
  rw [← same, ← same, contains_head banded1 x (by omega), contains_head banded1 x (by omega)]
  refine and_congr_right fun _ => iff_of_true ?_ ?_
  all_goals omega

omit banded1 banded2 in
/-- The rest of a list has the points from the end of its first band on. -/
theorem contains_rest (banded : Banded (head1 :: tail1)) (x y : Int) :
    Contains (afterBand (head1 :: tail1)) x y ↔
      Contains (head1 :: tail1) x y ∧ head1.bottom ≤ y := by
  constructor
  · rintro ⟨rect, member, inside⟩
    have below := bottom_le_afterBand banded rect member
    exact ⟨⟨rect, mem_of_mem_afterBand member, inside⟩, below.trans inside.2.1⟩
  · rintro ⟨inside, low⟩
    exact (contains_afterBand banded x low).mp inside

/-- Tight lists with the same points have the same first band. -/
theorem bandOf_eq_of_contains (tight1 : Tight (head1 :: tail1)) (tight2 : Tight (head2 :: tail2))
    (same : ∀ x y, Contains (head1 :: tail1) x y ↔ Contains (head2 :: tail2) x y) :
    head1.bottom = head2.bottom ∧ bandOf (head1 :: tail1) = bandOf (head2 :: tail2) := by
  have same' := fun x y => (same x y).symm
  have top : head1.top = head2.top := le_antisymm (top_le_of_contains banded1 banded2 same)
      (top_le_of_contains banded2 banded1 same')
  have bottom : head1.bottom = head2.bottom :=
    le_antisymm (bottom_le_of_contains banded1 banded2 top tight2 same)
      (bottom_le_of_contains banded2 banded1 top.symm tight1 same')
  have spans : (bandOf (head1 :: tail1)).map Rect.span =
      (bandOf (head2 :: tail2)).map Rect.span := by
    refine (separated_bandOf banded1).eq_of_covers (separated_bandOf banded2) fun x => ?_
    rw [← contains_lastLine banded1, ← contains_lastLine banded2, same, bottom]
  refine ⟨bottom, ?_⟩
  rw [(level_bandOf banded1).eq_onLevel, (level_bandOf banded2).eq_onLevel, spans, top, bottom]

end

end Unique

/-- Tight banded lists are determined by their points. -/
theorem Tight.eq_of_contains {rects1 rects2 : List Rect} (banded1 : Banded rects1)
    (banded2 : Banded rects2) (tight1 : Tight rects1) (tight2 : Tight rects2)
    (same : ∀ x y, Contains rects1 x y ↔ Contains rects2 x y) :
    rects1 = rects2 := by
  -- The induction takes one band off both lists.
  induction rects1 using bands.induct generalizing rects2 with
  | case1 =>
    cases rects2 with
    | nil => rfl
    | cons head tail =>
      have corner := (contains_corner banded2 mem_cons_self).1
      exact absurd ((same _ _).mpr corner) contains_nil
  | case2 head1 tail1 ih =>
    cases rects2 with
    | nil =>
      have corner := (contains_corner banded1 mem_cons_self).1
      exact absurd ((same _ _).mp corner) contains_nil
    | cons head2 tail2 =>
      rcases bandOf_eq_of_contains banded1 banded2 tight1 tight2 same with ⟨bottom, first⟩
      have rest : afterBand (head1 :: tail1) = afterBand (head2 :: tail2) := by
        refine ih (banded_bandOf banded1).2 (banded_bandOf banded2).2
          ((tight_cons banded1).mp tight1).2
          ((tight_cons banded2).mp tight2).2 fun x y => ?_
        rw [contains_rest banded1, contains_rest banded2, same, bottom]
      rw [← bandOf_append_afterBand (head1 :: tail1), first, rest, bandOf_append_afterBand]

/-! ## Comparing regions -/

@[simp]
theorem isRectEqual_iff (rect1 rect2 : Rect) : isRectEqual rect1 rect2 = true ↔ rect1 = rect2 := by
  cases rect1
  cases rect2
  simp only [isRectEqual, Bool.and_eq_true, decide_eq_true_eq, Rect.mk.injEq]
  tauto

theorem all_isRectEqual_iff {rects1 rects2 : List Rect} (length : rects1.length = rects2.length) :
    (rects1.zip rects2).all (fun pair => isRectEqual pair.1 pair.2) = true ↔ rects1 = rects2 := by
  induction rects1 generalizing rects2 with
  | nil =>
    cases rects2 with
    | nil => simp
    | cons head tail => simp at length
  | cons head1 tail1 ih =>
    cases rects2 with
    | nil => simp at length
    | cons head2 tail2 =>
      have tails := ih (Nat.succ.inj length)
      simp only [zip_cons_cons, all_cons, Bool.and_eq_true, isRectEqual_iff, tails, cons.injEq]

/-- `is_region_equal` compares the rectangles, and the extents if any. -/
theorem isRegionEqual_iff (region1 region2 : Region) : isRegionEqual region1 region2 = true ↔
      region1.rects = region2.rects ∧ (region1.rects = [] ∨ region1.extents = region2.extents) := by
  rw [isRegionEqual]
  split_ifs with length empty extents
  · simp only [false_iff]
    exact fun equal => length (congrArg List.length equal.1)
  · have none1 := length_eq_zero_iff.mp empty
    have none2 := length_eq_zero_iff.mp ((not_not.mp length).symm.trans empty)
    simp [none1, none2]
  · simp only [false_iff]
    rintro ⟨-, none1 | equal⟩
    · exact empty (length_eq_zero_iff.mpr none1)
    · rw [(isRectEqual_iff _ _).mpr equal] at extents
      exact Bool.false_ne_true extents
  · have equal : region1.extents = region2.extents := by simpa using extents
    rw [all_isRectEqual_iff (not_not.mp length)]
    simp [equal]

/-- On canonical regions, `is_region_equal` compares the points. -/
theorem isRegionEqual_iff_points {region1 region2 : Region} (canonical1 : region1.Canonical)
    (canonical2 : region2.Canonical) : isRegionEqual region1 region2 = true ↔
      ∀ x y, Contains region1.rects x y ↔ Contains region2.rects x y := by
  rcases (canonical_iff _).mp canonical1 with ⟨⟨valid1, box1⟩, tight1⟩
  rcases (canonical_iff _).mp canonical2 with ⟨⟨valid2, box2⟩, tight2⟩
  have banded1 := validateRectangles_iff.mp valid1
  have banded2 := validateRectangles_iff.mp valid2
  rw [isRegionEqual_iff]
  constructor
  · rintro ⟨rects, -⟩ x y
    rw [rects]
  · intro same
    have rects := Tight.eq_of_contains banded1 banded2 tight1 tight2 same
    refine ⟨rects, .inr ?_⟩
    rw [box1, box2, setRegionExtents, setRegionExtents, rects]

/-! ## The operations -/

section Operations

variable {heap : Heap} {dst src1 src2 : RegionId}

@[simp]
theorem copyRegion_rects (src : RegionId) :
    ((copyRegion heap dst src).region dst).rects = (heap.region src).rects := by
  rw [copyRegion]
  split
  next same => rw [same]
  next => simp

variable (dst) in
/-- `region_op` on tight sources that are not empty. -/
theorem regionOp_tight {op : Prop → Prop → Prop} {overlap : OverlapFunc}
    {non1 non2 : Option NonOverlapFunc} (operation : BandOperation op overlap non1 non2)
    (canonical1 : (heap.region src1).Canonical) (canonical2 : (heap.region src2).Canonical)
    (nonempty1 : (heap.region src1).rects ≠ []) (nonempty2 : (heap.region src2).rects ≠ []) :
    Tight ((regionOp heap dst src1 src2 overlap non1 non2).region dst).rects := by
  rcases (canonical_iff _).mp canonical1 with ⟨formed1, tight1⟩
  rcases (canonical_iff _).mp canonical2 with ⟨formed2, tight2⟩
  rcases regionOp_denotes dst operation formed1.denotes_contains formed2.denotes_contains
    nonempty1 nonempty2 with ⟨-, mem, settled⟩
  intro rect member
  refine (settled tight1 tight2 rect member).congr fun x line _ => ?_
  exact (mem x line).symm

section

variable (canonical1 : (heap.region src1).Canonical) (canonical2 : (heap.region src2).Canonical)
include canonical1 canonical2

theorem intersectRegion_canonical :
    ((intersectRegion heap dst src1 src2).region dst).Canonical := by
  rw [canonical_iff]
  refine ⟨(intersectRegion_denotes canonical1.1.denotes canonical2.1.denotes).wellFormed, ?_⟩
  simp only [intersectRegion]
  split
  next =>
    rw [Heap.set_region_self]
    exact settled_nil _
  next run =>
    rcases nonempty_of_not_shortcut run with ⟨nonempty1, nonempty2⟩
    rw [Heap.set_region_self]
    exact regionOp_tight dst intersect_bandOperation canonical1 canonical2 nonempty1 nonempty2

theorem subtractRegion_canonical : ((subtractRegion heap dst src1 src2).region dst).Canonical := by
  rw [canonical_iff]
  refine ⟨(subtractRegion_denotes canonical1.1.denotes canonical2.1.denotes).wellFormed, ?_⟩
  simp only [subtractRegion]
  split
  next =>
    rw [copyRegion_rects]
    exact ((canonical_iff _).mp canonical1).2
  next run =>
    rcases nonempty_of_not_shortcut run with ⟨nonempty1, nonempty2⟩
    rw [Heap.set_region_self]
    exact regionOp_tight dst subtract_bandOperation canonical1 canonical2 nonempty1 nonempty2

theorem unionRegion_canonical : ((unionRegion heap dst src1 src2).region dst).Canonical := by
  rw [canonical_iff]
  refine ⟨(unionRegion_denotes canonical1.1.denotes canonical2.1.denotes).wellFormed, ?_⟩
  have tight1 := ((canonical_iff _).mp canonical1).2
  have tight2 := ((canonical_iff _).mp canonical2).2
  simp only [unionRegion]
  split_ifs with same empty1 empty2 covers1 covers2
  · rwa [copyRegion_rects]
  · rwa [copyRegion_rects]
  · rwa [copyRegion_rects]
  · rwa [copyRegion_rects]
  · rwa [copyRegion_rects]
  · rw [List.isEmpty_iff] at empty1 empty2
    rw [Heap.set_region_self]
    exact regionOp_tight dst union_bandOperation canonical1 canonical2 empty1 empty2

end

/-- `xor_region` composes the other operations over a fresh region. -/
theorem xorRegion_canonical (dstLive : dst < heap.nextId) (live1 : src1 < heap.nextId)
    (live2 : src2 < heap.nextId) (canonical1 : (heap.region src1).Canonical)
    (canonical2 : (heap.region src2).Canonical) :
    ((xorRegion heap dst src1 src2).region dst).Canonical := by
  exact xorRegion_composes (fun _ region => region.Canonical) (fun _ _ => ()) (fun _ _ => ())
    () () (fun _ _ _ _ _ _ => subtractRegion_canonical)
    (fun _ _ _ _ _ _ => unionRegion_canonical) dstLive live1 live2 canonical1 canonical2

end Operations

/-! ## The canonical form -/

/--
The four operations take canonical regions to canonical regions, and
`is_region_equal` decides whether two canonical regions have the same points.
-/
theorem regionOperations_canonical : (∀ (heap : Heap) (dst src1 src2 : RegionId),
      dst < heap.nextId → src1 < heap.nextId → src2 < heap.nextId →
      (heap.region src1).Canonical → (heap.region src2).Canonical →
      ((intersectRegion heap dst src1 src2).region dst).Canonical ∧
        ((subtractRegion heap dst src1 src2).region dst).Canonical ∧
        ((unionRegion heap dst src1 src2).region dst).Canonical ∧
        ((xorRegion heap dst src1 src2).region dst).Canonical) ∧
    (∀ region1 region2 : Region, region1.Canonical → region2.Canonical →
      (isRegionEqual region1 region2 = true ↔
        ∀ x y, Contains region1.rects x y ↔ Contains region2.rects x y)) := by
  constructor
  · intro heap dst src1 src2 dstLive live1 live2 canonical1 canonical2
    exact ⟨intersectRegion_canonical canonical1 canonical2,
      subtractRegion_canonical canonical1 canonical2,
      unionRegion_canonical canonical1 canonical2,
      xorRegion_canonical dstLive live1 live2 canonical1 canonical2⟩
  · intro region1 region2 canonical1 canonical2
    exact isRegionEqual_iff_points canonical1 canonical2

/-- A region of one rectangle has one band. -/
theorem overlappingSquares_canonical (id : RegionId) :
    (overlappingSquares.region id).Canonical := by
  simp only [overlappingSquares]
  split
  · exact ⟨by decide, by simp [bands, afterBand]⟩
  · exact ⟨by decide, by simp [bands, afterBand]⟩

theorem regionOperations_canonical_squares :
    ((xorRegion overlappingSquares 0 0 1).region 0).Canonical ∧
      ¬ ∀ x y, Contains (overlappingSquares.region 0).rects x y ↔
        Contains (overlappingSquares.region 1).rects x y := by
  have canonical := overlappingSquares_canonical
  constructor
  · exact (regionOperations_canonical.1 overlappingSquares 0 0 1
      (by decide) (by decide) (by decide) (canonical 0) (canonical 1)).2.2.2
  · rw [← regionOperations_canonical.2 _ _ (canonical 0) (canonical 1)]
    decide

/-! ## Operations inside each other -/

inductive SetOp where
  | intersect
  | subtract
  | union
  | xor
deriving DecidableEq, Repr

def SetOp.regions : SetOp → Heap → RegionId → RegionId → RegionId → Heap
  | intersect => intersectRegion
  | subtract => subtractRegion
  | union => unionRegion
  | xor => xorRegion

def SetOp.points : SetOp → Set (Int × Int) → Set (Int × Int) → Set (Int × Int)
  | intersect => (· ∩ ·)
  | subtract => (· \ ·)
  | union => (· ∪ ·)
  | xor => symmDiff

/-- Operations inside each other, on canonical regions. -/
inductive Expression where
  | source (region : Region) (canonical : region.Canonical)
  | combine (op : SetOp) (left right : Expression)

/-- A heap of two regions. -/
def pairOf (first second : Region) : Heap := ⟨fun id => if id = 0 then first else second, 2⟩

/-- The region that is computed, each time into the first source. -/
def Expression.region : Expression → Region
  | source region _ => region
  | combine op left right => (op.regions (pairOf left.region right.region) 0 0 1).region 0

/-- The set that is meant. -/
def Expression.points : Expression → Set (Int × Int)
  | source region _ => {point | pointInRegion region point.1 point.2 = true}
  | combine op left right => op.points left.points right.points

theorem Expression.denotes (e : Expression) :
    e.region.Canonical ∧ Denotes e.region fun x y => (x, y) ∈ e.points := by
  induction e with
  | source region canonical => exact ⟨canonical, canonical.1.denotes⟩
  | combine op left right first second =>
    let heap := pairOf left.region right.region
    have canonical1 : (heap.region 0).Canonical := first.1
    have canonical2 : (heap.region 1).Canonical := second.1
    have denotes1 : Denotes (heap.region 0) _ := first.2
    have denotes2 : Denotes (heap.region 1) _ := second.2
    cases op with
    | intersect => exact ⟨intersectRegion_canonical canonical1 canonical2,
        intersectRegion_denotes denotes1 denotes2⟩
    | subtract => exact ⟨subtractRegion_canonical canonical1 canonical2,
        subtractRegion_denotes denotes1 denotes2⟩
    | union => exact ⟨unionRegion_canonical canonical1 canonical2,
        unionRegion_denotes denotes1 denotes2⟩
    | xor =>
      exact ⟨xorRegion_canonical Nat.two_pos Nat.two_pos Nat.one_lt_two canonical1 canonical2,
        xorRegion_denotes Nat.two_pos Nat.two_pos Nat.one_lt_two denotes1 denotes2⟩

/-- Whatever is computed, the tests answer as they do for the sets. -/
theorem expressions_exact (first second : Expression) :
    (∀ x y, pointInRegion first.region x y = true ↔ (x, y) ∈ first.points) ∧
      (isRegionEqual first.region second.region = true ↔ first.points = second.points) := by
  rcases first.denotes with ⟨canonical1, denotes1⟩
  rcases second.denotes with ⟨canonical2, denotes2⟩
  refine ⟨denotes1.mem, ?_⟩
  rw [isRegionEqual_iff_points canonical1 canonical2, Set.ext_iff, Prod.forall]
  refine forall₂_congr fun x y => ?_
  rw [← denotes1.mem, ← denotes2.mem, canonical1.1.denotes_contains.mem,
    canonical2.1.denotes_contains.mem]

end WineRedRose.Regions
