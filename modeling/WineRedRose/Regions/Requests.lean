import WineRedRose.Regions.Algebra

/-!
# Regions in requests

Clients send a region as the list of its rectangles and get it back in the same
form; one empty rectangle stands for the empty region.  The data of a request is
the list of the rectangles that fit its size.
-/

namespace WineRedRose.Regions

open List

/-- `create_region_from_req_data`; nothing is given for a list that is not banded. -/
def createRegionFromReqData (data : List Rect) : Option Region :=
  let rects := if data = [emptyRect] then [] else data
  if validateRectangles rects then
    some (setRegionExtents ⟨max rects.length rgnDefaultRects, rects, emptyRect⟩)
  else none

/-- The size of a `rectangle_t`. -/
def rectSize : Nat := 16

/-- `get_region_data`: the data, if the client has the room for it, and its size,
a word of 32 bits. -/
def getRegionData (region : Region) (maxSize : Nat) : Option (List Rect) × Nat :=
  let size := region.rects.length * rectSize % 2 ^ 32
  let (totalSize, data) := if size = 0 then (rectSize, [emptyRect]) else (size, region.rects)
  (if maxSize ≥ totalSize then some (data.take (totalSize / rectSize)) else none, totalSize)

/-- The loop of `rect_in_region`. -/
def rectInRects (rect : Rect) : List Rect → Bool
  | [] => false
  | ptr :: rects =>
    if ptr.top ≥ rect.bottom then false
    else if ptr.bottom ≤ rect.top then rectInRects rect rects
    else if ptr.left ≥ rect.right then rectInRects rect rects
    else if ptr.right ≤ rect.left then rectInRects rect rects
    else true

/-- `rect_in_region`. -/
def rectInRegion (region : Region) (rect : Rect) : Bool := rectInRects rect region.rects

variable {rects : List Rect} {region : Region} {data : List Rect}

/-- Two rectangles have a common point if their sides overlap. -/
theorem exists_common_iff {rect ptr : Rect} (proper : rect.Proper) (proper' : ptr.Proper) :
    (∃ x y, Contains [rect] x y ∧ Contains [ptr] x y) ↔ ptr.top < rect.bottom ∧
      rect.top < ptr.bottom ∧ ptr.left < rect.right ∧ rect.left < ptr.right := by
  unfold Rect.Proper at proper proper'
  simp only [contains_cons, contains_nil, or_false]
  constructor
  · rintro ⟨x, y, inside, inside'⟩
    omega
  · intro overlap
    refine ⟨max rect.left ptr.left, max rect.top ptr.top, ?_⟩
    omega

/-- The early exit of `rect_in_region` does not change its answer. -/
theorem rectInRects_iff {rect : Rect} (proper : rect.Proper) (banded : Banded rects) :
    rectInRects rect rects = true ↔ ∃ x y, Contains [rect] x y ∧ Contains rects x y := by
  induction rects with
  | nil => simp [rectInRects]
  | cons ptr rects ih =>
    have tops := head_le_of_mem banded
    rcases banded_cons.mp banded with ⟨proper', -, tail⟩
    have split : (∃ x y, Contains [rect] x y ∧ Contains (ptr :: rects) x y) ↔
        (∃ x y, Contains [rect] x y ∧ Contains [ptr] x y) ∨ rectInRects rect rects = true := by
      have cons : ptr :: rects = [ptr] ++ rects := rfl
      rw [ih tail]
      simp only [cons, contains_append, and_or_left, exists_or]
    rw [split, exists_common_iff proper proper', rectInRects]
    split_ifs with below above right left
    · -- no later rectangle starts above this one
      refine iff_of_false not_false (not_or.mpr ⟨by omega, ?_⟩)
      rw [ih tail]
      rintro ⟨x, y, inside, later, member, -, top, -⟩
      have := (tops later (mem_cons_of_mem _ member)).1
      simp only [contains_cons, contains_nil, or_false] at inside
      omega
    all_goals simp; omega

/-- The rectangles that a list of a request stands for. -/
def sentRects (data : List Rect) : List Rect := if data = [emptyRect] then [] else data

/-- What a list that is sent and accepted becomes. -/
theorem createRegionFromReqData_eq_some (accepted : createRegionFromReqData data = some region) :
    region.rects = sentRects data ∧ Banded region.rects ∧
      region.extents = regionExtents region.rects := by
  have unfolded : createRegionFromReqData data = if validateRectangles (sentRects data) then
      some (setRegionExtents
        ⟨max (sentRects data).length rgnDefaultRects, sentRects data, emptyRect⟩) else none := rfl
  rw [unfolded] at accepted
  split_ifs at accepted with valid
  cases accepted
  exact ⟨rfl, validateRectangles_iff.mp valid, rfl⟩

theorem length_sentRects_le : (sentRects data).length ≤ data.length := by
  unfold sentRects
  split <;> simp

/-- The list that is sent for a region. -/
def Region.sent (region : Region) : List Rect :=
  if region.rects = [] then [emptyRect] else region.rects

/-- Without a wrap of the size, the whole list is sent if there is room for it. -/
theorem getRegionData_eq (word : region.rects.length * rectSize < 2 ^ 32) (maxSize : Nat) :
    getRegionData region maxSize =
      (if region.sent.length * rectSize ≤ maxSize then some region.sent else none,
        region.sent.length * rectSize) := by
  rw [getRegionData, Nat.mod_eq_of_lt word]
  by_cases empty : region.rects = []
  · simp [Region.sent, empty, rectSize]
  · have count : region.rects.length * rectSize ≠ 0 :=
      Nat.mul_ne_zero (mt length_eq_zero_iff.mp empty) (by decide)
    have whole : region.rects.length * rectSize / rectSize = region.rects.length :=
      Nat.mul_div_cancel _ (by decide)
    simp [Region.sent, empty, count, whole]

/-- The list that is sent for a banded region is accepted again. -/
theorem createRegionFromReqData_sent (banded : Banded region.rects) :
    ∃ region', createRegionFromReqData region.sent = some region' ∧
      region'.rects = region.rects ∧ region'.extents = regionExtents region.rects := by
  have rects : sentRects region.sent = region.rects := by
    by_cases empty : region.rects = []
    · simp [Region.sent, sentRects, empty]
    · have other : region.rects ≠ [emptyRect] := by
        intro single
        have proper := banded.1 emptyRect (single ▸ mem_singleton_self _)
        exact absurd proper.1 (lt_irrefl _)
      simp [Region.sent, sentRects, empty, other]
  have valid := validateRectangles_iff.mpr banded
  rw [← rects] at valid ⊢
  exact ⟨_, if_pos valid, rfl, rfl⟩

/-- For every list that is accepted, its rectangles are those of the region, the
two tests find their points, and the region can be sent and read back by a client
that has room for sixteen bytes for each rectangle, or for one if there is none. -/
theorem request_regions_exact (data : List Rect) (region : Region)
    (size : data.length * rectSize < 2 ^ 32)
    (accepted : createRegionFromReqData data = some region) :
    region.rects = sentRects data ∧
      (∀ x y, pointInRegion region x y = true ↔ Contains region.rects x y) ∧
      (∀ rect, isRectEmpty rect = false → (rectInRegion region rect = true ↔
        ∃ x y, Contains [rect] x y ∧ Contains region.rects x y)) ∧
      ∀ maxSize, (getRegionData region maxSize).2 = max 1 region.rects.length * 16 ∧
        (max 1 region.rects.length * 16 ≤ maxSize → ∃ data' region',
          (getRegionData region maxSize).1 = some data' ∧
            createRegionFromReqData data' = some region' ∧
            region'.rects = region.rects ∧ region'.extents = region.extents) := by
  rcases createRegionFromReqData_eq_some accepted with ⟨rects, banded, extents⟩
  have word : region.rects.length * rectSize < 2 ^ 32 := by
    rw [rects]
    exact (Nat.mul_le_mul_right _ length_sentRects_le).trans_lt size
  have count : region.sent.length = max 1 region.rects.length := by
    by_cases empty : region.rects = []
    · simp [Region.sent, empty]
    · simp [Region.sent, empty, Nat.one_le_iff_ne_zero]
  refine ⟨rects, fun x y => pointInRects_iff banded, fun rect proper =>
    rectInRects_iff (not_isRectEmpty_iff.mp proper) banded, fun maxSize => ?_⟩
  rw [getRegionData_eq word, count]
  refine ⟨rfl, fun room => ?_⟩
  obtain ⟨region', created, same, sameExtents⟩ := createRegionFromReqData_sent banded
  exact ⟨region.sent, region', if_pos room, created, same, sameExtents.trans extents.symm⟩

/-- Two bands, with a point of the second one, and the empty region are read back. -/
theorem request_regions_exact_bands :
    let bands : Region := ⟨2, [⟨0, 0, 1, 1⟩, ⟨0, 1, 2, 2⟩], ⟨0, 0, 2, 2⟩⟩
    let empty : Region := ⟨2, [], emptyRect⟩
    createRegionFromReqData [⟨0, 0, 1, 1⟩, ⟨0, 1, 2, 2⟩] = some bands ∧
      createRegionFromReqData [emptyRect] = some empty ∧
      (pointInRegion bands 1 1 = true ↔ Contains bands.rects 1 1) ∧
      (∃ data region, (getRegionData bands 32).1 = some data ∧
        createRegionFromReqData data = some region ∧
        region.rects = bands.rects ∧ region.extents = bands.extents) ∧
      ∃ data region, (getRegionData empty 16).1 = some data ∧
        createRegionFromReqData data = some region ∧
        region.rects = empty.rects ∧ region.extents = empty.extents := by
  have bands := request_regions_exact [⟨0, 0, 1, 1⟩, ⟨0, 1, 2, 2⟩] _ (by decide) rfl
  have empty := request_regions_exact [emptyRect] _ (by decide) rfl
  refine ⟨rfl, rfl, bands.2.1 1 1, (bands.2.2.2 32).2 (by decide), ?_⟩
  exact (empty.2.2.2 16).2 (by decide)

end WineRedRose.Regions
