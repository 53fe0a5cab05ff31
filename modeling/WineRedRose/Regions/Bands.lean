import Mathlib.Data.List.TakeWhile
import WineRedRose.Library.Spans
import WineRedRose.Regions.Model

/-!
# Banded rectangle lists and the band callbacks

`validate_rectangles` compares neighbours only.  Over proper rectangles its
condition is the same as a pairwise one, which survives appending, splitting
and taking bands apart; `Banded` states it in that form.

Inside one band only the horizontal spans matter.  The second half of the
module shows that every band callback appends the rectangles of one list of
spans, computed by the corresponding merge of `Library.Spans`.
-/

namespace WineRedRose.Regions

open Library.Spans List

/-! ## Banded lists -/

/-- The rectangle has a point. -/
def Rect.Proper (rect : Rect) : Prop := rect.left < rect.right ∧ rect.top < rect.bottom

/-- The first rectangle precedes the second one in y-x-banded order. -/
def Before (first second : Rect) : Prop := (first.top = second.top ∧ first.bottom = second.bottom ∧
      first.right < second.left) ∨
    first.bottom ≤ second.top

/-- A y-x-banded list of proper rectangles. -/
def Banded (rects : List Rect) : Prop := (∀ rect ∈ rects, rect.Proper) ∧ rects.Pairwise Before

/-- The point lies in one of the rectangles. -/
def Contains (rects : List Rect) (x y : Int) : Prop := ∃ rect ∈ rects,
    (rect.left ≤ x ∧ x < rect.right) ∧ rect.top ≤ y ∧ y < rect.bottom

variable {rect : Rect}

@[simp]
theorem not_isRectEmpty_iff : isRectEmpty rect = false ↔ rect.Proper := by
  simp [isRectEmpty, Rect.Proper]

variable {x : Int} {y : Int}

@[simp]
theorem contains_nil : ¬ Contains [] x y := by simp [Contains]

variable {rects : List Rect}

@[simp]
theorem contains_cons : Contains (rect :: rects) x y ↔
      ((rect.left ≤ x ∧ x < rect.right) ∧ rect.top ≤ y ∧ y < rect.bottom) ∨ Contains rects x y := by
  simp [Contains]

@[simp]
theorem contains_append (first second : List Rect) :
    Contains (first ++ second) x y ↔ Contains first x y ∨ Contains second x y := by
  simp [Contains, or_and_right, exists_or]

@[simp]
theorem banded_nil : Banded [] := by simp [Banded]

theorem banded_cons {rects : List Rect} :
    Banded (rect :: rects) ↔ rect.Proper ∧ (∀ later ∈ rects, Before rect later) ∧ Banded rects := by
  simp only [Banded, forall_mem_cons, pairwise_cons]
  tauto

theorem banded_append {first second : List Rect} : Banded (first ++ second) ↔
      Banded first ∧ Banded second ∧ ∀ above ∈ first, ∀ below ∈ second, Before above below := by
  simp only [Banded, forall_mem_append, pairwise_append]
  tauto

theorem Before.trans {first second third : Rect} (properSecond : second.Proper)
    (left : Before first second) (right : Before second third) :
    Before first third := by
  unfold Before Rect.Proper at *
  omega

/-- The comparison that `validate_rectangles` makes between neighbours. -/
theorem validateRectangles_cons_cons (next : Rect) :
    validateRectangles (rect :: next :: rects) = true ↔ rect.Proper ∧
        ((rect.top = next.top ∧ rect.bottom = next.bottom ∧ rect.right < next.left) ∨
          (rect.top ≠ next.top ∧ rect.bottom ≤ next.top)) ∧
        validateRectangles (next :: rects) = true := by
  rw [validateRectangles]
  cases empty : isRectEmpty rect with
  | true =>
    have notProper : ¬ rect.Proper := by
      rw [← not_isRectEmpty_iff, empty]
      simp
    simp [notProper]
  | false =>
    have proper := not_isRectEmpty_iff.mp empty
    by_cases sameTop : rect.top = next.top <;>
      by_cases sameBottom : rect.bottom = next.bottom <;>
        simp [sameTop, sameBottom, proper]

/-- `validate_rectangles` accepts exactly the banded lists. -/
theorem validateRectangles_iff : validateRectangles rects = true ↔ Banded rects := by
  induction rects with
  | nil => simp [validateRectangles]
  | cons rect rects ih =>
    cases rects with
    | nil => simp [validateRectangles, banded_cons]
    | cons next rects =>
      rw [validateRectangles_cons_cons, ih, @banded_cons rect]
      constructor
      · rintro ⟨proper, neighbour, banded⟩
        have first : Before rect next := neighbour.imp id And.right
        refine ⟨proper, ?_, banded⟩
        obtain ⟨properNext, later, -⟩ := banded_cons.mp banded
        exact forall_mem_cons.mpr ⟨first, fun other member =>
          first.trans properNext (later other member)⟩
      · rintro ⟨proper, later, banded⟩
        refine ⟨proper, ?_, banded⟩
        have first := later next mem_cons_self
        unfold Before at first
        unfold Rect.Proper at proper
        omega

variable {rects tail : List Rect} {top bottom : Int} {head : Rect} {reg : Region}

/-- The early exits of `point_in_region` do not change its answer. -/
theorem pointInRects_iff (banded : Banded rects) :
    pointInRects x y rects = true ↔ Contains rects x y := by
  induction rects with
  | nil => simp [pointInRects]
  | cons rect rects ih =>
    obtain ⟨proper, later, tail⟩ := banded_cons.mp banded
    have rest := ih tail
    -- What follows lies in the same band further right, or below it.
    have after : Contains rects x y → (y < rect.bottom → rect.top ≤ y ∧ rect.right < x) := by
      rintro ⟨other, member, ⟨left, -⟩, top, -⟩ above
      have order := later other member
      unfold Before at order
      omega
    unfold Rect.Proper at proper
    rw [pointInRects, contains_cons]
    split_ifs with below passed before beyond
    · rw [or_iff_right (by omega)]
      exact iff_of_false nofun fun inside => by have := after inside; omega
    · rw [rest, or_iff_right (by omega)]
    · rw [or_iff_right (by omega)]
      exact iff_of_false nofun fun inside => by have := after inside; omega
    · rw [rest, or_iff_right (by omega)]
    · simp only [true_iff]
      exact .inl (by omega)

/-! ## Bands -/

/-- The horizontal span of a rectangle. -/
def Rect.span (rect : Rect) : Span Int := ⟨rect.left, rect.right⟩

/-- The rectangles with the given spans in one band. -/
def onLevel (top bottom : Int) (spans : List (Span Int)) : List Rect :=
  spans.map fun span => ⟨span.lo, top, span.hi, bottom⟩

/-- All rectangles have the given vertical extent. -/
def Level (top bottom : Int) (rects : List Rect) : Prop :=
  ∀ rect ∈ rects, rect.top = top ∧ rect.bottom = bottom

variable {spans : List (Span Int)}

theorem level_onLevel : Level top bottom (onLevel top bottom spans) := by simp [Level, onLevel]

@[simp]
theorem spans_onLevel : (onLevel top bottom spans).map Rect.span = spans := by
  simp [onLevel, Rect.span, Function.comp_def]

theorem Level.eq_onLevel (level : Level top bottom rects) :
    rects = onLevel top bottom (rects.map Rect.span) := by
  nth_rewrite 1 [← map_id rects]
  rw [onLevel, map_map]
  refine map_congr_left fun rect member => ?_
  obtain ⟨rfl, rfl⟩ := level rect member
  rfl

@[simp]
theorem contains_onLevel (top bottom : Int) (spans : List (Span Int)) (x y : Int) :
    Contains (onLevel top bottom spans) x y ↔ Covers spans x ∧ top ≤ y ∧ y < bottom := by
  constructor
  · rintro ⟨rect, member, horizontal, vertical⟩
    obtain ⟨span, spanMember, rfl⟩ := mem_map.mp member
    exact ⟨⟨span, spanMember, horizontal⟩, vertical⟩
  · rintro ⟨⟨span, member, horizontal⟩, vertical⟩
    exact ⟨_, mem_map_of_mem member, horizontal, vertical⟩

theorem banded_onLevel (separated : Separated spans) (tall : top < bottom) :
    Banded (onLevel top bottom spans) := by
  refine ⟨?_, ?_⟩
  · intro rect member
    obtain ⟨span, spanMember, rfl⟩ := mem_map.mp member
    exact ⟨separated.1 span spanMember, tall⟩
  · rw [onLevel, pairwise_map]
    exact separated.2.imp fun {left right} apart => .inl ⟨rfl, rfl, apart⟩

theorem separated_spans (banded : Banded rects) (level : Level top bottom rects) :
    Separated (rects.map Rect.span) := by
  refine ⟨?_, ?_⟩
  · intro span member
    obtain ⟨rect, rectMember, rfl⟩ := mem_map.mp member
    exact (banded.1 rect rectMember).1
  · rw [pairwise_map]
    refine banded.2.imp_of_mem ?_
    intro first second firstMember secondMember order
    have firstLevel := level first firstMember
    have secondLevel := level second secondMember
    have proper := banded.1 first firstMember
    unfold Before at order
    unfold Rect.Proper at proper
    simp only [Rect.span]
    omega

theorem separated_of_onLevel (banded : Banded (onLevel top bottom spans)) : Separated spans := by
  simpa using separated_spans banded level_onLevel

@[simp]
theorem bandOf_append_afterBand (rects : List Rect) : bandOf rects ++ afterBand rects = rects := by
  cases rects with
  | nil => rfl
  | cons rect rects => simp [bandOf, afterBand]

theorem level_bandOf (banded : Banded (rect :: rects)) :
    Level rect.top rect.bottom (bandOf (rect :: rects)) := by
  obtain ⟨proper, later, -⟩ := banded_cons.mp banded
  intro other member
  rcases mem_cons.mp member with rfl | member
  · exact ⟨rfl, rfl⟩
  · have sameTop : other.top = rect.top := by simpa using mem_takeWhile_imp member
    have order := later other (takeWhile_sublist _ |>.subset member)
    unfold Before at order
    unfold Rect.Proper at proper
    omega

theorem banded_bandOf (banded : Banded rects) :
    Banded (bandOf rects) ∧ Banded (afterBand rects) := by
  rw [← bandOf_append_afterBand rects, banded_append] at banded
  exact ⟨banded.1, banded.2.1⟩

theorem separated_bandOf (banded : Banded (head :: tail)) :
    Separated ((bandOf (head :: tail)).map Rect.span) :=
  separated_spans (banded_bandOf banded).1 (level_bandOf banded)

/-- No rectangle starts or ends above the first one. -/
theorem head_le_of_mem (banded : Banded (head :: tail)) :
    ∀ rect ∈ head :: tail, head.top ≤ rect.top ∧ head.bottom ≤ rect.bottom := by
  obtain ⟨proper, later, bandedTail⟩ := banded_cons.mp banded
  refine forall_mem_cons.mpr ⟨⟨le_rfl, le_rfl⟩, fun rect member => ?_⟩
  have order := later rect member
  have properRect := bandedTail.1 rect member
  unfold Before at order
  unfold Rect.Proper at proper properRect
  omega

/-- The next band lies below the current one. -/
theorem bottom_le_afterBand (banded : Banded (rect :: rects)) :
    ∀ later ∈ afterBand (rect :: rects), rect.bottom ≤ later.top := by
  -- Only the first rectangle after the band is known to differ in its top.
  obtain ⟨proper, before, -⟩ := banded_cons.mp banded
  obtain ⟨-, bandedAfter⟩ := banded_bandOf banded
  have memberOf : ∀ other ∈ afterBand (rect :: rects), other ∈ rects :=
    fun other member => dropWhile_suffix _ |>.subset member
  cases after : afterBand (rect :: rects) with
  | nil => simp
  | cons head rest =>
    rw [after] at bandedAfter memberOf
    have differs : head.top ≠ rect.top := by
      have dropped := head?_dropWhile_not (fun other : Rect => decide (other.top = rect.top)) rects
      rw [show rects.dropWhile (fun other => decide (other.top = rect.top)) =
        head :: rest from after] at dropped
      simpa using dropped
    have headBelow : rect.bottom ≤ head.top := by
      have order := before head (memberOf head mem_cons_self)
      unfold Before at order
      omega
    exact fun later member => headBelow.trans (head_le_of_mem bandedAfter later member).1

/-! ## The points of the bands that are left -/

section

variable (banded : Banded (head :: tail)) (x : Int) {y : Int}
include banded

/-- The points of a list are those of its first band and of the rest. -/
theorem contains_bands :
    Contains (head :: tail) x y ↔ Covers ((bandOf (head :: tail)).map Rect.span) x ∧
      (head.top ≤ y ∧ y < head.bottom) ∨ Contains (afterBand (head :: tail)) x y := by
  rw [← contains_onLevel, ← (level_bandOf banded).eq_onLevel, ← contains_append,
    bandOf_append_afterBand]

/-- Above its bottom, a list has the points of its first band only. -/
theorem contains_head (above : y < head.bottom) : Contains (head :: tail) x y ↔
      Covers ((bandOf (head :: tail)).map Rect.span) x ∧ head.top ≤ y := by
  have absent : ¬ Contains (afterBand (head :: tail)) x y := by
    rintro ⟨rect, member, -, top, -⟩
    have := bottom_le_afterBand banded rect member
    omega
  rw [contains_bands banded, or_iff_left absent, and_iff_left above]

/-- From its bottom on, the first band has no points. -/
theorem contains_afterBand (below : head.bottom ≤ y) :
    Contains (head :: tail) x y ↔ Contains (afterBand (head :: tail)) x y := by
  rw [contains_bands banded, or_iff_right fun inside => below.not_gt inside.2.2]

end

/-! ## Callbacks -/

@[simp]
theorem addRect_rects : (addRect reg rect).rects = reg.rects ++ [rect] := rfl

theorem copyBand_rects : (copyBand reg rects top bottom).rects =
      reg.rects ++ onLevel top bottom (rects.map Rect.span) := by
  induction rects generalizing reg with
  | nil => simp [copyBand, onLevel]
  | cons rect rects ih =>
    rw [copyBand, ih]
    simp [onLevel, Rect.span]

private theorem overlap_rects (reg : Region) (first second : Rect) (top bottom : Int)
    (rest : List (Span Int)) :
    (if max first.left second.left < min first.right second.right then
        addRect reg ⟨max first.left second.left, top, min first.right second.right, bottom⟩
      else reg).rects ++ onLevel top bottom rest =
      reg.rects ++ onLevel top bottom (overlap first.span second.span ++ rest) := by
  unfold overlap Rect.span
  split_ifs <;> simp [onLevel]

theorem intersectOverlapping_rects (r1 r2 : List Rect) :
    (intersectOverlapping reg r1 r2 top bottom).rects =
      reg.rects ++ onLevel top bottom (inter (r1.map Rect.span) (r2.map Rect.span)) := by
  fun_induction intersectOverlapping reg r1 r2 top bottom with
  | case1 reg h1 r1 h2 r2 top bottom left right reg' shorter ih =>
    rw [ih]
    simp only [map_cons]
    rw [inter]
    simp only [Rect.span, shorter, if_true]
    exact overlap_rects _ _ _ _ _ _
  | case2 reg h1 r1 h2 r2 top bottom left right reg' notShorter longer ih =>
    rw [ih]
    simp only [map_cons]
    rw [Library.Spans.inter.eq_def (_ :: _) (_ :: _)]
    simp only [Rect.span, notShorter, longer, if_true, if_false]
    exact overlap_rects _ _ _ _ _ _
  | case3 reg h1 r1 h2 r2 top bottom left right reg' notShorter notLonger ih =>
    rw [ih]
    simp only [map_cons]
    rw [Library.Spans.inter.eq_def (_ :: _) (_ :: _)]
    simp only [Rect.span, notShorter, notLonger, if_false]
    exact overlap_rects _ _ _ _ _ _
  | case4 reg r1 r2 top bottom oneEmpty =>
    cases r1 with
    | nil => simp [inter, onLevel]
    | cons h1 r1 =>
      cases r2 with
      | nil => simp [inter, onLevel]
      | cons h2 r2 => exact (oneEmpty h1 r1 h2 r2 rfl rfl).elim

theorem startOr_spans (left : Int) : startOr left (rects.map Rect.span) = nextLeft left rects := by
  cases rects <;> rfl

variable {r1 r2 acc : List Rect} {out : List (Span Int)}

/-- Each branch of the subtraction loop is the one of `diffFrom`. -/
theorem subtractLoop_rects {left : Int} (separatedFirst : Separated (trim left (r1.map Rect.span)))
    (separatedSecond : Separated (r2.map Rect.span)) :
    (subtractLoop reg left r1 r2 top bottom).rects =
      reg.rects ++ onLevel top bottom (diffFrom left (r1.map Rect.span) (r2.map Rect.span)) := by
  fun_induction subtractLoop reg left r1 r2 top bottom with
  | case1 => simp [diffFrom, onLevel]
  | case2 reg left h1 r1 top bottom ih =>
    rw [ih (by simpa [← startOr_spans] using separatedFirst.tail) separatedSecond]
    simp [diffFrom, onLevel, startOr_spans, Rect.span]
  | case3 reg left h1 r1 h2 r2 top bottom passed ih =>
    rw [ih separatedFirst separatedSecond.tail]
    simp [diffFrom, Rect.span, passed]
  | case4 reg left h1 r1 h2 r2 top bottom notPassed started swallowed ih =>
    rw [ih (by simpa [← startOr_spans] using separatedFirst.tail) separatedSecond]
    rw [diffFrom.eq_def left]
    simp [Rect.span, notPassed, started, swallowed.le, startOr_spans]
  | case5 reg left h1 r1 h2 r2 top bottom notPassed started reached ih =>
    rw [ih (separatedFirst.trim_of_lt (lt_of_not_ge reached)) separatedSecond.tail]
    rw [diffFrom.eq_def left]
    simp [Rect.span, notPassed, started, not_le.mpr (lt_of_not_ge reached)]
  | case6 reg left h1 r1 h2 r2 top bottom notPassed notStarted meets reg' swallowed ih =>
    rw [ih (by simpa [← startOr_spans] using separatedFirst.tail) separatedSecond]
    rw [diffFrom.eq_def left]
    simp [reg', Rect.span, notPassed, notStarted, meets, swallowed.le, startOr_spans, onLevel]
  | case7 reg left h1 r1 h2 r2 top bottom notPassed notStarted meets reg' reached ih =>
    rw [ih (separatedFirst.trim_of_lt (lt_of_not_ge reached)) separatedSecond.tail]
    rw [diffFrom.eq_def left]
    simp [reg', Rect.span, notPassed, notStarted, meets, not_le.mpr (lt_of_not_ge reached), onLevel]
  | case8 reg left h1 r1 h2 r2 top bottom notPassed notStarted apart reg' ih =>
    obtain ⟨inhabited, -, tail⟩ := separated_cons.mp separatedFirst
    have wide : h1.right > left := inhabited
    rw [ih (by simpa [← startOr_spans] using tail) separatedSecond]
    rw [diffFrom.eq_def left]
    simp [reg', wide, Rect.span, notPassed, notStarted, apart, onLevel, startOr_spans]

/--
`MERGERECT` only ever looks at rectangles of the current band: the ones
added before it started have another top.
-/
theorem mergeRect_rects (current : reg.rects = acc ++ onLevel top bottom out)
    (fresh : ∀ rect ∈ acc, rect.top ≠ top) :
    (mergeRect reg rect top bottom).rects = acc ++ onLevel top bottom (absorb out rect.span) := by
  rcases eq_nil_or_concat' out with rfl | ⟨earlier, last, rfl⟩
  · rw [onLevel, map_nil, append_nil] at current
    have appended : (mergeRect reg rect top bottom).rects =
        acc ++ [⟨rect.left, top, rect.right, bottom⟩] := by
      unfold mergeRect
      rw [current]
      cases final : acc.getLast? with
      | none => simp [current]
      | some last =>
        have differs := fresh last (mem_of_getLast? final)
        simp [differs, current]
    simpa [absorb, onLevel, Rect.span] using appended
  · unfold mergeRect absorb
    rw [current]
    by_cases touches : rect.left ≤ last.hi
    · by_cases longer : last.hi < rect.right
      · simp [onLevel, Rect.span, touches, longer, ← append_assoc]
      · simp [onLevel, Rect.span, touches, longer, current]
    · simp [onLevel, Rect.span, touches, current]

theorem unionOverlapping_rects (current : reg.rects = acc ++ onLevel top bottom out)
    (fresh : ∀ rect ∈ acc, rect.top ≠ top) : (unionOverlapping reg r1 r2 top bottom).rects =
      acc ++ onLevel top bottom (unionInto out (r1.map Rect.span) (r2.map Rect.span)) := by
  fun_induction unionOverlapping reg r1 r2 top bottom generalizing out with
  | case1 reg top bottom => simpa [unionInto] using current
  | case2 reg h1 r1 top bottom ih =>
    rw [ih (mergeRect_rects current fresh) fresh]
    simp [unionInto]
  | case3 reg h2 r2 top bottom ih =>
    rw [ih (mergeRect_rects current fresh) fresh]
    simp [unionInto]
  | case4 reg h1 r1 h2 r2 top bottom isFirst ih =>
    rw [ih (mergeRect_rects current fresh) fresh]
    rw [unionInto.eq_def out]
    simp [Rect.span, isFirst]
  | case5 reg h1 r1 h2 r2 top bottom notFirst ih =>
    rw [ih (mergeRect_rects current fresh) fresh]
    rw [unionInto.eq_def out]
    simp [Rect.span, notFirst]

end WineRedRose.Regions
