import WineRedRose.Regions.Sweep

/-!
# Correctness of `region_op`

The sweep is correct for every band operation: an overlap callback that
combines the spans of two bands pointwise, and for each region alone either
no callback, when the operation drops its points, or the copying one.
-/

namespace WineRedRose.Regions

open Library.Spans List Heap

/-! ## Band operations -/

/-- What a non-overlapping callback has to do with the points of one region. -/
def Keeps (alone : Prop → Prop) (func : Option NonOverlapFunc) : Prop :=
  (func = none ∧ ∀ p, ¬ alone p) ∨ (func = some copyBand ∧ ∀ p, alone p ↔ p)

/-- The callbacks passed to `region_op` compute a pointwise operation. -/
structure BandOperation (op : Prop → Prop → Prop) (overlap : OverlapFunc)
    (non1 non2 : Option NonOverlapFunc) : Prop where
  keeps1 : Keeps (fun p => op p False) non1
  keeps2 : Keeps (fun q => op False q) non2
  overlaps : ∀ (reg : Region) (r1 r2 : List Rect) (top bottom : Int),
      (∀ rect ∈ reg.rects, rect.top ≠ top) → r1 ≠ [] →
      Separated (r1.map Rect.span) → Separated (r2.map Rect.span) →
      ∃ spans, (overlap reg r1 r2 top bottom).rects = reg.rects ++ onLevel top bottom spans ∧
          Separated spans ∧
          ∀ x, Covers spans x ↔ op (Covers (r1.map Rect.span) x) (Covers (r2.map Rect.span) x)

variable {head h1 h2 : Rect} {tail t1 t2 rects : List Rect} {reg : Region}
variable {top bottom ybot : Int} {prevBand : Nat} {alone : Prop → Prop} {op : Prop → Prop → Prop}
variable {image points points1 points2 : Int → Int → Prop} {state : Sweep}
variable {overlap : OverlapFunc} {func non1 non2 : Option NonOverlapFunc}

/-- Above the first band there is no point. -/
theorem not_contains_above (banded : Banded (head :: tail)) {x y : Int} (above : y < head.top) :
    ¬ Contains (head :: tail) x y := by
  rintro ⟨rect, member, -, low, -⟩
  have top := head_le_of_mem banded rect member
  omega

theorem Keeps.emits (keeps : Keeps alone func) (reg : Region) (band : List Rect)
    (separated : Separated (band.map Rect.span)) :
    ∃ spans, (callNonOverlap func reg band top bottom).rects =
      reg.rects ++ onLevel top bottom spans ∧ Separated spans ∧ ∀ x, Covers spans x ↔
      alone (Covers (band.map Rect.span) x) := by
  rcases keeps with ⟨rfl, dropped⟩ | ⟨rfl, kept⟩
  · refine ⟨[], by simp [callNonOverlap, onLevel], separated_nil, ?_⟩
    exact fun x => iff_of_false (covers_nil x) (dropped _)
  · exact ⟨_, copyBand_rects, separated, fun x => (kept _).symm⟩

theorem Keeps.not_false (keeps : Keeps alone func) : ¬ alone False := by
  rcases keeps with ⟨-, dropped⟩ | ⟨-, kept⟩
  · exact dropped False
  · exact (kept False).mp

theorem intersect_bandOperation : BandOperation And intersectOverlapping none none where
  keeps1 := .inl ⟨rfl, by simp⟩
  keeps2 := .inl ⟨rfl, by simp⟩
  overlaps reg r1 r2 top bottom _ _ separated1 separated2 :=
    ⟨_, intersectOverlapping_rects r1 r2, inter_spec separated1 separated2⟩

theorem subtract_bandOperation : BandOperation (fun p q => p ∧ ¬ q) subtractOverlapping
      (some subtractNonOverlapping) none where
  keeps1 := .inr ⟨rfl, by simp⟩
  keeps2 := .inl ⟨rfl, by simp⟩
  overlaps reg r1 r2 top bottom _ _ separated1 separated2 := by
    have whole : trim (nextLeft 0 r1) (r1.map Rect.span) = r1.map Rect.span := by
      rw [← startOr_spans, trim_startOr]
    have separatedTrim : Separated (trim (nextLeft 0 r1) (r1.map Rect.span)) := by
      rw [whole]
      exact separated1
    obtain ⟨separated, covers⟩ := diffFrom_spec separatedTrim separated2
    refine ⟨_, subtractLoop_rects separatedTrim separated2, separated, fun x => ?_⟩
    rw [covers, whole]

theorem union_bandOperation : BandOperation Or unionOverlapping (some unionNonOverlapping)
      (some unionNonOverlapping) where
  keeps1 := .inr ⟨rfl, by simp⟩
  keeps2 := .inr ⟨rfl, by simp⟩
  overlaps reg r1 r2 top bottom fresh _ separated1 separated2 := by
    have current : reg.rects = reg.rects ++ onLevel top bottom [] := by simp [onLevel]
    obtain ⟨separated, covers⟩ := unionInto_spec separated_nil ⟨separated1, by simp⟩
      ⟨separated2, by simp⟩
    refine ⟨_, unionOverlapping_rects current fresh, separated, ?_⟩
    exact fun x => by simpa using covers x

/-! ## One step -/

/-- One region as the sweep still has to read it. -/
structure Pending (points : Int → Int → Prop) (rects : List Rect)
    (ybot : Int) : Prop where
  banded : Banded rects
  below : ∀ rect ∈ rects, ybot < rect.bottom
  points : ∀ x y, ybot ≤ y → (points x y ↔ Contains rects x y)

/-- Drop the band that ends at the new frontier, or keep it. -/
theorem Pending.step {ybot' : Int} (pending : Pending points (head :: tail) ybot)
    (lower : ybot ≤ ybot') (inside : ybot' ≤ head.bottom) :
    Pending points (if head.bottom = ybot' then afterBand (head :: tail)
        else head :: tail) ybot' := by
  have bandedAfter := (banded_bandOf pending.banded).2
  split_ifs with ends
  · refine ⟨bandedAfter, ?_, ?_⟩
    · intro rect member
      have top := bottom_le_afterBand pending.banded rect member
      have proper := (bandedAfter.1 rect member).2
      omega
    · intro x y below
      rw [pending.points x y (lower.trans below), contains_afterBand pending.banded x (by omega)]
  · refine ⟨pending.banded, ?_, fun x y below => pending.points x y (lower.trans below)⟩
    intro rect member
    have := head_le_of_mem pending.banded rect member
    omega

/-- The loop invariant of the sweep. -/
structure SweepInv (op : Prop → Prop → Prop)
    (points1 points2 : Int → Int → Prop) (state : Sweep) : Prop where
  frontier : Frontier (fun x y => op (points1 x y) (points2 x y))
      state.newReg.rects state.ybot state.prevBand
  pending1 : Pending points1 state.r1 state.ybot
  pending2 : Pending points2 state.r2 state.ybot
  /-- At most one of the current bands has already been read in part. -/
  fresh : (∀ rect ∈ state.r1, state.ybot ≤ rect.top) ∨ (∀ rect ∈ state.r2, state.ybot ≤ rect.top)

/--
One region alone is read from the frontier down to `bot`: the lines above
its band are empty, and the lines of its band hold the points that the
operation keeps.
-/
theorem Frontier.emitAlone (frontier : Frontier image reg.rects ybot prevBand) (bot : Int)
    (keeps : Keeps alone func) (banded : Banded (head :: tail)) (order : max head.top ybot ≤ bot)
    (inside : bot ≤ head.bottom)
    (agrees : ∀ x y, ybot ≤ y → y < bot → (image x y ↔ alone (Contains (head :: tail) x y))) :
    let closed := closeBand (if max head.top ybot ≠ bot then
            callNonOverlap func reg (bandOf (head :: tail)) (max head.top ybot) bot
          else reg)
        prevBand reg.rects.length
    Frontier image closed.1.rects bot closed.2 := by
  have atTop : Frontier image reg.rects (max head.top ybot) prevBand := by
    apply frontier.advance (le_max_right _ _)
    intro x y low high
    have above : y < head.top := by omega
    rw [agrees x y low (by omega), eq_false (not_contains_above banded above)]
    exact keeps.not_false
  by_cases tall : max head.top ybot ≠ bot
  · rcases keeps.emits reg (bandOf (head :: tail))
      (separated_bandOf banded) with ⟨spans, appended, separatedSpans, covers⟩
    simp only [tall, if_true, ne_eq, not_false_eq_true]
    apply atTop.emit appended separatedSpans (by omega)
    intro x y low high
    rw [agrees x y (by omega) high, covers x, contains_head banded x (by omega)]
    have lower : head.top ≤ y := by omega
    simp only [lower, and_true]
  · have equal : max head.top ybot = bot := not_not.mp tall
    simp only [equal, ne_eq, not_true_eq_false, if_false]
    have closed : closeBand reg prevBand reg.rects.length = (reg, prevBand) := by simp [closeBand]
    rw [closed, ← equal]
    exact atTop

section Step

variable (operation : BandOperation op overlap non1 non2) (inv : SweepInv op points1 points2 state)
include operation inv

/-- After its first half, a step has reached the top of both bands. -/
theorem sweepNonOverlap_frontier (first : state.r1 = h1 :: t1) (second : state.r2 = h2 :: t2) :
    let result := sweepNonOverlap non1 non2 state h1 h2
    result.2.2 = max h1.top h2.top ∧
      Frontier (fun x y => op (points1 x y) (points2 x y)) result.1.rects
        (min (max h1.top h2.top) (min h1.bottom h2.bottom))
        result.2.1 := by
  rcases inv with ⟨frontier, pending1, pending2, fresh⟩
  rw [first] at pending1 fresh
  rw [second] at pending2 fresh
  have tall1 := (pending1.banded.1 h1 mem_cons_self).2
  have tall2 := (pending2.banded.1 h2 mem_cons_self).2
  have below1 := pending1.below h1 mem_cons_self
  have below2 := pending2.below h2 mem_cons_self
  have fresh' : state.ybot ≤ h1.top ∨ state.ybot ≤ h2.top :=
    fresh.imp (fun all => all h1 mem_cons_self) (fun all => all h2 mem_cons_self)
  have absent1 := @not_contains_above _ _ pending1.banded
  have absent2 := @not_contains_above _ _ pending2.banded
  rcases lt_trichotomy h1.top h2.top with higher | same | lower
  · have emitted := frontier.emitAlone (min h1.bottom h2.top)
      operation.keeps1 pending1.banded (by omega) (by omega)
      (by
        intro x y low high
        rw [pending1.points x y low, pending2.points x y low, eq_false (absent2 (by omega))])
    have middle : min (max h1.top h2.top) (min h1.bottom h2.bottom) =
        min h1.bottom h2.top := by omega
    simp only [sweepNonOverlap, higher, if_true, first, middle]
    exact ⟨(max_eq_right higher.le).symm, emitted⟩
  · have middle : min (max h1.top h2.top) (min h1.bottom h2.bottom) = h1.top := by omega
    simp only [sweepNonOverlap, same, lt_irrefl, if_false, max_self] at *
    refine ⟨trivial, ?_⟩
    rw [middle]
    apply frontier.advance (by omega)
    intro x y low high
    rw [pending1.points x y low, pending2.points x y low,
      eq_false (absent1 (by omega)), eq_false (absent2 (by omega))]
    exact operation.keeps1.not_false
  · have emitted := frontier.emitAlone (min h2.bottom h1.top)
      operation.keeps2 pending2.banded (by omega) (by omega)
      (by
        intro x y low high
        rw [pending1.points x y low, pending2.points x y low, eq_false (absent1 (by omega))])
    have middle : min (max h1.top h2.top) (min h1.bottom h2.bottom) =
        min h2.bottom h1.top := by omega
    simp only [sweepNonOverlap, lower, not_lt.mpr lower.le, if_true, if_false, second, middle]
    exact ⟨(max_eq_left lower.le).symm, emitted⟩

/-- A sweep step keeps the invariant. -/
theorem SweepInv.step (first : state.r1 = h1 :: t1) (second : state.r2 = h2 :: t2) :
    SweepInv op points1 points2 (sweepStep overlap non1 non2 state h1 h2) := by
  have half := sweepNonOverlap_frontier operation inv first second
  rcases inv with ⟨frontier, pending1, pending2, fresh⟩
  rw [first] at pending1 fresh
  rw [second] at pending2 fresh
  have reached : state.ybot ≤ max h1.top h2.top := by
    rcases fresh with fresh | fresh
    · exact (fresh h1 mem_cons_self).trans (le_max_left _ _)
    · exact (fresh h2 mem_cons_self).trans (le_max_right _ _)
  have below1 := pending1.below h1 mem_cons_self
  have below2 := pending2.below h2 mem_cons_self
  rcases half with ⟨ytop, middle⟩
  refine ⟨?_, ?_, ?_, ?_⟩
  · simp only [sweepStep, ytop, first, second]
    by_cases meets : min h1.bottom h2.bottom > max h1.top h2.top
    · rw [min_eq_left meets.le] at middle
      simp only [meets, if_true]
      -- Rectangles written so far end above the band, so none starts at it.
      have freshTop : ∀ rect ∈ (sweepNonOverlap non1 non2 state h1 h2).1.rects, rect.top ≠
          max h1.top h2.top := by
        intro rect member
        have ends := middle.above rect member
        have proper := (middle.banded.1 rect member).2
        omega
      rcases operation.overlaps _ (bandOf (h1 :: t1)) (bandOf (h2 :: t2))
        (max h1.top h2.top) (min h1.bottom h2.bottom) freshTop
        (by simp [bandOf]) (separated_bandOf pending1.banded) (separated_bandOf pending2.banded)
        with ⟨spans, appended, separated, covers⟩
      apply middle.emit appended separated meets
      intro x y low high
      rw [pending1.points x y (reached.trans low),
        pending2.points x y (reached.trans low), covers x,
        contains_head pending1.banded x (by omega),
        contains_head pending2.banded x (by omega)]
      have lower1 : h1.top ≤ y := by omega
      have lower2 : h2.top ≤ y := by omega
      simp only [lower1, lower2, and_true]
    · rw [min_eq_right (not_lt.mp meets)] at middle
      simp only [meets, if_false]
      simpa [closeBand] using middle
  · simp only [sweepStep, first]
    exact pending1.step (by omega) (by omega)
  · simp only [sweepStep, second]
    exact pending2.step (by omega) (by omega)
  · simp only [sweepStep, first, second]
    rcases le_total h1.bottom h2.bottom with shorter | shorter
    · left
      rw [min_eq_left shorter, if_pos rfl]
      exact bottom_le_afterBand pending1.banded
    · right
      rw [min_eq_right shorter, if_pos rfl]
      exact bottom_le_afterBand pending2.banded

omit operation inv in
theorem mem_of_mem_afterBand {rect : Rect} (member : rect ∈ afterBand rects) : rect ∈ rects := by
  rw [← bandOf_append_afterBand rects]
  exact mem_append_right _ member

omit operation inv in
/-- The sweep only drops rectangles of its sources. -/
theorem sweepLoop_subset : (sweepLoop overlap non1 non2 state).r1 ⊆ state.r1 ∧
      (sweepLoop overlap non1 non2 state).r2 ⊆ state.r2 := by
  have dropped : ∀ (ends : Prop) [Decidable ends] (rects : List Rect),
      (if ends then afterBand rects else rects) ⊆ rects := by
    intro ends _ rects rect member
    split_ifs at member
    · exact mem_of_mem_afterBand member
    · exact member
  fun_induction sweepLoop overlap non1 non2 state with
  | case1 state h1 t1 h2 t2 first second ih =>
    exact ⟨List.Subset.trans ih.1 (dropped _ _), List.Subset.trans ih.2 (dropped _ _)⟩
  | case2 state oneEmpty => exact ⟨List.Subset.refl _, List.Subset.refl _⟩

/-- The main loop keeps the invariant and uses up one of the regions. -/
theorem SweepInv.loop : SweepInv op points1 points2 (sweepLoop overlap non1 non2 state) ∧
      ((sweepLoop overlap non1 non2 state).r1 = [] ∨
        (sweepLoop overlap non1 non2 state).r2 = []) := by
  fun_induction sweepLoop overlap non1 non2 state with
  | case1 state h1 t1 h2 t2 first second ih => exact ih (inv.step operation first second)
  | case2 state oneEmpty =>
    refine ⟨inv, ?_⟩
    cases first : state.r1 with
    | nil => exact .inl rfl
    | cons h1 t1 =>
      cases second : state.r2 with
      | nil => exact .inr rfl
      | cons h2 t2 => exact (oneEmpty h1 t1 h2 t2 first second).elim

end Step

/-! ## The tail -/

/-- The part of a rectangle from the frontier on. -/
def clipTop (ybot : Int) (rect : Rect) : Rect :=
  { rect with top := max rect.top ybot }

theorem onLevel_clipTop {band : List Rect} (level : Level top bottom band) :
    onLevel (max top ybot) bottom (band.map Rect.span) = band.map (clipTop ybot) := by
  rw [onLevel, map_map]
  apply map_congr_left
  intro rect member
  rcases level rect member with ⟨rfl, rfl⟩
  rfl

theorem tailLoop_rects (banded : Banded rects) :
    (tailLoop copyBand reg ybot rects).rects = reg.rects ++ rects.map (clipTop ybot) := by
  fun_induction tailLoop copyBand reg ybot rects with
  | case1 reg => simp
  | case2 reg head rest ih =>
    rw [ih (banded_bandOf banded).2, copyBand_rects,
      onLevel_clipTop (level_bandOf banded), append_assoc,
      ← map_append, bandOf_append_afterBand]

theorem banded_clipTop (banded : Banded rects) (below : ∀ rect ∈ rects, ybot < rect.bottom) :
    Banded (rects.map (clipTop ybot)) := by
  refine ⟨?_, ?_⟩
  · intro rect member
    rcases mem_map.mp member with ⟨old, oldMember, rfl⟩
    have proper := banded.1 old oldMember
    have ends := below old oldMember
    exact ⟨proper.1, max_lt proper.2 ends⟩
  · rw [pairwise_map]
    apply banded.2.imp
    intro first second order
    simp only [Before, clipTop] at order ⊢
    omega

theorem contains_clipTop (x : Int) {y : Int} (low : ybot ≤ y) :
    Contains (rects.map (clipTop ybot)) x y ↔ Contains rects x y := by
  constructor
  · rintro ⟨rect, member, horizontal, top, bottom⟩
    rcases mem_map.mp member with ⟨old, oldMember, rfl⟩
    exact ⟨old, oldMember, horizontal, (le_max_left _ _).trans top, bottom⟩
  · rintro ⟨rect, member, horizontal, top, bottom⟩
    exact ⟨_, mem_map_of_mem member, horizontal, max_le top low, bottom⟩

/-- Coalescing after the tail completes the image. -/
theorem Frontier.finish {added : List Rect} (frontier : Frontier image rects ybot prevBand)
    (appended : reg.rects = rects ++ added) (banded : Banded added)
    (below : ∀ rect ∈ added, ybot ≤ rect.top)
    (agrees : ∀ x y, ybot ≤ y → (image x y ↔ Contains added x y)) :
    let closed := closeBand reg prevBand rects.length
    Banded closed.1.rects ∧ (∀ x y, Contains closed.1.rects x y ↔ image x y) ∧
      (Settled image added → Settled image closed.1.rects) := by
  intro closed
  obtain ⟨bandedReg, points⟩ := frontier.append appended banded below
    fun x y low (_ : True) => agrees x y low
  obtain ⟨⟨bandedClosed, samePoints, -⟩, cases⟩ := frontier.close appended banded below bandedReg
    fun x => agrees x ybot le_rfl
  refine ⟨bandedClosed, fun x y => (samePoints x y).trans (points x y trivial),
    fun settledAdded => ?_⟩
  rcases cases with ⟨same, settled, -⟩ | ⟨pre, top, spans, head, member, merged, settled, -⟩
  · rw [same, appended]
    exact forall_mem_append.mpr ⟨settled, settledAdded⟩
  · rw [merged]
    refine forall_mem_append.mpr ⟨forall_mem_append.mpr ⟨settled, fun rect last => ?_⟩,
      fun rect later => settledAdded rect (mem_of_mem_afterBand later)⟩
    rw [(level_onLevel rect last).2]
    exact settledAdded head member

/-- The tail loop of one region, unless its callback is null. -/
def callTail (func : Option NonOverlapFunc)
    (reg : Region) (ybot : Int) (rects : List Rect) : Region :=
  match func with
  | some func => tailLoop func reg ybot rects
  | none => reg

/-- The bands left in one region, when the other one is used up. -/
theorem Frontier.finishAlone (frontier : Frontier image reg.rects ybot prevBand)
    (keeps : Keeps alone func) (pending : Pending points rects ybot)
    (agrees : ∀ x y, ybot ≤ y → (image x y ↔ alone (points x y))) :
    let closed := closeBand (callTail func reg ybot rects) prevBand reg.rects.length
    Banded closed.1.rects ∧ (∀ x y, Contains closed.1.rects x y ↔ image x y) ∧
      (Settled points rects → Settled image closed.1.rects) := by
  rcases keeps with ⟨rfl, dropped⟩ | ⟨rfl, kept⟩
  · have nothing : reg.rects = reg.rects ++ [] := by simp
    rcases frontier.finish nothing banded_nil (by simp) (by
        intro x y low
        rw [agrees x y low]
        exact iff_of_false (dropped _) contains_nil)
      with ⟨banded, mem, settled⟩
    exact ⟨banded, mem, fun _ => settled (settled_nil _)⟩
  · rcases frontier.finish (tailLoop_rects pending.banded)
        (banded_clipTop pending.banded pending.below)
        (by
          intro rect member
          rcases mem_map.mp member with ⟨old, -, rfl⟩
          exact le_max_right _ _)
        (by
          intro x y low
          rw [agrees x y low, kept, contains_clipTop x low, pending.points x y low])
      with ⟨banded, mem, settled⟩
    refine ⟨banded, mem, fun settledRects => settled ?_⟩
    -- From the frontier on the image is this region.
    intro rect member
    rcases mem_map.mp member with ⟨old, oldMember, rfl⟩
    have ends := pending.below old oldMember
    refine (settledRects old oldMember).congr fun x line low => ?_
    rw [agrees x line (by omega), kept]

/-- The tail phase reads the bands of the region that is not used up. -/
theorem sweepTail_cases (oneEmpty : state.r1 = [] ∨ state.r2 = []) :
    (state.r1 = [] ∧ sweepTail non1 non2 state = (closeBand
            (callTail non2 state.newReg state.ybot state.r2)
            state.prevBand state.newReg.rects.length).1) ∨
      (state.r2 = [] ∧ sweepTail non1 non2 state = (closeBand
            (callTail non1 state.newReg state.ybot state.r1)
            state.prevBand state.newReg.rects.length).1) := by
  cases first : state.r1 with
  | nil =>
    refine .inl ⟨rfl, ?_⟩
    cases second : state.r2 with
    | nil => cases non2 <;> simp [sweepTail, callTail, first, second, tailLoop]
    | cons h2 t2 => cases non2 <;> simp [sweepTail, callTail, first, second]
  | cons h1 t1 =>
    have second : state.r2 = [] := by simpa [first] using oneEmpty
    refine .inr ⟨second, ?_⟩
    cases non1 <;> simp [sweepTail, callTail, first, second]

/-- The tail phase, whichever region has bands left. -/
theorem SweepInv.finish (operation : BandOperation op overlap non1 non2)
    (inv : SweepInv op points1 points2 state) (oneEmpty : state.r1 = [] ∨ state.r2 = []) :
    Banded (sweepTail non1 non2 state).rects ∧
      (∀ x y, Contains (sweepTail non1 non2 state).rects x y ↔ op (points1 x y) (points2 x y)) ∧
      (Settled points1 state.r1 → Settled points2 state.r2 →
        Settled (fun x y => op (points1 x y) (points2 x y)) (sweepTail non1 non2 state).rects) := by
  rcases inv with ⟨frontier, pending1, pending2, -⟩
  rcases sweepTail_cases oneEmpty with ⟨empty, tail⟩ | ⟨empty, tail⟩
  · rcases frontier.finishAlone operation.keeps2 pending2 (by
          intro x y low
          rw [pending1.points x y low, empty, eq_false contains_nil])
      with ⟨banded, mem, settled⟩
    rw [tail]
    exact ⟨banded, mem, fun _ => settled⟩
  · rcases frontier.finishAlone operation.keeps1 pending1 (by
          intro x y low
          rw [pending2.points x y low, empty, eq_false contains_nil])
      with ⟨banded, mem, settled⟩
    rw [tail]
    exact ⟨banded, mem, fun settled1 _ => settled settled1⟩

/-! ## The whole operation -/

@[simp]
theorem Heap.set_region_self (heap : Heap) (id : RegionId) (region : Region) :
    (heap.set id region).region id = region := by
  simp [set]

@[simp]
theorem Heap.set_region_of_ne (heap : Heap) {id other : RegionId} (region : Region)
    (distinct : other ≠ id) :
    (heap.set id region).region other = heap.region other := by
  simp [set, distinct]

@[simp]
theorem shrinkRects_rects : (shrinkRects reg).rects = reg.rects := by
  unfold shrinkRects
  split_ifs <;> rfl

theorem pending_start (banded : Banded (head :: tail)) (above : ybot ≤ head.top) :
    Pending (Contains (head :: tail)) (head :: tail) ybot where
  banded := banded
  below rect member := by
    have top := head_le_of_mem banded rect member
    have proper := (banded.1 rect member).2
    omega
  points _ _ _ := Iff.rfl

/-- At the start nothing is above the frontier. -/
theorem sweepInv_start {newReg : Region} (empty : ¬ op False False) (banded1 : Banded (h1 :: t1))
    (banded2 : Banded (h2 :: t2)) (fresh : newReg.rects = []) (start : ybot = min h1.top h2.top) :
    SweepInv op (Contains (h1 :: t1)) (Contains (h2 :: t2))
      ⟨newReg, h1 :: t1, h2 :: t2, ybot, 0⟩ := by
  have above1 : ybot ≤ h1.top := by omega
  have above2 : ybot ≤ h2.top := by omega
  refine ⟨?_, pending_start banded1 above1, pending_start banded2 above2, ?_⟩
  · rw [fresh]
    refine ⟨banded_nil, by simp, ?_, ⟨[], 0, 0, [], ?_⟩, settled_nil _⟩
    · intro x y above
      rw [eq_false (not_contains_above banded1 (above.trans_le above1)),
        eq_false (not_contains_above banded2 (above.trans_le above2))]
      exact iff_of_false contains_nil empty
    · simp [onLevel]
  · left
    intro rect member
    exact above1.trans (head_le_of_mem banded1 rect member).1

theorem Heap.extents_set_rects (heap : Heap) (dst id : RegionId) (size : Nat) :
    ((heap.set dst { heap.region dst with size := size, rects := rects }
      ).region id).extents = (heap.region id).extents := by
  rcases eq_or_ne id dst with rfl | other
  · rw [set_region_self]
  · rw [set_region_of_ne heap _ other]

/--
`region_op` on two regions that are not empty: the destination holds the
image of the operation and nothing else changes.
-/
theorem regionOp_spec (operation : BandOperation op overlap non1 non2) {heap : Heap}
    (dst : RegionId) {src1 src2 : RegionId} (first : (heap.region src1).rects = h1 :: t1)
    (second : (heap.region src2).rects = h2 :: t2) (banded1 : Banded (h1 :: t1))
    (banded2 : Banded (h2 :: t2)) (top1 : (heap.region src1).extents.top = h1.top)
    (top2 : (heap.region src2).extents.top = h2.top) :
    let result := regionOp heap dst src1 src2 overlap non1 non2
    let image := fun x y => op (Contains (h1 :: t1) x y) (Contains (h2 :: t2) x y)
    Banded (result.region dst).rects ∧ (∀ x y, Contains (result.region dst).rects x y ↔ image x y) ∧
      (Settled (Contains (h1 :: t1)) (h1 :: t1) → Settled (Contains (h2 :: t2)) (h2 :: t2) →
        Settled image (result.region dst).rects) := by
  have start : (if (heap.region src1).extents.top < (heap.region src2).extents.top
        then (heap.region src1).extents.top
        else (heap.region src2).extents.top) = min h1.top h2.top := by
    rw [top1, top2]
    split_ifs <;> omega
  dsimp only [regionOp]
  simp only [extents_set_rects, set_region_self, start,
    first, second, shrinkRects_rects]
  generalize fresh : ({ heap.region dst with
        size := max (h1 :: t1).length (h2 :: t2).length * 2
        rects := [] } : Region) = newReg
  have noRects : newReg.rects = [] := by rw [← fresh]
  have started := sweepInv_start operation.keeps1.not_false banded1 banded2 noRects rfl
  rcases started.loop operation with ⟨swept, oneEmpty⟩
  rcases swept.finish operation oneEmpty with ⟨banded, mem, settled⟩
  refine ⟨banded, mem, fun settled1 settled2 => settled ?_ ?_⟩
  · exact fun rect member => settled1 rect (sweepLoop_subset.1 member)
  · exact fun rect member => settled2 rect (sweepLoop_subset.2 member)

theorem regionOp_region_of_ne {heap : Heap} {dst src1 src2 id : RegionId} (other : id ≠ dst) :
    (regionOp heap dst src1 src2 overlap non1 non2).region id = heap.region id := by
  simp [regionOp, other]

/-! ## The extents during the sweep

`union_region` reads the extents of its sources after the sweep, and one of
them may be the destination. -/

theorem copyBand_extents (band : List Rect) :
    (copyBand reg band top bottom).extents = reg.extents := by
  fun_induction copyBand reg band top bottom with
  | case1 => rfl
  | case2 reg r rs top bottom ih => exact ih

theorem mergeRect_extents (rect : Rect) :
    (mergeRect reg rect top bottom).extents = reg.extents := by
  simp only [mergeRect]
  split
  · split_ifs <;> rfl
  · rfl

theorem unionOverlapping_extents (reg : Region) (r1 r2 : List Rect) (top bottom : Int) :
    (unionOverlapping reg r1 r2 top bottom).extents = reg.extents := by
  fun_induction unionOverlapping reg r1 r2 top bottom with
  | case1 => rfl
  | _ => simp_all only [mergeRect_extents]

theorem coalesceRegion_extents (prevStart curStart : Nat) :
    (coalesceRegion reg prevStart curStart).1.extents = reg.extents := by
  simp only [coalesceRegion]
  split
  · rw [apply_ite Prod.fst, apply_ite Region.extents, ite_self]
  · rfl

theorem closeBand_extents (prevBand curBand : Nat) :
    (closeBand reg prevBand curBand).1.extents = reg.extents := by
  simp only [closeBand]
  split_ifs
  · exact coalesceRegion_extents prevBand curBand
  · rfl

section Extents

variable (overlapKeeps :
  ∀ reg r1 r2 top bottom, (overlap reg r1 r2 top bottom).extents = reg.extents)
variable (nonKeeps :
  ∀ func, some func = non1 ∨ some func = non2 →
    ∀ reg band top bottom, (func reg band top bottom).extents = reg.extents)

include nonKeeps

theorem sweepNonOverlap_extents (h1 h2 : Rect) :
    (sweepNonOverlap non1 non2 state h1 h2).1.extents = state.newReg.extents := by
  have called : ∀ (func : Option NonOverlapFunc) band top bottom, func = non1 ∨ func = non2 →
      (callNonOverlap func state.newReg band top bottom).extents = state.newReg.extents := by
    intro func band top bottom either
    cases func with
    | none => rfl
    | some func => exact nonKeeps func either _ _ _ _
  simp only [sweepNonOverlap]
  split_ifs <;>
    simp only [closeBand_extents, called _ _ _ _ (.inl rfl), called _ _ _ _ (.inr rfl)]

theorem sweepTail_extents : (sweepTail non1 non2 state).extents = state.newReg.extents := by
  have tail : ∀ (func : NonOverlapFunc) reg ybot rects, some func = non1 ∨ some func = non2 →
      (tailLoop func reg ybot rects).extents = reg.extents := by
    intro func reg ybot rects either
    fun_induction tailLoop func reg ybot rects with
    | case1 => rfl
    | case2 reg head rest ih => rw [ih, nonKeeps func either]
  simp only [sweepTail, closeBand_extents]
  split
  · exact tail _ _ _ _ (.inl rfl)
  · exact tail _ _ _ _ (.inr rfl)
  · rfl

include overlapKeeps

theorem sweepLoop_extents :
    (sweepLoop overlap non1 non2 state).newReg.extents = state.newReg.extents := by
  fun_induction sweepLoop overlap non1 non2 state with
  | case1 state h1 t1 h2 t2 first second ih =>
    rw [ih]
    simp only [sweepStep, closeBand_extents]
    split_ifs
    · rw [overlapKeeps, sweepNonOverlap_extents nonKeeps]
    · rw [sweepNonOverlap_extents nonKeeps]
  | case2 => rfl

/-- `region_op` changes no extents, not even those of the destination. -/
theorem regionOp_extents (heap : Heap) (dst src1 src2 id : RegionId) :
    ((regionOp heap dst src1 src2 overlap non1 non2).region id).extents =
      (heap.region id).extents := by
  rcases eq_or_ne id dst with rfl | other
  · have kept : ∀ reg : Region, (shrinkRects reg).extents = reg.extents := by
      intro reg
      simp only [shrinkRects]
      split_ifs <;> rfl
    simp only [regionOp, set_region_self, kept, sweepTail_extents nonKeeps,
      sweepLoop_extents overlapKeeps nonKeeps]
  · rw [regionOp_region_of_ne other]

end Extents

end WineRedRose.Regions
