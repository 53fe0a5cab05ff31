import WineRedRose.Regions.Bands

/-!
# The band sweep

`region_op` walks down both band lists at once.  Its invariant is a frontier:
everything above `ybot` has been written to the destination, nothing below it
has, and the lists still to be read agree with their regions from `ybot` on.
A step emits at most two bands, each of which moves the frontier down to its
bottom; coalescing rewrites the destination without changing its points.
-/

namespace WineRedRose.Regions

open Library.Spans List

/-! ## Coalescing -/

/-- Bands of the same length with the same sides have the same spans. -/
theorem sameSides_onLevel (top bottom top' bottom' : Int) (first second : List (Span Int)) :
    first.length = second.length ∧
      sameSides (onLevel top bottom first) (onLevel top' bottom' second) = true ↔
      first = second := by
  induction first generalizing second with
  | nil => cases second <;> simp [sameSides, onLevel]
  | cons span first ih =>
    cases second with
    | nil => simp
    | cons span' second =>
      have tail := ih second
      cases span
      cases span'
      simp only [sameSides, onLevel, map_cons, zip_cons_cons,
        all_cons, length_cons, Bool.and_eq_true,
        decide_eq_true_eq, cons.injEq, Span.mk.injEq] at tail ⊢
      rw [← tail, Nat.add_right_cancel_iff]
      tauto

theorem extendBand_onLevel (top middle bottom : Int) (spans : List (Span Int)) :
    extendBand (onLevel top middle spans) (onLevel middle bottom spans) =
      onLevel top bottom spans := by
  induction spans with
  | nil => rfl
  | cons span spans ih =>
    simp only [extendBand, onLevel, map_cons, zipWith_cons_cons] at ih ⊢
    rw [ih]

variable {pre : List Rect} {top bottom : Int} {spans : List (Span Int)}

/-- What `coalesce_region` does to a destination whose last band is known. -/
theorem coalesceRegion_cases {reg : Region} {head : Rect} {tail : List Rect}
    (current : reg.rects = pre ++ onLevel top bottom spans ++ head :: tail)
    (banded : Banded reg.rects) :
    let result := coalesceRegion reg pre.length (pre ++ onLevel top bottom spans).length
    let rest := afterBand (head :: tail)
    (result.1.rects = reg.rects ∧
        (rest = [] → result.2 = (pre ++ onLevel top bottom spans).length) ∧
        ¬ (spans ≠ [] ∧ bottom = head.top ∧ spans = (bandOf (head :: tail)).map Rect.span)) ∨
      (bottom = head.top ∧ spans ≠ [] ∧ bandOf (head :: tail) = onLevel head.top head.bottom spans ∧
        result.1.rects = pre ++ onLevel top head.bottom spans ++ rest ∧
        (rest = [] → result.2 = pre.length)) := by
  intro result rest
  have bandedCurrent : Banded (head :: tail) := by
    rw [current] at banded
    exact (banded_append.mp banded).2.1
  have level := (level_bandOf bandedCurrent).eq_onLevel
  set bandSpans := (bandOf (head :: tail)).map Rect.span
  have dropped : reg.rects.drop (pre ++ onLevel top bottom spans).length = head :: tail := by
    rw [current, drop_left]
  have previous : (reg.rects.drop pre.length).take
          ((pre ++ onLevel top bottom spans).length - pre.length) =
        onLevel top bottom spans := by
    rw [current, append_assoc, drop_left]
    simp
  have kept : reg.rects.take pre.length = pre := by rw [current, append_assoc, take_left]
  by_cases merges : spans ≠ [] ∧ bottom = head.top ∧ spans = bandSpans
  · rcases merges with ⟨nonempty, rfl, same⟩
    have sides := (sameSides_onLevel top head.top head.top head.bottom spans bandSpans).mpr same
    have extended := extendBand_onLevel top head.top head.bottom spans
    rw [← same] at level sides
    refine .inr ⟨rfl, nonempty, level, ?_⟩
    simp only [result, coalesceRegion, previous, dropped, kept, level]
    obtain ⟨span, spans, rfl⟩ := exists_cons_of_ne_nil nonempty
    simp only [onLevel, map_cons] at sides extended ⊢
    rw [if_pos (by simp [sides.2]), extended]
    exact ⟨rfl, fun empty => if_pos (List.isEmpty_iff.mpr empty)⟩
  · have computed : result = (reg, if rest.isEmpty then
        (pre ++ onLevel top bottom spans).length else lastBandStart reg.rects) := by
      simp only [result, coalesceRegion, previous, dropped, level]
      split
      · next above _ below _ first second =>
          refine if_neg fun condition => merges ?_
          have upper := level_onLevel above (first ▸ mem_cons_self)
          have lower := level_onLevel below (second ▸ mem_cons_self)
          rw [upper.2, lower.1] at condition
          simp only [Bool.and_eq_true, decide_eq_true_eq, onLevel, length_map] at condition
          have same := (sameSides_onLevel ..).mp ⟨condition.1.1, condition.2⟩
          refine ⟨?_, condition.1.2, same⟩
          rintro rfl
          cases first
      · rfl
    rw [computed]
    exact .inl ⟨rfl, fun empty => if_pos (List.isEmpty_iff.mpr empty), merges⟩

/-- Two touching bands with the same spans are one band. -/
theorem merge_bands {rest : List Rect} {middle : Int}
    (banded : Banded (pre ++ onLevel top middle spans ++ (onLevel middle bottom spans ++ rest)))
    (spansNonempty : spans ≠ []) (preAbove : ∀ rect ∈ pre, rect.bottom ≤ top)
    (restBelow : ∀ rect ∈ rest, bottom ≤ rect.top) :
    Banded (pre ++ onLevel top bottom spans ++ rest) ∧
      ∀ x y, Contains (pre ++ onLevel top bottom spans ++ rest) x y ↔
      Contains (pre ++ onLevel top middle spans ++ (onLevel middle bottom spans ++ rest)) x y := by
  obtain ⟨bandedAbove, bandedBelow, order⟩ := banded_append.mp banded
  obtain ⟨bandedPre, bandedPrev, -⟩ := banded_append.mp bandedAbove
  obtain ⟨bandedCur, bandedRest, -⟩ := banded_append.mp bandedBelow
  have separated : Separated spans := separated_of_onLevel bandedPrev
  obtain ⟨span, moreSpans, rfl⟩ := exists_cons_of_ne_nil spansNonempty
  have tallPrev : top < middle :=
    (bandedPrev.1 ⟨span.lo, top, span.hi, middle⟩ (by simp [onLevel])).2
  have tallCur : middle < bottom :=
    (bandedCur.1 ⟨span.lo, middle, span.hi, bottom⟩ (by simp [onLevel])).2
  constructor
  · refine banded_append.mpr ⟨banded_append.mpr ⟨bandedPre,
      banded_onLevel separated (tallPrev.trans tallCur), ?_⟩, bandedRest, ?_⟩
    · intro above aboveMember below belowMember
      obtain ⟨span', -, rfl⟩ := mem_map.mp belowMember
      exact .inr (preAbove above aboveMember)
    · intro above aboveMember below belowMember
      rcases mem_append.mp aboveMember with aboveMember | aboveMember
      · exact order above (mem_append_left _ aboveMember) below (mem_append_right _ belowMember)
      · obtain ⟨span', -, rfl⟩ := mem_map.mp aboveMember
        exact .inr (restBelow below belowMember)
  · intro x y
    have vertical : (top ≤ y ∧ y < bottom) ↔ (top ≤ y ∧ y < middle) ∨
        (middle ≤ y ∧ y < bottom) := by
      omega
    simp only [contains_append, contains_onLevel]
    rw [vertical, and_or_left]
    simp only [or_assoc]

/-- Coalescing keeps the list banded, its points and its bottoms. -/
theorem coalesceRegion_spec {reg : Region} {head : Rect} {tail : List Rect}
    (current : reg.rects = pre ++ onLevel top bottom spans ++ head :: tail)
    (banded : Banded reg.rects) (preAbove : ∀ rect ∈ pre, rect.bottom ≤ top) :
    let result := coalesceRegion reg pre.length (pre ++ onLevel top bottom spans).length
    Banded result.1.rects ∧ (∀ x y, Contains result.1.rects x y ↔ Contains reg.rects x y) ∧
      ∀ rect ∈ result.1.rects, ∃ old ∈ reg.rects, rect.bottom = old.bottom := by
  intro result
  rcases coalesceRegion_cases current banded with
    ⟨same, -⟩ | ⟨touches, spansNonempty, band, merged, -⟩
  · have unchanged : result.1.rects = reg.rects := same
    rw [unchanged]
    exact ⟨banded, fun _ _ => Iff.rfl, fun rect member => ⟨rect, member, rfl⟩⟩
  · have mergedRects : result.1.rects = _ := merged
    have split : head :: tail = onLevel head.top head.bottom spans ++ afterBand (head :: tail) := by
      rw [← band, bandOf_append_afterBand]
    have bandedCurrent : Banded (head :: tail) := by
      rw [current] at banded
      exact (banded_append.mp banded).2.1
    rw [split, touches] at current
    rw [current] at banded
    obtain ⟨bandedMerged, points⟩ := merge_bands banded spansNonempty preAbove
        (bottom_le_afterBand bandedCurrent)
    rw [mergedRects, current]
    refine ⟨bandedMerged, points, ?_⟩
    intro rect member
    simp only [mem_append] at member
    rcases member with (member | member) | member
    · exact ⟨rect, by simp [member], rfl⟩
    · obtain ⟨span, spanMember, rfl⟩ := mem_map.mp member
      exact ⟨_, mem_append_right _ (mem_append_left _ (mem_map_of_mem spanMember)), rfl⟩
    · exact ⟨rect, by simp [member], rfl⟩

/-! ## The frontier -/

/-- The line at `y` differs from the one above it. -/
def Changes (points : Int → Int → Prop) (y : Int) : Prop := ∃ x, ¬ (points x (y - 1) ↔ points x y)

/-- Every rectangle ends at a line where the points change. -/
def Settled (points : Int → Int → Prop) (rects : List Rect) : Prop :=
  ∀ rect ∈ rects, Changes points rect.bottom

theorem settled_nil (points : Int → Int → Prop) : Settled points [] := by simp [Settled]

theorem Changes.congr {points points' : Int → Int → Prop} {y : Int} (changes : Changes points y)
    (same : ∀ x, ∀ line ≥ y - 1, points x line ↔ points' x line) :
    Changes points' y := by
  rcases changes with ⟨x, differs⟩
  refine ⟨x, ?_⟩
  rwa [← same x (y - 1) le_rfl, ← same x y (by omega)]

/--
The destination holds exactly the points of `image` above `ybot`, and its
last band starts at index `prevBand`.  The bands before the last one end where
the image changes.
-/
structure Frontier (image : Int → Int → Prop) (rects : List Rect)
    (ybot : Int) (prevBand : Nat) : Prop where
  banded : Banded rects
  above : ∀ rect ∈ rects, rect.bottom ≤ ybot
  points : ∀ x y, y < ybot → (Contains rects x y ↔ image x y)
  last : ∃ pre top bottom spans, rects = pre ++ onLevel top bottom spans ∧ pre.length = prevBand ∧
      ∀ rect ∈ pre, rect.bottom ≤ top
  settled : Settled image (rects.take prevBand)

namespace Frontier

variable {image : Int → Int → Prop} {rects : List Rect}
variable {ybot : Int} {prevBand : Nat}

theorem not_contains (frontier : Frontier image rects ybot prevBand) {x y : Int}
    (below : ybot ≤ y) :
    ¬ Contains rects x y := by
  rintro ⟨rect, member, -, -, bottom⟩
  have := frontier.above rect member
  omega

/-- Move the frontier over lines that hold no point of the image. -/
theorem advance (frontier : Frontier image rects ybot prevBand) {ybot' : Int} (lower : ybot ≤ ybot')
    (empty : ∀ x y, ybot ≤ y → y < ybot' → ¬ image x y) :
    Frontier image rects ybot' prevBand where
  banded := frontier.banded
  above rect member := (frontier.above rect member).trans lower
  points x y inside := by
    rcases lt_or_ge y ybot with old | new
    · exact frontier.points x y old
    · exact iff_of_false (frontier.not_contains new) (empty x y new inside)
  last := frontier.last
  settled := frontier.settled

variable {pre : List Rect} {top bottom : Int} {spans : List (Span Int)}

section

variable (frontier : Frontier image rects ybot prevBand)
  (split : rects = pre ++ onLevel top bottom spans) (preAbove : ∀ rect ∈ pre, rect.bottom ≤ top)
  (spansNonempty : spans ≠ [])
include frontier split preAbove spansNonempty

/--
The last band ends where the image changes, unless it reaches the frontier
and the image goes on with the same line.
-/
theorem changes_last (differs : bottom = ybot → ∃ x, ¬ (Covers spans x ↔ image x ybot)) :
    Changes image bottom := by
  rcases exists_cons_of_ne_nil spansNonempty with ⟨span, spans', cons⟩
  have member : ⟨span.lo, top, span.hi, bottom⟩ ∈ rects := by simp [split, cons, onLevel]
  have proper := frontier.banded.1 _ member
  have reached := frontier.above _ member
  simp only [Rect.Proper] at proper reached
  have absent : ∀ x, ∀ y ≥ top, ¬ Contains pre x y := by
    rintro x y low ⟨rect, rectMember, -, -, high⟩
    have := preAbove rect rectMember
    omega
  have lastLine : ∀ x, image x (bottom - 1) ↔ Covers spans x := by
    intro x
    rw [← frontier.points x (bottom - 1) (by omega), split, contains_append, contains_onLevel]
    have vertical : top ≤ bottom - 1 ∧ bottom - 1 < bottom := by omega
    tauto
  rcases reached.lt_or_eq with above | touches
  · refine ⟨span.lo, ?_⟩
    have covered : Covers spans span.lo := by
      rw [cons, covers_cons]
      exact .inl ⟨le_rfl, proper.1⟩
    have nextLine : ¬ image span.lo bottom := by
      rw [← frontier.points _ bottom above, split, contains_append, contains_onLevel]
      have := absent span.lo bottom (by omega)
      simp only [this, lt_self_iff_false, and_false, or_self, not_false_eq_true]
    rw [lastLine]
    exact fun same => nextLine (same.mp covered)
  · rcases differs touches with ⟨x, differs⟩
    refine ⟨x, ?_⟩
    rwa [lastLine, touches]

/-- The last band ends at a change if the image stops at the frontier. -/
theorem changes_of_empty (empty : ∀ x, ¬ image x ybot) :
    Changes image bottom := by
  rcases exists_mem_of_ne_nil _ spansNonempty with ⟨span, member⟩
  have proper := frontier.banded.1 ⟨span.lo, top, span.hi, bottom⟩
    (split ▸ mem_append_right _ (mem_map_of_mem member))
  have covered : Covers spans span.lo := ⟨span, member, le_rfl, proper.1⟩
  exact frontier.changes_last split preAbove spansNonempty fun _ =>
    ⟨span.lo, fun same => empty _ (same.mp covered)⟩

/-- A last band that cannot be merged with what follows ends at a change. -/
theorem changes_unmerged {head : Rect} {tail : List Rect} (banded : Banded (head :: tail))
    (below : ybot ≤ head.top) (agrees : ∀ x, image x ybot ↔ Contains (head :: tail) x ybot)
    (apart : ¬ (spans ≠ [] ∧ bottom = head.top ∧ spans = (bandOf (head :: tail)).map Rect.span)) :
    Changes image bottom := by
  have tall := (banded.1 head mem_cons_self).2
  have nextLine : ∀ x, image x ybot ↔ Covers ((bandOf (head :: tail)).map Rect.span) x ∧
      head.top ≤ ybot := by
    intro x
    rw [agrees, contains_head banded x (by omega)]
  rcases below.lt_or_eq with gap | meets
  · apply frontier.changes_of_empty split preAbove spansNonempty
    exact fun x inside => not_le.mpr gap ((nextLine x).mp inside).2
  · refine frontier.changes_last split preAbove spansNonempty fun touches => ?_
    by_contra unchanged
    simp only [not_exists, not_not] at unchanged
    have bandedLast : Banded (onLevel top bottom spans) := by
      have banded := frontier.banded
      rw [split] at banded
      exact (banded_append.mp banded).2.1
    refine apart ⟨spansNonempty, touches.trans meets, ?_⟩
    refine (separated_of_onLevel bandedLast).eq_of_covers (separated_bandOf banded) fun x => ?_
    rw [unchanged, nextLine, and_iff_left meets.ge]

end

section

variable {reg : Region} {added : List Rect} (frontier : Frontier image rects ybot prevBand)
  (appended : reg.rects = rects ++ added) (banded : Banded added)
  (below : ∀ rect ∈ added, ybot ≤ rect.top)
include frontier appended banded below

/-- Rectangles from the frontier on bring their own points. -/
theorem append {shown : Int → Prop}
    (agrees : ∀ x y, ybot ≤ y → shown y → (image x y ↔ Contains added x y)) :
    Banded reg.rects ∧ ∀ x y, shown y → (Contains reg.rects x y ↔ image x y) := by
  rw [appended]
  refine ⟨banded_append.mpr ⟨frontier.banded, banded, ?_⟩, fun x y seen => ?_⟩
  · intro above aboveMember later laterMember
    exact .inr ((frontier.above above aboveMember).trans (below later laterMember))
  · rw [contains_append]
    rcases lt_or_ge y ybot with old | new
    · have absent : ¬ Contains added x y := by
        rintro ⟨rect, member, -, top, -⟩
        have := below rect member
        omega
      rw [frontier.points x y old, or_iff_left absent]
    · rw [agrees x y new seen, or_iff_right (frontier.not_contains new)]

/--
Closing the band either leaves the rectangles, and the old ones end at changes,
or merges the last band with the first of the new ones.
-/
theorem close (bandedReg : Banded reg.rects) (agrees : ∀ x, image x ybot ↔ Contains added x ybot) :
    let closed := closeBand reg prevBand rects.length
    (Banded closed.1.rects ∧ (∀ x y, Contains closed.1.rects x y ↔ Contains reg.rects x y) ∧
        ∀ rect ∈ closed.1.rects, ∃ old ∈ reg.rects, rect.bottom = old.bottom) ∧
      ((closed.1.rects = reg.rects ∧ Settled image rects ∧ (afterBand added = [] →
          closed.2 = if added = [] then prevBand else rects.length)) ∨
        ∃ pre top spans, ∃ head ∈ added,
          closed.1.rects = pre ++ onLevel top head.bottom spans ++ afterBand added ∧
          Settled image pre ∧ (∀ rect ∈ pre, rect.bottom ≤ top) ∧
          (afterBand added = [] → closed.2 = pre.length)) := by
  rcases frontier.last with ⟨pre, top, bottom, lastSpans, split, prevStart, preAbove⟩
  have settledPre : Settled image pre := by
    have settled := frontier.settled
    rwa [split, ← prevStart, take_left] at settled
  have settledAll (changes : lastSpans ≠ [] → Changes image bottom) : Settled image rects := by
    rw [split]
    refine forall_mem_append.mpr ⟨settledPre, fun rect member => ?_⟩
    rw [(level_onLevel rect member).2]
    exact changes fun none => not_mem_nil (none ▸ member)
  cases added with
  | nil =>
    have same : reg.rects = rects := by simpa using appended
    have closed : closeBand reg prevBand rects.length = (reg, prevBand) := by simp [closeBand, same]
    rw [closed]
    refine ⟨⟨bandedReg, fun _ _ => Iff.rfl, fun rect member => ⟨rect, member, rfl⟩⟩,
      .inl ⟨rfl, settledAll fun nonempty => ?_, fun _ => rfl⟩⟩
    exact frontier.changes_of_empty split preAbove nonempty fun x inside =>
      contains_nil ((agrees x).mp inside)
  | cons head tail =>
    have changed : reg.rects.length ≠ rects.length := by simp [appended]
    have closed : closeBand reg prevBand rects.length =
        coalesceRegion reg pre.length (pre ++ onLevel top bottom lastSpans).length := by
      rw [closeBand, if_pos changed, prevStart, ← split]
    have current : reg.rects = pre ++ onLevel top bottom lastSpans ++ head :: tail := by
      rw [appended, split]
    rw [closed]
    refine ⟨coalesceRegion_spec current bandedReg preAbove, ?_⟩
    rcases coalesceRegion_cases current bandedReg with
      ⟨same, start, apart⟩ | ⟨-, -, -, merged, start⟩
    · refine .inl ⟨same, settledAll fun nonempty => ?_,
        fun one => (start one).trans (by simp [split])⟩
      exact frontier.changes_unmerged split preAbove nonempty banded
        (below head mem_cons_self) agrees apart
    · exact .inr ⟨pre, top, lastSpans, head, mem_cons_self, merged, settledPre, preAbove, start⟩

end

/-- Append one band at the frontier and coalesce. -/
theorem emit {reg : Region} (frontier : Frontier image rects ybot prevBand) {ybot' : Int}
    (appended : reg.rects = rects ++ onLevel ybot ybot' spans) (separated : Separated spans)
    (tall : ybot < ybot') (exactly : ∀ x y, ybot ≤ y → y < ybot' → (image x y ↔ Covers spans x)) :
    Frontier image (closeBand reg prevBand rects.length).1.rects ybot'
      (closeBand reg prevBand rects.length).2 := by
  set closed := closeBand reg prevBand rects.length
  have agrees : ∀ x y, ybot ≤ y → y < ybot' →
      (image x y ↔ Contains (onLevel ybot ybot' spans) x y) := by
    intro x y low high
    rw [exactly x y low high, contains_onLevel, and_iff_left ⟨low, high⟩]
  have banded := banded_onLevel separated tall
  have below : ∀ rect ∈ onLevel ybot ybot' spans, ybot ≤ rect.top :=
    fun rect member => (level_onLevel rect member).1.ge
  -- The new rectangles are one band, so nothing follows it.
  have oneBand : afterBand (onLevel ybot ybot' spans) = [] := by
    cases spans <;> simp [afterBand, onLevel]
  obtain ⟨bandedReg, points⟩ := frontier.append appended banded below agrees
  obtain ⟨⟨banded, samePoints, bottoms⟩, cases⟩ := frontier.close appended banded below bandedReg
    fun x => agrees x ybot le_rfl tall
  have above : ∀ rect ∈ reg.rects, rect.bottom ≤ ybot' := by
    rw [appended]
    exact forall_mem_append.mpr ⟨fun rect member => (frontier.above rect member).trans tall.le,
      fun rect member => (level_onLevel rect member).2.le⟩
  have lastBand : (∃ pre top bottom spans, closed.1.rects = pre ++ onLevel top bottom spans ∧
        pre.length = closed.2 ∧ ∀ rect ∈ pre, rect.bottom ≤ top) ∧
      Settled image (closed.1.rects.take closed.2) := by
    rcases cases with ⟨same, settled, start⟩ |
      ⟨pre, top, lastSpans, head, member, merged, settled, preAbove, start⟩
    · rw [same, start oneBand, appended]
      by_cases none : onLevel ybot ybot' spans = []
      · rw [if_pos none, none, append_nil]
        exact ⟨frontier.last, frontier.settled⟩
      · rw [if_neg none, take_left]
        exact ⟨⟨rects, ybot, ybot', spans, rfl, rfl, frontier.above⟩, settled⟩
    · rw [merged, start oneBand, oneBand, append_nil, take_left]
      exact ⟨⟨pre, top, _, lastSpans, rfl, rfl, preAbove⟩, settled⟩
  refine ⟨banded, fun rect member => ?_,
    fun x y inside => (samePoints x y).trans (points x y inside), lastBand.1, lastBand.2⟩
  obtain ⟨old, oldMember, equal⟩ := bottoms rect member
  rw [equal]
  exact above old oldMember

end Frontier

end WineRedRose.Regions
