import Mathlib.Tactic

/-!
# Separated span lists

A span is a half-open interval of a linear order.  A list of spans is
*separated* when every span is inhabited and every span ends strictly before
the next one begins.  This module develops the three one-dimensional set
operations on separated lists as single left-to-right merges, and proves for
each of them the exact set of covered positions together with the separation
of its result.
-/

namespace WineRedRose.Library.Spans

open List

/-- A half-open interval `[lo, hi)`. -/
structure Span (α : Type) where
  lo : α
  hi : α
deriving DecidableEq, Repr

variable {α : Type} [LinearOrder α]

/-- The position lies in one of the spans. -/
def Covers (spans : List (Span α)) (position : α) : Prop :=
  ∃ span ∈ spans, span.lo ≤ position ∧ position < span.hi

/-- Every span is inhabited, and consecutive spans do not touch. -/
def Separated (spans : List (Span α)) : Prop := (∀ span ∈ spans, span.lo < span.hi) ∧
    spans.Pairwise fun left right => left.hi < right.lo

variable {position : α}

@[simp]
theorem covers_nil (position : α) : ¬ Covers ([] : List (Span α)) position := by simp [Covers]

@[simp]
theorem covers_cons (span : Span α) (spans : List (Span α)) (position : α) :
    Covers (span :: spans) position ↔ (span.lo ≤ position ∧ position < span.hi) ∨
      Covers spans position := by
  simp [Covers]

@[simp]
theorem covers_append (left right : List (Span α)) (position : α) :
    Covers (left ++ right) position ↔ Covers left position ∨ Covers right position := by
  simp [Covers, or_and_right, exists_or]

@[simp]
theorem separated_nil : Separated ([] : List (Span α)) := by simp [Separated]

variable {span : Span α} {spans firsts seconds : List (Span α)} {bound left : α}

theorem separated_cons : Separated (span :: spans) ↔
      span.lo < span.hi ∧ (∀ later ∈ spans, span.hi < later.lo) ∧ Separated spans := by
  simp only [Separated, pairwise_cons, forall_mem_cons]
  tauto

theorem covers_start (inhabited : span.lo < span.hi) : Covers (span :: spans) span.lo :=
  (covers_cons _ _ _).mpr (.inl ⟨le_rfl, inhabited⟩)

theorem Separated.tail (separated : Separated (span :: spans)) :
    Separated spans :=
  (separated_cons.mp separated).2.2

theorem separated_append {left right : List (Span α)} :
    Separated (left ++ right) ↔ Separated left ∧ Separated right ∧
      ∀ first ∈ left, ∀ second ∈ right, first.hi < second.lo := by
  simp only [Separated, pairwise_append, mem_append, or_imp, forall_and]
  tauto

/-- A bound below every span start excludes the positions up to it. -/
theorem not_covers_of_le (above : ∀ span ∈ spans, bound < span.lo) (low : position ≤ bound) :
    ¬ Covers spans position := by
  rintro ⟨span, member, start, -⟩
  exact absurd (lt_of_lt_of_le (above span member) start) (not_lt.mpr low)

/-- What covers no more starts no earlier. -/
theorem Separated.above {spans' : List (Span α)} (separated : Separated spans)
    (within : ∀ position, Covers spans position → Covers spans' position)
    (above : ∀ span ∈ spans', bound < span.lo) : ∀ span ∈ spans, bound < span.lo := by
  intro span member
  by_contra low
  have covered := within span.lo ⟨span, member, le_rfl, separated.1 span member⟩
  exact not_covers_of_le above (not_lt.mp low) covered

/-- The later spans cover what the list covers from the first end on. -/
theorem covers_tail_iff (separated : Separated (span :: spans)) :
    Covers spans position ↔ Covers (span :: spans) position ∧ span.hi ≤ position := by
  rw [covers_cons]
  constructor
  · intro covered
    refine ⟨.inr covered, ?_⟩
    by_contra low
    exact not_covers_of_le (separated_cons.mp separated).2.1 (not_le.mp low).le covered
  · rintro ⟨inside | covered, high⟩
    · exact absurd inside.2 (not_lt.mpr high)
    · exact covered

/-- The first span of a list starts at its least covered position. -/
theorem start_le_of_covers {span' : Span α} {spans' : List (Span α)}
    (separated : Separated (span :: spans))
    (same : ∀ position, Covers (span :: spans) position ↔ Covers (span' :: spans') position)
    (inhabited : span'.lo < span'.hi) :
    span.lo ≤ span'.lo := by
  rcases separated_cons.mp separated with ⟨tall, later, -⟩
  have covered := (same span'.lo).mpr (covers_start inhabited)
  rcases (covers_cons _ _ _).mp covered with inside | ⟨other, member, start, -⟩
  · exact inside.1
  · exact (tall.trans (later other member)).le.trans start

/-- The end of the first span is the first position after it not covered. -/
theorem end_le_of_covers {span' : Span α} {spans' : List (Span α)}
    (separated' : Separated (span' :: spans')) (lo : span.lo = span'.lo)
    (same : ∀ position, Covers (span :: spans) position ↔ Covers (span' :: spans') position) :
    span.hi ≤ span'.hi := by
  rcases separated_cons.mp separated' with ⟨tall, later, -⟩
  by_contra longer
  have covered := (same span'.hi).mp ((covers_cons _ _ _).mpr
    (.inl ⟨lo ▸ tall.le, not_le.mp longer⟩))
  rcases (covers_cons _ _ _).mp covered with inside | covered
  · exact absurd inside.2 (lt_irrefl _)
  · exact not_covers_of_le later le_rfl covered

/-- Separated lists are determined by the positions that they cover. -/
theorem Separated.eq_of_covers {first second : List (Span α)} (separated1 : Separated first)
    (separated2 : Separated second)
    (same : ∀ position, Covers first position ↔ Covers second position) :
    first = second := by
  induction first generalizing second with
  | nil =>
    cases second with
    | nil => rfl
    | cons span spans =>
      have covered := (same span.lo).mpr (covers_start (separated_cons.mp separated2).1)
      exact absurd covered (covers_nil _)
  | cons span spans ih =>
    cases second with
    | nil =>
      have covered := (same span.lo).mp (covers_start (separated_cons.mp separated1).1)
      exact absurd covered (covers_nil _)
    | cons span' spans' =>
      have lo : span.lo = span'.lo := le_antisymm (start_le_of_covers separated1 same
            (separated_cons.mp separated2).1)
          (start_le_of_covers separated2 (fun position => (same position).symm)
            (separated_cons.mp separated1).1)
      have hi : span.hi = span'.hi := le_antisymm (end_le_of_covers separated2 lo same)
          (end_le_of_covers separated1 lo.symm fun position => (same position).symm)
      have tails : spans = spans' := by
        refine ih separated1.tail separated2.tail fun position => ?_
        rw [covers_tail_iff separated1, covers_tail_iff separated2, same position, hi]
      cases span
      cases span'
      simp only at lo hi
      rw [lo, hi, tails]

/-! ## Intersection -/

/-- The overlap of two spans, when there is one. -/
def overlap (first second : Span α) : List (Span α) :=
  if max first.lo second.lo < min first.hi second.hi then
    [⟨max first.lo second.lo, min first.hi second.hi⟩]
  else []

/-- Intersect two separated lists, dropping the span that ends first. -/
def inter : List (Span α) → List (Span α) → List (Span α)
  | first :: firsts, second :: seconds =>
    if first.hi < second.hi then overlap first second ++ inter firsts (second :: seconds)
    else if second.hi < first.hi then overlap first second ++ inter (first :: firsts) seconds
    else overlap first second ++ inter firsts seconds
  | _, _ => []
termination_by firsts seconds => firsts.length + seconds.length

theorem covers_overlap (first second : Span α) :
    Covers (overlap first second) position ↔ (first.lo ≤ position ∧ position < first.hi) ∧
        (second.lo ≤ position ∧ position < second.hi) := by
  unfold overlap
  split_ifs with inhabited
  · simp only [covers_cons, covers_nil, or_false, max_le_iff, lt_min_iff]
    tauto
  · simp only [covers_nil, false_iff]
    rintro ⟨⟨firstLo, firstHi⟩, secondLo, secondHi⟩
    exact inhabited (lt_of_le_of_lt (max_le firstLo secondLo) (lt_min firstHi secondHi))

/-- Positions inside the head of a separated list are in no later span. -/
theorem not_covers_tail (position : α) (separated : Separated (span :: spans))
    (inside : position ≤ span.hi) :
    ¬ Covers spans position :=
  not_covers_of_le (separated_cons.mp separated).2.1 inside

/-- The overlap ends no later than either span, so what follows one of them
strictly follows the overlap. -/
private theorem separated_overlap_append {first second : Span α} {both : List (Span α)}
    (rest : Separated both)
    (within : ∀ position, Covers both position ↔ Covers firsts position ∧ Covers seconds position)
    (after : (∀ span ∈ firsts, first.hi < span.lo) ∨ ∀ span ∈ seconds, second.hi < span.lo) :
    Separated (overlap first second ++ both) := by
  unfold overlap
  split_ifs with inhabited
  · rw [singleton_append, separated_cons]
    refine ⟨inhabited, ?_, rest⟩
    rcases after with after | after
    · exact rest.above (fun _ covered => ((within _).mp covered).1)
        fun later member => (min_le_left _ _).trans_lt (after later member)
    · exact rest.above (fun _ covered => ((within _).mp covered).2)
        fun later member => (min_le_right _ _).trans_lt (after later member)
  · simpa using rest

theorem inter_spec (separatedFirst : Separated firsts) (separatedSecond : Separated seconds) :
    Separated (inter firsts seconds) ∧ ∀ position, Covers (inter firsts seconds) position ↔
      Covers firsts position ∧ Covers seconds position := by
  fun_induction inter firsts seconds with
  | case1 first firsts second seconds isShorter ih =>
    obtain ⟨rest, covers⟩ := ih separatedFirst.tail separatedSecond
    refine ⟨separated_overlap_append rest covers (.inl (separated_cons.mp separatedFirst).2.1),
      fun position => ?_⟩
    have dropped : position < first.hi → ¬ Covers seconds position :=
      fun inside => not_covers_tail _ separatedSecond (inside.trans isShorter).le
    rw [covers_append, covers_overlap, covers]
    simp only [covers_cons]
    grind
  | case2 first firsts second seconds notShorter isLonger ih =>
    obtain ⟨rest, covers⟩ := ih separatedFirst separatedSecond.tail
    refine ⟨separated_overlap_append rest covers (.inr (separated_cons.mp separatedSecond).2.1),
      fun position => ?_⟩
    have dropped : position < second.hi → ¬ Covers firsts position :=
      fun inside => not_covers_tail _ separatedFirst (inside.trans isLonger).le
    rw [covers_append, covers_overlap, covers]
    simp only [covers_cons]
    grind
  | case3 first firsts second seconds notShorter notLonger ih =>
    obtain ⟨rest, covers⟩ := ih separatedFirst.tail separatedSecond.tail
    refine ⟨separated_overlap_append rest covers (.inl (separated_cons.mp separatedFirst).2.1),
      fun position => ?_⟩
    have sameEnd : first.hi = second.hi := le_antisymm (not_lt.mp notLonger) (not_lt.mp notShorter)
    have droppedFirst : position < first.hi → ¬ Covers seconds position :=
      fun inside => not_covers_tail _ separatedSecond (sameEnd ▸ inside.le)
    have droppedSecond : position < second.hi → ¬ Covers firsts position :=
      fun inside => not_covers_tail _ separatedFirst (sameEnd ▸ inside.le)
    rw [covers_append, covers_overlap, covers]
    simp only [covers_cons]
    grind
  | case4 firsts seconds oneEmpty =>
    cases firsts with
    | nil => simp
    | cons first firsts =>
      cases seconds with
      | nil => simp
      | cons second seconds => exact (oneEmpty first firsts second seconds rfl rfl).elim

/-! ## Difference -/

/-- The start of the first span, or a default when there is none. -/
def startOr (default : α) : List (Span α) → α
  | [] => default
  | span :: _ => span.lo

/-- Replace the start of the first span. -/
def trim (left : α) : List (Span α) → List (Span α)
  | [] => []
  | span :: spans => ⟨left, span.hi⟩ :: spans

omit [LinearOrder α] in
@[simp]
theorem trim_startOr (default : α) : trim (startOr default spans) spans = spans := by
  cases spans <;> rfl

theorem Separated.trim_tail {default : α} (separated : Separated (trim left (span :: spans))) :
    Separated (trim (startOr default spans) spans) := by
  rw [trim_startOr]
  exact separated.tail

theorem Separated.trim_of_lt {stop : α} (separated : Separated (trim left (span :: spans)))
    (reached : stop < span.hi) : Separated (trim stop (span :: spans)) :=
  separated_cons.mpr ⟨reached, (separated_cons.mp separated).2⟩

theorem not_covers_trim_tail (position : α) (separated : Separated (trim left (span :: spans)))
    (inside : position ≤ span.hi) : ¬ Covers spans position :=
  not_covers_of_le (separated_cons.mp separated).2.1 inside

/--
Subtract the second list from the first one, of which the part before
`left` has already been dealt with.
-/
def diffFrom (left : α) : List (Span α) → List (Span α) → List (Span α)
  | [], _ => []
  | first :: firsts, [] => ⟨left, first.hi⟩ :: diffFrom (startOr left firsts) firsts []
  | first :: firsts, second :: seconds =>
    if second.hi ≤ left then diffFrom left (first :: firsts) seconds
    else if second.lo ≤ left then
      if first.hi ≤ second.hi then diffFrom (startOr second.hi firsts) firsts (second :: seconds)
      else diffFrom second.hi (first :: firsts) seconds
    else if second.lo < first.hi then
      if first.hi ≤ second.hi then
        ⟨left, second.lo⟩ :: diffFrom (startOr second.hi firsts) firsts (second :: seconds)
      else ⟨left, second.lo⟩ :: diffFrom second.hi (first :: firsts) seconds
    else ⟨left, first.hi⟩ :: diffFrom (startOr left firsts) firsts (second :: seconds)
termination_by firsts seconds => firsts.length + seconds.length

/-- A span in front of what covers no more than the spans behind it. -/
theorem Separated.cons_of_covers {spans' : List (Span α)} {other : α → Prop}
    (separated : Separated spans)
    (covers : ∀ position, Covers spans position ↔ Covers spans' position ∧ other position)
    (inhabited : span.lo < span.hi) (after : ∀ later ∈ spans', span.hi < later.lo) :
    Separated (span :: spans) :=
  separated_cons.mpr ⟨inhabited,
    separated.above (fun position covered => ((covers position).mp covered).1) after, separated⟩

theorem diffFrom_spec (separatedFirst : Separated (trim left firsts))
    (separatedSecond : Separated seconds) : Separated (diffFrom left firsts seconds) ∧
      ∀ position, Covers (diffFrom left firsts seconds) position ↔
      Covers (trim left firsts) position ∧ ¬ Covers seconds position := by
  fun_induction diffFrom left firsts seconds with
  | case1 => simp [trim]
  | case2 left first firsts ih =>
    obtain ⟨inhabited, after, -⟩ := separated_cons.mp separatedFirst
    obtain ⟨rest, covers⟩ := ih separatedFirst.trim_tail separatedSecond
    rw [trim_startOr] at covers
    refine ⟨rest.cons_of_covers covers inhabited after, fun position => ?_⟩
    simp [trim, covers]
  | case3 left first firsts second seconds passed ih =>
    refine (ih separatedFirst separatedSecond.tail).imp_right fun covers position => ?_
    rw [covers]
    simp only [trim, covers_cons]
    have inhabited : left < first.hi := (separated_cons.mp separatedFirst).1
    have firstsAfter := not_covers_trim_tail position separatedFirst
    grind
  | case4 left first firsts second seconds notPassed started swallowed ih =>
    refine (ih separatedFirst.trim_tail separatedSecond).imp_right fun covers position => ?_
    rw [covers, trim_startOr]
    simp only [trim, covers_cons]
    grind
  | case5 left first firsts second seconds notPassed started reached ih =>
    have trimmed := separatedFirst.trim_of_lt (not_le.mp reached)
    refine (ih trimmed separatedSecond.tail).imp_right fun covers position => ?_
    have firstsAfter := not_covers_trim_tail position separatedFirst
    rw [covers]
    simp only [trim, covers_cons]
    grind
  | case7 left first firsts second seconds notPassed notStarted meets reached ih =>
    obtain ⟨-, after, -⟩ := separated_cons.mp separatedFirst
    have secondInhabited := (separated_cons.mp separatedSecond).1
    have trimmed := separatedFirst.trim_of_lt (not_le.mp reached)
    obtain ⟨rest, covers⟩ := ih trimmed separatedSecond.tail
    refine ⟨rest.cons_of_covers covers (not_le.mp notStarted) (forall_mem_cons.mpr
      ⟨secondInhabited, fun span member => meets.trans (after span member)⟩), fun position => ?_⟩
    have secondsAfter := not_covers_tail position separatedSecond
    have firstsAfter := not_covers_trim_tail position separatedFirst
    rw [covers_cons, covers]
    simp only [trim, covers_cons]
    grind
  | case6 left first firsts second seconds notPassed notStarted meets _ ih
  | case8 left first firsts second seconds notPassed notStarted meets ih =>
    obtain ⟨inhabited, after, -⟩ := separated_cons.mp separatedFirst
    have secondInhabited := (separated_cons.mp separatedSecond).1
    obtain ⟨rest, covers⟩ := ih separatedFirst.trim_tail separatedSecond
    rw [trim_startOr] at covers
    refine ⟨rest.cons_of_covers covers (by grind) (by grind), fun position => ?_⟩
    have secondsAfter := not_covers_tail position separatedSecond
    rw [covers_cons, covers]
    simp only [trim, covers_cons]
    grind

/-! ## Union -/

/--
Add a span at the end of a list, extending the last span when the new one
touches it.
-/
def absorb (spans : List (Span α)) (span : Span α) : List (Span α) :=
  match spans.getLast? with
  | some last =>
    if span.lo ≤ last.hi then
      if last.hi < span.hi then spans.dropLast ++ [⟨last.lo, span.hi⟩]
      else spans
    else spans ++ [span]
  | none => spans ++ [span]

/-- Absorb two lists in the order in which their spans start. -/
def unionInto (out : List (Span α)) : List (Span α) → List (Span α) → List (Span α)
  | [], [] => out
  | first :: firsts, [] => unionInto (absorb out first) firsts []
  | [], second :: seconds => unionInto (absorb out second) [] seconds
  | first :: firsts, second :: seconds =>
    if first.lo < second.lo then unionInto (absorb out first) firsts (second :: seconds)
    else unionInto (absorb out second) (first :: firsts) seconds
termination_by firsts seconds => firsts.length + seconds.length

/-- The three ways a span is absorbed. -/
theorem absorb_cases (spans : List (Span α)) (span : Span α) :
    (absorb spans span = spans ++ [span] ∧
        ∀ earlier last, spans = earlier ++ [last] → last.hi < span.lo) ∨
      ∃ earlier last, spans = earlier ++ [last] ∧ span.lo ≤ last.hi ∧
        absorb spans span = earlier ++ [⟨last.lo, max last.hi span.hi⟩] := by
  rcases eq_nil_or_concat' spans with rfl | ⟨earlier, last, rfl⟩
  · exact .inl ⟨by simp [absorb], by simp⟩
  · by_cases touches : span.lo ≤ last.hi
    · refine .inr ⟨earlier, last, rfl, touches, ?_⟩
      by_cases longer : last.hi < span.hi
      · simp [absorb, touches, longer, max_eq_right longer.le]
      · simp [absorb, touches, longer, max_eq_left (not_lt.mp longer)]
    · refine .inl ⟨by simp [absorb, touches], ?_⟩
      intro earlier' last' equal
      have sameLast : last = last' := by simpa using append_inj_right' equal rfl
      rw [← sameLast]
      exact not_le.mp touches

theorem absorb_starts (starts : ∀ other ∈ spans, other.lo ≤ bound) (start : span.lo ≤ bound) :
    ∀ other ∈ absorb spans span, other.lo ≤ bound := by
  rcases absorb_cases spans span with ⟨equal, -⟩ | ⟨earlier, last, rfl, -, equal⟩
  · rw [equal, forall_mem_append, forall_mem_singleton]
    exact ⟨starts, start⟩
  · rw [forall_mem_append, forall_mem_singleton] at starts
    rw [equal, forall_mem_append, forall_mem_singleton]
    exact starts

theorem covers_absorb (starts : ∀ other ∈ spans, other.lo ≤ span.lo) (inhabited : span.lo < span.hi)
    (position : α) : Covers (absorb spans span) position ↔
      Covers spans position ∨ (span.lo ≤ position ∧ position < span.hi) := by
  rcases absorb_cases spans span with ⟨equal, -⟩ | ⟨earlier, last, rfl, touches, equal⟩
  · simp [equal]
  · simp only [equal, covers_append, covers_cons, covers_nil, or_false, lt_max_iff]
    grind

theorem separated_absorb (separated : Separated spans)
    (starts : ∀ other ∈ spans, other.lo ≤ span.lo) (inhabited : span.lo < span.hi) :
    Separated (absorb spans span) := by
  have single : Separated [span] := separated_cons.mpr ⟨inhabited, by simp, separated_nil⟩
  rcases absorb_cases spans span with ⟨equal, apart⟩ | ⟨earlier, last, rfl, touches, equal⟩
  · rw [equal]
    refine separated_append.mpr ⟨separated, single, ?_⟩
    intro other member only onlyMember
    rw [mem_singleton] at onlyMember
    subst only
    -- Every span ends no later than the last one, which ends before `span`.
    rcases eq_nil_or_concat' spans with rfl | ⟨earlier, last, rfl⟩
    · simp at member
    · obtain ⟨-, lastSingle, ordered⟩ := separated_append.mp separated
      have lastApart := apart earlier last rfl
      rcases mem_append.mp member with member | member
      · have lastInhabited := (separated_cons.mp lastSingle).1
        exact (ordered other member last (by simp)).trans (lastInhabited.trans lastApart)
      · rw [mem_singleton] at member
        exact member ▸ lastApart
  · rw [equal]
    obtain ⟨separatedEarlier, lastSingle, ordered⟩ := separated_append.mp separated
    refine separated_append.mpr ⟨separatedEarlier, ?_, ?_⟩
    · exact separated_cons.mpr ⟨lt_max_of_lt_left (separated_cons.mp lastSingle).1, by simp,
          separated_nil⟩
    · intro other member only onlyMember
      rw [mem_singleton] at onlyMember
      subst only
      exact ordered other member last (by simp)

private theorem later_starts (separated : Separated (span :: spans)) :
    ∀ later ∈ spans, span.lo ≤ later.lo := by
  obtain ⟨inhabited, after, -⟩ := separated_cons.mp separated
  exact fun later member => (inhabited.trans (after later member)).le

/-- A separated list that starts nowhere before a span of the other list. -/
structure Follows (out spans : List (Span α)) : Prop where
  separated : Separated spans
  starts : ∀ span ∈ spans, ∀ other ∈ out, other.lo ≤ span.lo

/-- One head is absorbed that starts no later than the other list. -/
private theorem Follows.absorb {out : List (Span α)} (follows : Follows out (span :: spans))
    (separatedOut : Separated out) (others : Follows out firsts)
    (least : ∀ other ∈ firsts, span.lo ≤ other.lo) :
    Separated (absorb out span) ∧ Follows (Spans.absorb out span) spans ∧
      Follows (Spans.absorb out span) firsts ∧ ∀ position, Covers (Spans.absorb out span) position ↔
        Covers out position ∨ (span.lo ≤ position ∧ position < span.hi) := by
  have starts := follows.starts span mem_cons_self
  have inhabited := (separated_cons.mp follows.separated).1
  refine ⟨separated_absorb separatedOut starts inhabited, ⟨follows.separated.tail, ?_⟩,
    ⟨others.separated, ?_⟩, covers_absorb starts inhabited⟩
  · exact fun later member => absorb_starts (follows.starts later (mem_cons_of_mem _ member))
      (later_starts follows.separated later member)
  · exact fun later member => absorb_starts (others.starts later member) (least later member)

theorem unionInto_spec {out : List (Span α)} (separatedOut : Separated out)
    (first : Follows out firsts) (second : Follows out seconds) :
    Separated (unionInto out firsts seconds) ∧
      ∀ position, Covers (unionInto out firsts seconds) position ↔
      Covers out position ∨ Covers firsts position ∨ Covers seconds position := by
  fun_induction unionInto out firsts seconds with
  | case1 => simpa using separatedOut
  | case2 out span firsts ih =>
    obtain ⟨separatedOut, first, second, absorbed⟩ := first.absorb separatedOut second (by simp)
    refine (ih separatedOut first second).imp_right fun covers position => ?_
    rw [covers position, absorbed position, covers_cons, or_assoc, or_assoc]
  | case3 out span seconds ih =>
    obtain ⟨separatedOut, second, first, absorbed⟩ := second.absorb separatedOut first (by simp)
    refine (ih separatedOut first second).imp_right fun covers position => ?_
    rw [covers position, absorbed position, covers_cons]
    simp only [covers_nil, false_or, or_assoc]
  | case4 out span firsts other seconds isFirst ih =>
    have least : ∀ later ∈ other :: seconds, span.lo ≤ later.lo := forall_mem_cons.mpr
      ⟨isFirst.le, fun later member =>
        isFirst.le.trans (later_starts second.separated later member)⟩
    obtain ⟨separatedOut, first, second, absorbed⟩ := first.absorb separatedOut second least
    refine (ih separatedOut first second).imp_right fun covers position => ?_
    rw [covers position, absorbed position, covers_cons span, or_assoc, or_assoc]
  | case5 out other firsts span seconds notFirst ih =>
    have least : ∀ later ∈ other :: firsts, span.lo ≤ later.lo := forall_mem_cons.mpr
      ⟨not_lt.mp notFirst, fun later member =>
        (not_lt.mp notFirst).trans (later_starts first.separated later member)⟩
    obtain ⟨separatedOut, second, first, absorbed⟩ := second.absorb separatedOut first least
    refine (ih separatedOut first second).imp_right fun covers position => ?_
    rw [covers position, absorbed position, covers_cons span, or_assoc,
      or_left_comm (b := Covers _ _)]

/-! ## Adding a span

The spans before the new one are skipped, and it is joined to those that it
meets or touches; how the following ones are joined is left open.
-/

/-- The joined end, and the spans that are left behind it. -/
abbrev Merge (α : Type) := α → List (Span α) → α × List (Span α)

/-- Every following span that starts at or before the end is joined to it. -/
def Joins (merge : Merge α) : Prop := ∀ stop spans, Separated spans →
    stop ≤ (merge stop spans).1 ∧ Separated (merge stop spans).2 ∧
      (∀ span ∈ (merge stop spans).2, (merge stop spans).1 < span.lo) ∧
      ∀ x, x < (merge stop spans).1 ∨ Covers (merge stop spans).2 x ↔ x < stop ∨ Covers spans x

/-- Add the points from `start` up to `stop`. -/
def insertWith (merge : Merge α) (start stop : α) : List (Span α) → List (Span α)
  | [] => [⟨start, stop⟩]
  | span :: spans =>
    if stop < span.lo then ⟨start, stop⟩ :: span :: spans
    else if span.hi < start then span :: insertWith merge start stop spans
    else
      let lo := if start < span.lo then start else span.lo
      if span.hi < stop then ⟨lo, (merge stop spans).1⟩ :: (merge stop spans).2
      else ⟨lo, span.hi⟩ :: spans

variable {merge : Merge α} {start stop : α} {spans : List (Span α)}

theorem insertWith_above (stop : α) (low : bound < start) (above : ∀ span ∈ spans, bound < span.lo)
    (joins : Joins merge) (separated : Separated spans) :
    ∀ span ∈ insertWith merge start stop spans, bound < span.lo := by
  induction spans with
  | nil => simpa [insertWith] using low
  | cons span spans ih =>
    have rest := joins stop spans separated.tail
    have head := separated_cons.mp separated
    simp only [forall_mem_cons] at above
    have tail := ih above.2 separated.tail
    grind [insertWith]

theorem insertWith_spec (joins : Joins merge) (proper : start < stop)
    (separated : Separated spans) : Separated (insertWith merge start stop spans) ∧
      ∀ x, Covers (insertWith merge start stop spans) x ↔
      Covers spans x ∨ start ≤ x ∧ x < stop := by
  induction spans with
  | nil => simp [insertWith, separated_cons, proper]
  | cons span spans ih =>
    rcases separated_cons.mp separated with ⟨inhabited, after, _⟩
    rcases joins stop spans separated.tail with ⟨longer, apart, beyond, joined⟩
    have spansAbove : ∀ x ≤ span.hi, ¬ Covers spans x := fun x => not_covers_of_le after
    have restAbove : ∀ x ≤ (merge stop spans).1, ¬ Covers (merge stop spans).2 x :=
      fun x => not_covers_of_le beyond
    rcases ih separated.tail with ⟨separated', covers⟩
    rw [insertWith]
    split_ifs with before past
    · simp only [separated_cons, covers_cons, forall_mem_cons]
      grind
    · have above := insertWith_above stop past after joins separated.tail
      simp only [separated_cons, covers_cons, covers]
      grind
    all_goals
      simp only [separated_cons, covers_cons]
      grind

end WineRedRose.Library.Spans
