import WineRedRose.Library.SortedArray

/-!
# Tables of separated extents

A set of points of a linear order is kept as a sorted table of half-open
extents that are not empty and do not touch each other.  This module says
what the usual changes of one place of such a table do: cutting a stretch out
of an extent, and adding a stretch that lay in a gap, as an extent of its own
or joined to its neighbours.  The place is found by a binary search for the
ends of the extents.
-/

namespace WineRedRose.Library.Extents

open List

open SortedArray (lowerBound)

/-- The points from `base` up to, and without, `stop`. -/
structure Extent (α : Type*) where
  base : α
  stop : α
deriving DecidableEq, Repr

variable {α : Type*} [LinearOrder α]

/-- The point lies in the extent. -/
def Extent.Has (extent : Extent α) (x : α) : Prop := extent.base ≤ x ∧ x < extent.stop

/-- The point lies in an extent of the table. -/
def Covers (table : List (Extent α)) (x : α) : Prop := ∃ extent ∈ table, extent.Has x

/-- The extents are sorted, not empty, and do not touch each other. -/
structure Apart (table : List (Extent α)) : Prop where
  nonempty : ∀ extent ∈ table, extent.base < extent.stop
  ordered : table.Pairwise fun lower upper => lower.stop < upper.base

instance (extent : Extent α) (x : α) : Decidable (extent.Has x) :=
  inferInstanceAs (Decidable (_ ∧ _))

/-! ## Tables in parts -/

theorem covers_append (first second : List (Extent α)) (x : α) :
    Covers (first ++ second) x ↔ Covers first x ∨ Covers second x := by
  simp only [Covers, mem_append, or_and_right, exists_or]

theorem covers_cons (extent : Extent α) (table : List (Extent α)) (x : α) :
    Covers (extent :: table) x ↔ extent.Has x ∨ Covers table x := by
  simp only [Covers, mem_cons, exists_eq_or_imp]

@[simp]
theorem not_covers_nil (x : α) : ¬ Covers [] x := by simp [Covers]

/-- The extents of a table around one of them. -/
structure Around
    (before : List (Extent α)) (base stop : α) (after : List (Extent α)) :
    Prop where
  before_apart : Apart before
  after_apart : Apart after
  nonempty : base < stop
  below : ∀ lower ∈ before, lower.stop < base
  above : ∀ upper ∈ after, stop < upper.base

theorem apart_middle {before after : List (Extent α)} {extent : Extent α} :
    Apart (before ++ extent :: after) ↔ Around before extent.base extent.stop after := by
  constructor
  · intro apart
    have ordered := pairwise_append.mp apart.ordered
    have rest := pairwise_cons.mp ordered.2.1
    have all := fun other member => apart.nonempty other (mem_append.mpr member)
    refine ⟨⟨fun lower member => all lower (.inl member), ordered.1⟩,
      ⟨fun upper member => all upper (.inr (.tail _ member)), rest.2⟩,
      all extent (.inr (.head _)),
      fun lower member => ordered.2.2 lower member extent (.head _), rest.1⟩
  · intro around
    constructor
    · intro other member
      rcases mem_append.mp member with lower | upper
      · exact around.before_apart.nonempty other lower
      · rcases mem_cons.mp upper with rfl | upper
        · exact around.nonempty
        · exact around.after_apart.nonempty other upper
    · apply pairwise_append.mpr
      refine ⟨around.before_apart.ordered,
        pairwise_cons.mpr ⟨around.above, around.after_apart.ordered⟩, ?_⟩
      intro lower low other member
      have start := around.below lower low
      rcases mem_cons.mp member with rfl | high
      · exact start
      · exact start.trans (around.nonempty.trans (around.above other high))

section Around

variable {before after : List (Extent α)} {base stop : α}

section

variable (around : Around before base stop after)
include around

/-- What lies before an extent does not reach it. -/
theorem Around.lt_base {x : α} (covered : Covers before x) : x < base := by
  rcases covered with ⟨lower, member, has⟩
  exact has.2.trans (around.below lower member)

/-- What lies after an extent starts beyond it. -/
theorem Around.stop_lt {x : α} (covered : Covers after x) : stop < x := by
  rcases covered with ⟨upper, member, has⟩
  exact (around.above upper member).trans_le has.1

/-- Another extent fits in the same place if it stays within the gap. -/
theorem Around.shrink {base' stop' : α} (nonempty : base' < stop') (lower : base ≤ base')
    (upper : stop' ≤ stop) :
    Around before base' stop' after where
  before_apart := around.before_apart
  after_apart := around.after_apart
  nonempty := nonempty
  below := fun extent member => (around.below extent member).trans_le lower
  above := fun extent member => upper.trans_lt (around.above extent member)

/-- The extents around an extent are apart from each other. -/
theorem Around.append : Apart (before ++ after) where
  nonempty := forall_mem_append.mpr ⟨around.before_apart.nonempty, around.after_apart.nonempty⟩
  ordered := by
    apply pairwise_append.mpr
    refine ⟨around.before_apart.ordered, around.after_apart.ordered, ?_⟩
    intro lower low upper high
    exact (around.below lower low).trans (around.nonempty.trans (around.above upper high))

end

end Around

/-! ## Cutting out -/

/-- What is left of an extent without the points from `lo` up to `hi`. -/
def Extent.cut (extent : Extent α) (lo hi : α) : List (Extent α) :=
  (if extent.base < lo then [⟨extent.base, lo⟩] else []) ++
    (if hi < extent.stop then [⟨hi, extent.stop⟩] else [])

section Cut

variable {before after : List (Extent α)} {extent : Extent α} {lo hi : α}

theorem covers_cut (lower : extent.base ≤ lo) (within : lo < hi) (upper : hi ≤ extent.stop)
    (x : α) :
    Covers (extent.cut lo hi) x ↔ extent.Has x ∧ ¬ (lo ≤ x ∧ x < hi) := by
  have left : Covers (if extent.base < lo then [⟨extent.base, lo⟩] else [])
      x ↔ extent.base ≤ x ∧ x < lo := by
    split
    · simp [Covers, Extent.Has]
    · simpa using fun start => lower.antisymm (not_lt.mp ‹_›) ▸ start
  have right : Covers (if hi < extent.stop then [⟨hi, extent.stop⟩] else [])
      x ↔ hi ≤ x ∧ x < extent.stop := by
    split
    · simp [Covers, Extent.Has]
    · simpa using fun start => (not_lt.mp ‹_›).trans start
  rw [Extent.cut, covers_append, left, right, Extent.Has]
  constructor
  · rintro (⟨start, short⟩ | ⟨start, short⟩)
    · exact ⟨⟨start, short.trans (within.trans_le upper)⟩, fun both => both.1.not_gt short⟩
    · exact ⟨⟨lower.trans (within.le.trans start), short⟩, fun both => both.2.not_ge start⟩
  · rintro ⟨⟨start, short⟩, outside⟩
    rcases lt_or_ge x lo with low | high
    · exact .inl ⟨start, low⟩
    · exact .inr ⟨not_lt.mp fun less => outside ⟨high, less⟩, short⟩

section

variable (apart : Apart (before ++ extent :: after)) (lower : extent.base ≤ lo) (within : lo < hi)
  (upper : hi ≤ extent.stop)
include apart lower within upper

theorem Apart.cut : Apart (before ++ (extent.cut lo hi ++ after)) := by
  have around := apart_middle.mp apart
  have beyond (low : extent.base < lo) := around.shrink low le_rfl (within.le.trans upper)
  have rest (high : hi < extent.stop) := around.shrink high (lower.trans within.le) le_rfl
  rw [Extent.cut]
  by_cases low : extent.base < lo <;> by_cases high : hi < extent.stop
  · rw [if_pos low, if_pos high]
    apply apart_middle.mpr
    refine ⟨around.before_apart, ?_, low, around.below, ?_⟩
    · apply @apart_middle _ _ [] _ _ |>.mpr
      refine ⟨⟨by simp, .nil⟩, around.after_apart, high, by simp, around.above⟩
    · intro other member
      rcases mem_cons.mp member with rfl | member
      · exact within
      · exact (within.trans_le upper).trans (around.above other member)
  · rw [if_pos low, if_neg high]
    exact apart_middle.mpr (beyond low)
  · rw [if_neg low, if_pos high]
    exact apart_middle.mpr (rest high)
  · rw [if_neg low, if_neg high]
    exact around.append

/-- Cutting a stretch out of an extent takes exactly its points away. -/
theorem Apart.covers_cut (x : α) : Covers (before ++ (extent.cut lo hi ++ after)) x ↔
      Covers (before ++ extent :: after) x ∧ ¬ (lo ≤ x ∧ x < hi) := by
  have around := apart_middle.mp apart
  have low : Covers before x → ¬ (lo ≤ x ∧ x < hi) := fun covered both =>
    (around.lt_base covered).not_ge (lower.trans both.1)
  have high : Covers after x → ¬ (lo ≤ x ∧ x < hi) := fun covered both =>
    (around.stop_lt covered).not_gt (both.2.trans_le upper)
  rw [covers_append, covers_append, covers_append, covers_cons,
    Extents.covers_cut lower within upper, or_and_right, or_and_right,
    and_iff_left_of_imp low, and_iff_left_of_imp high]

end

end Cut

/-! ## Filling in -/

section Fill

variable {before after : List (Extent α)} {lo hi : α}

/-- A stretch that touches neither neighbour becomes an extent. -/
theorem covers_insert (x : α) :
    Covers (before ++ ⟨lo, hi⟩ :: after) x ↔ Covers (before ++ after) x ∨ lo ≤ x ∧ x < hi := by
  simp only [covers_append, covers_cons, Extent.Has]
  exact iff_of_eq (by ac_rfl)

variable {base stop : α}

/-- A stretch right after an extent lengthens it. -/
theorem covers_growUp (nonempty : base < lo) (within : lo < hi) (x : α) :
    Covers (before ++ ⟨base, hi⟩ :: after) x ↔
      Covers (before ++ ⟨base, lo⟩ :: after) x ∨ lo ≤ x ∧ x < hi := by
  have parts : base ≤ x ∧ x < hi ↔ base ≤ x ∧ x < lo ∨ lo ≤ x ∧ x < hi := by grind
  simp only [covers_append, covers_cons, Extent.Has, parts]
  exact iff_of_eq (by ac_rfl)

/-- A stretch right before an extent lengthens it. -/
theorem covers_growDown (nonempty : hi < stop) (within : lo < hi) (x : α) :
    Covers (before ++ ⟨lo, stop⟩ :: after) x ↔
      Covers (before ++ ⟨hi, stop⟩ :: after) x ∨ lo ≤ x ∧ x < hi := by
  have parts : lo ≤ x ∧ x < stop ↔ hi ≤ x ∧ x < stop ∨ lo ≤ x ∧ x < hi := by grind
  simp only [covers_append, covers_cons, Extent.Has, parts]
  exact iff_of_eq (by ac_rfl)

/-- A stretch that fills the gap between two extents joins them. -/
theorem covers_join (lower : base < lo) (within : lo < hi) (upper : hi < stop) (x : α) :
    Covers (before ++ ⟨base, stop⟩ :: after) x ↔
      Covers (before ++ ⟨base, lo⟩ :: ⟨hi, stop⟩ :: after) x ∨ lo ≤ x ∧ x < hi := by
  have parts : base ≤ x ∧ x < stop ↔
      (base ≤ x ∧ x < lo) ∨ (hi ≤ x ∧ x < stop) ∨ (lo ≤ x ∧ x < hi) := by
    grind
  simp only [covers_append, covers_cons, Extent.Has, parts]
  exact iff_of_eq (by ac_rfl)

/-- Two extents with a gap between them, joined. -/
theorem Apart.join (apart : Apart (before ++ ⟨base, lo⟩ :: ⟨hi, stop⟩ :: after)) :
    Apart (before ++ ⟨base, stop⟩ :: after) := by
  have first := apart_middle.mp apart
  have second := apart_middle.mp (@append_assoc _ before [⟨base, lo⟩] (⟨hi, stop⟩ :: after) ▸ apart)
  have gap : lo < hi := first.above ⟨hi, stop⟩ (.head _)
  exact apart_middle.mpr ⟨first.before_apart, second.after_apart,
    first.nonempty.trans (gap.trans second.nonempty), first.below,
    second.above⟩

end Fill

/-! ## Finding the place -/

/-- The search splits a table at the first extent that ends at `x` or later. -/
theorem Apart.lowerBound_split {table : List (Extent α)} (apart : Apart table) (x : α) :
    ∃ before after, table = before ++ after ∧
      before.length = lowerBound (fun extent => extent.stop < x) table ∧
      (∀ lower ∈ before, lower.stop < x) ∧ ∀ upper ∈ after, x ≤ upper.stop := by
  have sorted : table.Pairwise fun lower upper =>
      upper.stop < x → lower.stop < x := by
    apply apart.ordered.imp_of_mem
    intro lower upper _ member less short
    exact less.trans ((apart.nonempty upper member).trans short)
  rcases SortedArray.lowerBound_split
    (fun extent : Extent α => decide (extent.stop < x)) (by simpa using sorted)
    with ⟨before, after, split, length, below, above⟩
  exact ⟨before, after, split, length, by simpa using below, by simpa using above⟩

end WineRedRose.Library.Extents
