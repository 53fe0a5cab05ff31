import WineRedRose.Library.Spans

/-!
# Committed ranges of a section

A section that was reserved only keeps a table of the parts that have been
committed through its views.  The table stays an exact set of positions as
long as no request reaches the last page of its view: the check of the
arguments takes the end of the view for an end outside of it.
-/

namespace WineRedRose.Sections

open Library.Spans List Option

/-- `struct range`. -/
abbrev Range := Span Nat

/-- What is used of `struct memory_view`; `map_view` refuses a view that wraps. -/
structure MemoryView where
  start : Nat
  size : Nat
  fits : start + size < 2 ^ 64

inductive Status
  | success
  | invalidParameter
deriving DecidableEq, Repr

/-- The inner loop of `add_committed_range`. -/
def mergeNext (stop : Nat) : List Range → Nat × List Range
  | [] => (stop, [])
  | range :: ranges =>
    if stop < range.lo then (stop, range :: ranges)
    else mergeNext (if stop < range.hi then range.hi else stop) ranges

/-- `add_committed_range`, for a page size of `page_mask + 1`; without a table everything is
committed already. -/
def addCommittedRange (pageSize : Nat) (view : MemoryView) (start stop : Nat)
    (committed : Option (List Range)) : Option (List Range) × Status :=
  if start % pageSize ≠ 0 ∨ stop % pageSize ≠ 0 ∨ view.size ≤ start ∨ view.size ≤ stop ∨
      stop ≤ start then (committed, .invalidParameter)
  else (committed.map (insertWith mergeNext (start + view.start) (stop + view.start)), .success)

/-- The loop of `find_committed_range`. -/
def findRange (view : MemoryView) (start : Nat) : List Range → Bool × Nat
  | [] => (false, view.size - start)
  | range :: ranges =>
    if view.start + start < range.lo then
      (false, min range.lo (view.start + view.size) - (view.start + start))
    else if view.start + start < range.hi then
      (true, min range.hi (view.start + view.size) - (view.start + start))
    else findRange view start ranges

/-- `find_committed_range`; nothing is returned for an invalid parameter. -/
def findCommittedRange (pageSize : Nat) (view : MemoryView) (start : Nat)
    (committed : Option (List Range)) : Option (Bool × Nat) :=
  if start % pageSize ≠ 0 ∨ view.size ≤ start then none
  else some ((committed.map (findRange view start)).getD (true, view.size - start))

/-- An `add_mapping_committed_range` request for pages of a view. -/
structure Request (pageSize : Nat) where
  view : MemoryView
  start : Nat
  stop : Nat
  aligned : start % pageSize = 0 ∧ stop % pageSize = 0
  proper : start < stop
  inside : stop ≤ view.size

variable {pageSize : Nat}

section

variable (requests : List (Request pageSize))

/-- The table after some requests. -/
def tableAfter : Option (List Range) := requests.foldl (fun committed request =>
      (addCommittedRange pageSize request.view request.start request.stop committed).1)
    (some [])

/-- The position was committed through one of the views. -/
def Committed (x : Nat) : Prop := ∃ request ∈ requests,
    request.view.start + request.start ≤ x ∧ x < request.view.start + request.stop

/-- The state from a page of the view on is this one, for exactly so many bytes. -/
structure StateFor (holds : Nat → Prop) (view : MemoryView) (page : Nat) (committed : Bool)
    (size : Nat) : Prop where
  positive : 0 < size
  inside : page + size ≤ view.size
  same : ∀ x, page ≤ x → x < page + size → (holds (view.start + x) ↔ committed = true)
  changes : page + size < view.size → ¬ (holds (view.start + (page + size)) ↔ committed = true)

/-- The table is the set of committed positions, and is read as such. -/
def Exact : Prop := ∃ ranges, tableAfter requests = some ranges ∧
    Separated ranges ∧ (∀ x, Covers ranges x ↔ Committed requests x) ∧
    ∀ (view : MemoryView) (page : Nat), page % pageSize = 0 → page < view.size →
      ∃ committed size, findCommittedRange pageSize view page (some ranges) =
        some (committed, size) ∧
        StateFor (Committed requests) view page committed size

end

/-! ## Adding -/

theorem mergeNext_joins : Joins mergeNext := by
  intro stop ranges separated
  induction ranges generalizing stop with
  | nil => simp [mergeNext]
  | cons range ranges ih =>
    rcases separated_cons.mp separated with ⟨inhabited, after, rest⟩
    have later := ih (if stop < range.hi then range.hi else stop) rest
    rw [mergeNext]
    split_ifs with apart longer
    · simp only [forall_mem_cons]
      grind
    all_goals
      simp only [covers_cons]
      grind

/-- A request that ends before its view does adds its positions. -/
theorem addCommittedRange_spec {ranges : List Range} (separated : Separated ranges)
    (request : Request pageSize) (short : request.stop ≠ request.view.size) :
    ∃ after, (addCommittedRange pageSize request.view request.start request.stop (some ranges)).1 =
        some after ∧ Separated after ∧ ∀ x, Covers after x ↔ Covers ranges x ∨
          request.view.start + request.start ≤ x ∧ x < request.view.start + request.stop := by
  have proper := request.proper
  have inside := request.inside
  have added := insertWith_spec mergeNext_joins
    (Nat.add_lt_add_left proper request.view.start) separated
  refine ⟨_, ?_, added⟩
  rw [addCommittedRange, if_neg (by simp [request.aligned]; omega), Nat.add_comm request.start,
    Nat.add_comm request.stop, map_some]

theorem tableAfter_spec {requests : List (Request pageSize)}
    (short : ∀ request ∈ requests, request.stop ≠ request.view.size) :
    ∃ ranges, tableAfter requests = some ranges ∧ Separated ranges ∧
      ∀ x, Covers ranges x ↔ Committed requests x := by
  induction requests using List.reverseRecOn with
  | nil => exact ⟨[], rfl, separated_nil, by simp [Committed]⟩
  | append_singleton requests request ih =>
    simp only [forall_mem_append, forall_mem_singleton] at short
    rcases ih short.1 with ⟨ranges, reached, separated, covers⟩
    rcases addCommittedRange_spec separated request short.2 with ⟨after, added, apart, covers'⟩
    rw [tableAfter] at reached
    refine ⟨after, ?_, apart, fun x => ?_⟩
    · rw [tableAfter, foldl_append, reached]
      exact added
    · rw [covers', covers]
      simp [Committed, or_and_right, exists_or]

/-! ## Finding -/

theorem findRange_spec {ranges : List Range} (separated : Separated ranges) (view : MemoryView)
    {page : Nat} (inside : page < view.size) :
    StateFor (Covers ranges) view page (findRange view page ranges).1
      (findRange view page ranges).2 := by
  induction ranges with
  | nil => constructor <;> simp [findRange] <;> omega
  | cons range ranges ih =>
    rcases separated_cons.mp separated with ⟨inhabited, after, rest⟩
    have above : ∀ x ≤ range.hi, ¬ Covers ranges x := fun x => not_covers_of_le after
    have later := ih rest
    rw [findRange]
    split_ifs with before within
    all_goals constructor <;> grind [covers_cons, StateFor]

/-- The table is exact after requests of which none reaches the end of its view. -/
theorem committed_ranges_exact (requests : List (Request pageSize))
    (short : ∀ request ∈ requests, request.stop ≠ request.view.size) : Exact requests := by
  rcases tableAfter_spec short with ⟨ranges, reached, separated, covers⟩
  refine ⟨ranges, reached, separated, covers, fun view page aligned inside => ?_⟩
  have same : Covers ranges = Committed requests := funext fun x => propext (covers x)
  refine ⟨_, _, ?_, same ▸ findRange_spec separated view inside⟩
  rw [findCommittedRange, if_neg (by omega), map_some, getD_some]

/-- The first three of four pages; the middle one comes last. -/
def threePages : List (Request 0x1000) :=
  let view : MemoryView := ⟨0, 0x4000, by decide⟩
  [⟨view, 0, 0x1000, by decide, by decide, by decide⟩,
    ⟨view, 0x2000, 0x3000, by decide, by decide, by decide⟩,
    ⟨view, 0x1000, 0x2000, by decide, by decide, by decide⟩]

/-- The pages become one range, and the second one is found to be committed with
the one behind it. -/
theorem committed_ranges_exact_three_pages : Exact threePages ∧
    tableAfter threePages = some [⟨0, 0x3000⟩] ∧
    StateFor (Committed threePages) ⟨0, 0x4000, by decide⟩ 0x1000 true 0x2000 := by
  have exactly := committed_ranges_exact threePages (by decide)
  refine ⟨exactly, by decide, ?_⟩
  rcases exactly with ⟨ranges, reached, -, -, finds⟩
  obtain rfl : [⟨0, 0x3000⟩] = ranges := some.inj reached
  rcases finds ⟨0, 0x4000, by decide⟩ 0x1000 (by decide) (by decide) with
    ⟨committed, size, found, state⟩
  cases found
  exact state

/-- The only page of a view cannot be committed. -/
theorem last_page_stays_uncommitted : ¬ Exact
      [(⟨⟨0, 0x1000, by decide⟩, 0, 0x1000, by decide, by decide, by decide⟩ :
        Request 0x1000)] := by
  rintro ⟨ranges, reached, -, covers, -⟩
  obtain rfl : [] = ranges := some.inj reached
  exact covers_nil 0 ((covers 0).mpr ⟨_, mem_singleton_self _, by decide, by decide⟩)

end WineRedRose.Sections
