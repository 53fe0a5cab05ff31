import WineRedRose.Library.Spans

/-!
# Reserved areas

The areas of the address space that the loader has reserved, in address
order.  Adding and removing ranges that are not empty keeps them an exact set
of addresses.  A range that ends at the top of the address space loses its
last byte, so that its end does not wrap; the question whether a range lies
in the set has no such care, and its end wraps.
-/

namespace WineRedRose.Views

open Library.Spans Set

/-- `struct reserved_area`, with its end in place of its size. -/
abbrev ReservedArea := Span Nat

/-- `addr` and `size` of a call: whole pages of the address space. -/
structure AddressRange where
  addr : Nat
  size : Nat
  fits : addr < 2 ^ 64 ∧ addr + size ≤ 2 ^ 64
  aligned : 0x1000 ∣ addr ∧ 0x1000 ∣ size

section

variable (range : AddressRange) (areas : List ReservedArea)

/-- `addr + size`, after the size is decremented to avoid wrap-around. -/
def AddressRange.stop : Nat :=
  if (range.addr + range.size) % 2 ^ 64 = 0 then 2 ^ 64 - 1 else range.addr + range.size

/-- The loop of `mmap_add_reserved_area` that merges with the following areas. -/
def mergeFollowing (stop : Nat) : List ReservedArea → Nat × List ReservedArea
  | [] => (stop, [])
  | area :: areas =>
    if stop < area.lo then (stop, area :: areas)
    else if stop ≤ area.hi then (area.hi, areas)
    else mergeFollowing stop areas

def mmapAddReservedArea : List ReservedArea := insertWith mergeFollowing range.addr range.stop areas

/-- `mmap_remove_reserved_area`, with the end of the range. -/
def removeReserved (addr stop : Nat) : List ReservedArea → List ReservedArea
  | [] => []
  | area :: areas =>
    if stop ≤ area.lo then area :: areas
    else if addr < area.hi then
      if addr ≤ area.lo then
        if stop < area.hi then ⟨stop, area.hi⟩ :: areas else removeReserved addr stop areas
      else if stop < area.hi then ⟨area.lo, addr⟩ :: ⟨stop, area.hi⟩ :: areas
      else ⟨area.lo, addr⟩ :: removeReserved addr stop areas
    else area :: removeReserved addr stop areas

def mmapRemoveReservedArea : List ReservedArea := removeReserved range.addr range.stop areas

end

/-- `mmap_is_in_reserved_area`. -/
def mmapIsInReservedArea (range : AddressRange) : List ReservedArea → Int
  | [] => 0
  | area :: areas =>
    if range.addr < area.lo then 0
    else if area.hi ≤ range.addr then mmapIsInReservedArea range areas
    else if area.hi < (range.addr + range.size) % 2 ^ 64 then -1
    else 1

inductive ReservedCall
  | add (range : AddressRange)
  | remove (range : AddressRange)

def ReservedCall.range : ReservedCall → AddressRange
  | .add range | .remove range => range

def ReservedCall.apply (areas : List ReservedArea) : ReservedCall → List ReservedArea
  | .add range => mmapAddReservedArea range areas
  | .remove range => mmapRemoveReservedArea range areas

/-- The set of reserved addresses after a call. -/
def ReservedCall.update (set : Set Nat) : ReservedCall → Set Nat
  | .add range => set ∪ Set.Ico range.addr range.stop
  | .remove range => set \ Set.Ico range.addr range.stop

open scoped Classical in
/-- What `mmap_is_in_reserved_area` is to return for a set of addresses. -/
noncomputable def placeIn (set : Set Nat) (start stop : Nat) : Int :=
  if Set.Ico start stop ⊆ set then 1 else if start ∈ set then -1 else 0

/-! ## Adding and removing -/

theorem mergeFollowing_joins : Joins mergeFollowing := by
  intro stop areas separated
  induction areas with
  | nil => simp [mergeFollowing]
  | cons area areas ih =>
    rcases separated_cons.mp separated with ⟨inhabited, after, rest⟩
    have later := ih rest
    rw [mergeFollowing]
    split_ifs with apart longer
    · simp only [List.forall_mem_cons]
      grind
    all_goals grind [covers_cons]

variable {addr stop : Nat} {areas : List ReservedArea}

theorem removeReserved_above {bound : Nat} (above : ∀ area ∈ areas, bound < area.lo)
    (proper : addr < stop) : ∀ area ∈ removeReserved addr stop areas, bound < area.lo := by
  induction areas with
  | nil => exact above
  | cons area areas ih => grind [removeReserved]

theorem removeReserved_spec (proper : addr < stop) (separated : Separated areas) :
    Separated (removeReserved addr stop areas) ∧ ∀ x, Covers (removeReserved addr stop areas) x ↔
      Covers areas x ∧ ¬ (addr ≤ x ∧ x < stop) := by
  induction areas with
  | nil => simp [removeReserved]
  | cons area areas ih =>
    rcases separated_cons.mp separated with ⟨inhabited, after, rest⟩
    have above : ∀ x ≤ area.hi, ¬ Covers areas x := fun x => not_covers_of_le after
    have later := removeReserved_above after proper
    have tail := ih rest
    rw [removeReserved]
    split_ifs with before overlaps covered beginning middle
    all_goals
      simp only [separated_cons, covers_cons, List.forall_mem_cons]
      grind

/-! ## Asking -/

/-- A range is looked for from a reserved address on; its end may have wrapped. -/
theorem mmapIsInReservedArea_eq (range : AddressRange) (separated : Separated areas) :
    (¬ Covers areas range.addr → mmapIsInReservedArea range areas = 0) ∧
      (Covers areas range.addr → mmapIsInReservedArea range areas =
        placeIn {x | Covers areas x} range.addr ((range.addr + range.size) % 2 ^ 64)) := by
  simp only [placeIn, subset_def, mem_ofPred_eq]
  induction areas with
  | nil => simp [mmapIsInReservedArea]
  | cons area areas ih =>
    rcases separated_cons.mp separated with ⟨inhabited, after, rest⟩
    have above : ∀ x ≤ area.hi, ¬ Covers areas x := fun x => not_covers_of_le after
    have gap : ¬ Covers (area :: areas) area.hi := by grind [covers_cons]
    have later := ih rest
    grind [mmapIsInReservedArea, covers_cons]

/-! ## Sequences of calls -/

/-- The areas are exactly the set, which never holds the last address. -/
structure Reserves (areas : List ReservedArea) (set : Set Nat) : Prop where
  separated : Separated areas
  exact : {x | Covers areas x} = set
  below : set ⊆ Set.Iio (2 ^ 64 - 1)

variable {set : Set Nat}

theorem AddressRange.stop_le (range : AddressRange) : range.stop ≤ 2 ^ 64 - 1 := by
  have := range.fits
  grind [AddressRange.stop]

theorem Reserves.apply (reserves : Reserves areas set) {call : ReservedCall}
    (nonempty : call.range.size ≠ 0) : Reserves (call.apply areas) (call.update set) := by
  have proper : call.range.addr < call.range.stop := by
    rcases call.range.aligned with ⟨⟨page, _⟩, ⟨pages, _⟩⟩
    have := call.range.fits
    grind [AddressRange.stop]
  rcases reserves with ⟨separated, rfl, below⟩
  cases call with
  | add range =>
    have spec := insertWith_spec mergeFollowing_joins proper separated
    refine ⟨spec.1, Set.ext spec.2, union_subset below fun x inside => ?_⟩
    exact inside.2.trans_le range.stop_le
  | remove range =>
    have spec := removeReserved_spec proper separated
    exact ⟨spec.1, Set.ext spec.2, sdiff_subset.trans below⟩

theorem Reserves.calls {calls : List ReservedCall} (reserves : Reserves areas set)
    (nonempty : ∀ call ∈ calls, call.range.size ≠ 0) :
    Reserves (calls.foldl ReservedCall.apply areas) (calls.foldl ReservedCall.update set) := by
  induction calls generalizing areas set with
  | nil => exact reserves
  | cons call calls ih =>
    rw [List.forall_mem_cons] at nonempty
    exact ih (reserves.apply nonempty.1) nonempty.2

/-- The questions that are answered for the set of addresses. -/
def Answered (set : Set Nat) (range : AddressRange) : Prop :=
  (range.addr ∈ set → range.addr + range.size ≠ 2 ^ 64) ∧ (range.addr ∉ set → range.size ≠ 0)

theorem Reserves.answered_iff (reserves : Reserves areas set) (range : AddressRange) :
    mmapIsInReservedArea range areas = placeIn set range.addr (range.addr + range.size) ↔
      Answered set range := by
  rcases reserves with ⟨separated, rfl, below⟩
  have answer := mmapIsInReservedArea_eq range separated
  have fits := range.fits
  have last : ¬ Covers areas (2 ^ 64 - 1) := fun covered => self_notMem_Iio (below covered)
  simp only [Answered, mem_ofPred_eq]
  by_cases reserved : Covers areas range.addr
  · rw [answer.2 reserved]
    by_cases top : range.addr + range.size = 2 ^ 64
    · simp only [top, placeIn, subset_def, mem_ofPred_eq]
      grind
    · rw [Nat.mod_eq_of_lt (by omega)]
      exact ⟨fun _ => ⟨fun _ => top, fun free => (free reserved).elim⟩, fun _ => rfl⟩
  · simp only [answer.1 reserved, placeIn, subset_def, mem_ofPred_eq]
    grind

/--
Ranges that are not empty keep the areas the exact set of the addresses that
were added and not removed later.  A range from a reserved address to the top
of the address space is then said to lie in the set, because its end wraps;
and an empty range outside the set is said to lie outside.
-/
theorem reserved_areas_exact (calls : List ReservedCall)
    (nonempty : ∀ call ∈ calls, call.range.size ≠ 0) :
    Separated (calls.foldl ReservedCall.apply []) ∧
      {x | Covers (calls.foldl ReservedCall.apply []) x} = calls.foldl ReservedCall.update ∅ ∧
      ∀ range, mmapIsInReservedArea range (calls.foldl ReservedCall.apply []) =
          placeIn (calls.foldl ReservedCall.update ∅) range.addr (range.addr + range.size) ↔
        Answered (calls.foldl ReservedCall.update ∅) range := by
  have reserves : Reserves [] ∅ := ⟨by simp, by simp, empty_subset _⟩
  have reached := reserves.calls nonempty
  exact ⟨reached.separated, reached.exact, reached.answered_iff⟩

def lowArea : AddressRange := ⟨0x10000, 0x10000, by decide, by decide⟩

def highRange : AddressRange := ⟨0x10000, 2 ^ 64 - 0x10000, by decide, by decide⟩

/-- Two areas that touch each other are merged, and the middle is removed. -/
def splitCalls : List ReservedCall :=
  [.add lowArea, .add ⟨0x20000, 0x10000, by decide, by decide⟩,
    .remove ⟨0x18000, 0x10000, by decide, by decide⟩]

def splitAreas : List ReservedArea := [⟨0x10000, 0x18000⟩, ⟨0x28000, 0x30000⟩]

/-- The two areas that are left are exact, and a range that begins in the first
one and leaves it is found to do so. -/
theorem reserved_areas_exact_split : splitCalls.foldl ReservedCall.apply [] = splitAreas ∧
    Separated splitAreas ∧ {x | Covers splitAreas x} = splitCalls.foldl ReservedCall.update ∅ ∧
    placeIn (splitCalls.foldl ReservedCall.update ∅) 0x14000 0x1c000 = -1 := by
  have areas : splitCalls.foldl ReservedCall.apply [] = splitAreas := by decide
  have reached := reserved_areas_exact splitCalls
    (by simp [splitCalls, ReservedCall.range, lowArea])
  rw [areas] at reached
  refine ⟨areas, reached.1, reached.2.1, ?_⟩
  have answered := (reached.2.2 ⟨0x14000, 0x8000, by decide, by decide⟩).mpr
    ⟨fun _ => by decide, fun _ => by decide⟩
  exact answered.symm.trans (by decide)

/-- The end of the range wraps to zero, and the area that ends before it seems to contain it. -/
theorem range_to_top_taken_for_reserved :
    mmapIsInReservedArea highRange (mmapAddReservedArea lowArea []) ≠
      placeIn (ReservedCall.update ∅ (.add lowArea)) highRange.addr
        (highRange.addr + highRange.size) := by
  have outside : ¬ Set.Ico highRange.addr (highRange.addr + highRange.size) ⊆
      ReservedCall.update ∅ (.add lowArea) := fun inside => by
    simpa [ReservedCall.update, lowArea, AddressRange.stop] using
      inside (a := 0x20000) (by simp [highRange])
  rw [placeIn, if_neg outside]
  split_ifs <;> decide

end WineRedRose.Views
