import WineRedRose.Library.Extents
import WineRedRose.Library.Runs

/-!
# Views and the table of free ranges

The views of a process are the parts of its address space that are in use.
They are kept in a tree ordered by address, and beside it a sorted table of
ranges says where no view is.  Views consist of pages, the table of blocks of
64K, so that several views can lie in one block.

The tree is modelled by the list of its views in the order of addresses.
Memory protection, the mapping itself and the page tables are left out; the
functions are reduced to the calls by which they register and unregister
views.
-/

namespace WineRedRose.Views

open Library.Extents
open Library.SortedArray (lowerBound)

/-! ## Addresses -/

/-- The two builds, which differ in the size of a pointer. -/
inductive Target where
  | win32
  | win64
deriving DecidableEq, Repr

/-- The number of addresses. -/
def Target.space : Target → Nat
  | .win32 => 2 ^ 32
  | .win64 => 2 ^ 64

/-- `view_block_size` -/
def Target.viewBlockSize : Target → Nat
  | .win32 => 0x100000
  | .win64 => 0x200000

/-- `sizeof(struct range_entry)` -/
def Target.rangeEntrySize : Target → Nat
  | .win32 => 8
  | .win64 => 16

def pageMask : Nat := 0xfff

def granularityMask : Nat := 0xffff

/-- `ROUND_ADDR`, for the masks in use, which are one less than a power of two. -/
def roundAddr (addr mask : Nat) : Nat := addr - addr % (mask + 1)

/-! ## Views -/

def vprotPlaceholder : BitVec 32 := 0x0400
def vprotFreePlaceholder : BitVec 32 := 0x0800

/-- `struct file_view` -/
structure View where
  base : Nat
  size : Nat
  protect : BitVec 32
deriving DecidableEq, Repr

/-- The address after the last byte of the view. -/
def View.limit (view : View) : Nat := view.base + view.size

/-- `view_base` as it is first computed. -/
def View.blockBase (view : View) : Nat := roundAddr view.base granularityMask

/-- `view_end` as it is first computed, in pointer arithmetic. -/
def View.blockEnd (target : Target) (view : View) : Nat :=
  roundAddr ((view.base + view.size + granularityMask) % target.space) granularityMask

/-- `wine_rb_put`; a tree that has an entry with the same key is not changed. -/
def rbPut : List View → View → List View
  | [], view => [view]
  | other :: views, view =>
    if view.base < other.base then view :: other :: views
    else if view.base = other.base then other :: views
    else other :: rbPut views view

section

variable (views : List View) (view : View)

/-- `rb_prev` -/
def rbPrev : Option View := (views.filter fun other => other.base < view.base).getLast?

/-- The views that follow one in the tree. -/
def following : List View := views.filter fun other => view.base < other.base

/-- `rb_next` -/
def rbNext : Option View := (following views view).head?

end

/-! ## The table of free ranges -/

/-- `struct range_entry` -/
abbrev Range := Extent Nat

section

variable (target : Target) (ranges : List Range) (index : Nat)

/-- Whether a table with so many entries is in its memory block. -/
def Target.fits (count : Nat) : Bool := count * target.rangeEntrySize ≤ target.viewBlockSize

/-- The index of the first range whose end is not less than `addr`. -/
def freeRangesLowerBound (ranges : List Range) (addr : Nat) : Nat :=
  lowerBound (fun range => range.stop < addr) ranges

/-- The part of `free_ranges_insert_view` that clips the view to a range. -/
def clipToRange (range : Range) (next : Option Range) (viewBase viewEnd : Nat) :
    Option (Nat × Nat) :=
  let viewBase := if range.base > viewBase then range.base else viewBase
  let viewEnd := if range.stop < viewEnd then range.stop else viewEnd
  if range.stop = viewBase then
    next.map fun next => (viewBase, if next.base ≥ viewEnd then viewBase else viewEnd)
  else some (viewBase, viewEnd)

/-- The part of `free_ranges_insert_view` that changes the table. -/
def takeFromRange (range : Range) (viewBase viewEnd : Nat) : Option (List Range) :=
  if range.base < viewBase ∧ range.stop > viewEnd then
    -- need to split the range in two
    if target.fits (ranges.length + 1) then
      some ((ranges.set index ⟨range.base, viewBase⟩).insertIdx (index + 1) ⟨viewEnd, range.stop⟩)
    else none
  else
    let range : Range :=
      if range.base < viewBase then ⟨range.base, viewBase⟩
      else ⟨viewEnd, range.stop⟩
    if range.base < range.stop then some (ranges.set index range)
    else if 0 < (ranges.eraseIdx index).length then some (ranges.eraseIdx index)
    else none

/-- `free_ranges_insert_view`; nothing is returned if an assertion fails. -/
def freeRangesInsertView (view : View) : Option (List Range) :=
  let index := freeRangesLowerBound ranges view.blockBase
  match ranges[index]? with
  | none => none
  | some range =>
    let next := ranges[index + 1]?
    if range.stop > view.blockBase ∨ next.isSome then
      match clipToRange range next view.blockBase (view.blockEnd target) with
      | none => none
      | some (viewBase, viewEnd) =>
        if viewEnd ≤ viewBase then some ranges
        else if range.base ≤ viewBase ∧ range.stop ≥ viewEnd then
          takeFromRange target ranges index range viewBase viewEnd
        else none
    else none

/-- The part of `free_ranges_remove_view` that clips the view to its neighbours. -/
def clipToNeighbours (prev next : Option View) (viewBase viewEnd : Nat) : Nat × Nat :=
  let viewBase := match prev with
    | none => viewBase
    | some prev =>
      if prev.blockEnd target ≠ 0 ∧ prev.blockEnd target > viewBase ∧
          prev.blockBase < viewEnd then prev.blockEnd target
      else viewBase
  let viewEnd := match next with
    | none => viewEnd
    | some next =>
      if next.blockBase ≠ 0 ∧ next.blockBase < viewEnd ∧
          next.blockEnd target > viewBase then next.blockBase
      else viewEnd
  (viewBase, viewEnd)

/-- The part of `free_ranges_remove_view` that changes the table. -/
def giveToRange (range : Range) (viewBase viewEnd : Nat) : Option (List Range) :=
  if range.stop = viewBase then
    match ranges[index + 1]? with
    | none => none
    | some next =>
      if next.base = viewEnd then
        -- merge with next
        let merged := (ranges.set index ⟨range.base, next.stop⟩).eraseIdx (index + 1)
        if 0 < merged.length then some merged else none
      else some (ranges.set index ⟨range.base, viewEnd⟩)
  else if range.base = viewEnd then some (ranges.set index ⟨viewBase, range.stop⟩)
  else if target.fits (ranges.length + 1) then some (ranges.insertIdx index ⟨viewBase, viewEnd⟩)
  else none

end

/-- `free_ranges_remove_view`; nothing is returned if an assertion fails. -/
def freeRangesRemoveView (target : Target) (views : List View) (ranges : List Range)
    (view : View) : Option (List Range) :=
  let index := freeRangesLowerBound ranges view.blockBase
  let clipped := clipToNeighbours target (rbPrev views view)
    (rbNext views view) view.blockBase (view.blockEnd target)
  if clipped.2 ≤ clipped.1 then some ranges
  else
    match ranges[index]? with
    | none => none
    | some range =>
      if range.stop > clipped.1 ∨ ranges[index + 1]?.isSome then
        if range.base ≤ clipped.1 ∧ range.stop ≥ clipped.2 then some ranges
        else if range.stop ≤ clipped.1 ∨ range.base ≥ clipped.2 then
          giveToRange target ranges index range clipped.1 clipped.2
        else none
      else none

/-! ## Registering and unregistering -/

/-- The tree of views and the table. -/
structure Space where
  views : List View
  freeRanges : List Range
deriving DecidableEq, Repr

/-- What `virtual_init` sets up. -/
def Space.initial (target : Target) : Space where
  views := []
  freeRanges := [⟨0, target.space - 1⟩]

/-- What the functions below do to the tree and the table. -/
inductive Call where
  | registerView (view : View)
  | unregisterView (view : View)
  | setProtect (view : View) (protect : BitVec 32)
deriving DecidableEq, Repr

/-- The views after a call. -/
def viewsAfter (views : List View) : Call → List View
  | .registerView view => rbPut views view
  | .unregisterView view => views.erase view
  | .setProtect view protect =>
    views.map fun other => if other = view then { other with protect := protect } else other

/-- One call; nothing is returned if an assertion fails. -/
def Space.call (target : Target) (space : Space) (call : Call) :
    Option Space :=
  let ranges := match call with
    | .registerView view => freeRangesInsertView target space.freeRanges view
    | .unregisterView view => freeRangesRemoveView target space.views space.freeRanges view
    | .setProtect _ _ => some space.freeRanges
  ranges.map fun ranges => ⟨viewsAfter space.views call, ranges⟩

/-- One call of a process; after a failed assertion it is gone. -/
def step (target : Target) (space : Option Space) (call : Call) :
    Option Space :=
  space.bind fun space => space.call target call

/-! ## The functions that register and unregister views -/

/-- The views `find_view_range` can return. -/
def overlapping (views : List View) (base size : Nat) : List View :=
  views.filter fun view => view.base < base + size ∧ base < view.limit

/--
`create_view`.  The overlapping views are deleted in the order in which
`find_view_range` meets them; `allocated` says whether there was memory for
the new view.
-/
def createView (met : List View) (base size : Nat) (vprot : BitVec 32)
    (allocated : Bool) : List Call :=
  met.map .unregisterView ++
    if allocated then [.registerView ⟨base, size, vprot⟩] else []

section

variable (view : View) (base size : Nat) (allocated : Bool)

/-- `delete_view` -/
def deleteView : List Call := [.unregisterView view]

/-- Whether removing pages leaves a part of the view on both sides. -/
def splits : Bool := view.base ≠ base ∧ base + size ≠ view.limit

/-- `remove_pages_from_view` -/
def removePagesFromView : List Call :=
  if splits view base size then
    if allocated then
      [.unregisterView view, .registerView { view with size := base - view.base },
        .registerView ⟨base + size, view.limit - (base + size), view.protect⟩]
    else []
  else if view.base = base then
    [.unregisterView view, .registerView ⟨base + size, view.size - size, view.protect⟩]
  else [.unregisterView view, .registerView { view with size := base - view.base }]

/--
`free_pages_preserve_placeholder`.  The flags say whether there was memory
for splitting the view and for the placeholder.
-/
def freePagesPreservePlaceholder (views : List View) (view : View) (base size : Nat)
    (allocated allocated' : Bool) : List Call :=
  let placeholder := vprotPlaceholder ||| vprotFreePlaceholder
  if size = 0 then []
  else if view.protect &&& vprotPlaceholder = 0 then []
  else if view.protect &&& vprotFreePlaceholder ≠ 0 ∧ size = view.size then []
  else if size < view.size then
    let removal := removePagesFromView view base size allocated
    if splits view base size ∧ allocated = false then []
    else
      removal ++ createView (overlapping (removal.foldl viewsAfter views) base size) base size
        placeholder allocated'
  else [.setProtect view placeholder]

/-- `free_pages` -/
def freePages : List Call :=
  if size = view.size then deleteView view
  else removePagesFromView view base size allocated

end

/--
The loop of `coalesce_placeholders`, which counts placeholders that follow
each other without a gap and adds up their sizes.
-/
def countPlaceholders (size : Nat) : View → List View → Nat → Nat → Nat × Nat
  | curr, rest, viewCount, viewsSize =>
    if curr.protect &&& vprotFreePlaceholder = 0 then (viewCount, viewsSize)
    else if viewsSize + curr.size ≥ size then (viewCount + 1, viewsSize + curr.size)
    else
      match rest with
      | [] => (viewCount + 1, viewsSize + curr.size)
      | next :: rest =>
        if curr.limit ≠ next.base then (viewCount + 1, viewsSize + curr.size)
        else countPlaceholders size next rest (viewCount + 1) (viewsSize + curr.size)

/-- `coalesce_placeholders` -/
def coalescePlaceholders (views : List View) (view : View) (base size : Nat) : List Call :=
  if size = 0 then []
  else if base ≠ view.base then []
  else
    let counted := countPlaceholders size view (following views view) 0 0
    if counted.1 < 2 ∨ size ≠ counted.2 then []
    else
      ((following views view).take (counted.1 - 1)).map .unregisterView ++
        [.unregisterView view, .registerView { view with size := counted.2 }]

/-- The operations on the views of a process. -/
inductive Op where
  | createView (met : List View) (base size : Nat) (vprot : BitVec 32) (allocated : Bool)
  | deleteView (view : View)
  | removePagesFromView (view : View) (base size : Nat) (allocated : Bool)
  | freePagesPreservePlaceholder (view : View) (base size : Nat) (allocated allocated' : Bool)
  | freePages (view : View) (base size : Nat) (allocated : Bool)
  | coalescePlaceholders (view : View) (base size : Nat)
deriving DecidableEq, Repr

/-- The calls an operation makes. -/
def Op.calls (views : List View) : Op → List Call
  | .createView met base size vprot allocated => Views.createView met base size vprot allocated
  | .deleteView view => Views.deleteView view
  | .removePagesFromView view base size allocated =>
    Views.removePagesFromView view base size allocated
  | .freePagesPreservePlaceholder view base size allocated allocated' =>
    Views.freePagesPreservePlaceholder views view base size allocated allocated'
  | .freePages view base size allocated => Views.freePages view base size allocated
  | .coalescePlaceholders view base size => Views.coalescePlaceholders views view base size

/-- The views after an operation. -/
def Op.viewsAfter (views : List View) (op : Op) : List View :=
  (op.calls views).foldl Views.viewsAfter views

/-- The calls that a sequence of operations makes. -/
def callsOf : List View → List Op → List Call
  | _, [] => []
  | views, op :: ops => op.calls views ++ callsOf (op.viewsAfter views) ops

end WineRedRose.Views
