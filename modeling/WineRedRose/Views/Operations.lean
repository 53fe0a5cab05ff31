import WineRedRose.Views.Unregistering

/-!
# The operations and their calls

The functions that create, delete, split and coalesce views register only
views that are legal and disjoint from the others, and unregister only views
that are in the tree.
-/

namespace WineRedRose.Views

open Library.Runs List View

/-- A call with a legal new view, or with a view that is in the tree. -/
def Call.Legal (target : Target) (views : List View) : Call → Prop
  | .registerView view => view.Legal target ∧ ∀ other ∈ views, view.Disjoint other
  | .unregisterView view => view ∈ views
  | .setProtect _ _ => True

/-- The pages belong to the view. -/
structure WithinView (view : View) (base size : Nat) : Prop where
  base_aligned : pageMask + 1 ∣ base
  size_aligned : pageMask + 1 ∣ size
  start : view.base ≤ base
  finish : base + size ≤ view.limit

/-- What the callers of the functions see to. -/
def Op.Legal (target : Target) (views : List View) : Op → Prop
  | .createView met base size vprot _ =>
    (View.mk base size vprot).Legal target ∧ met.Perm (overlapping views base size)
  | .deleteView view => view ∈ views
  | .removePagesFromView view base size _ =>
    view ∈ views ∧ WithinView view base size ∧ size < view.size
  | .freePagesPreservePlaceholder view base size _ _ => view ∈ views ∧ WithinView view base size
  | .freePages view base size _ => view ∈ views ∧ WithinView view base size
  | .coalescePlaceholders view _ _ => view ∈ views

section

variable {target : Target} {views : List View} {view : View}

/-! ## The tree after a call -/

section

variable (placed : WellPlaced target views)
include placed

/-- Changing the protection of a view does not move it. -/
theorem WellPlaced.setProtect (view : View) (protect : BitVec 32) :
    WellPlaced target (viewsAfter views (.setProtect view protect)) := by
  constructor
  · intro other member
    rcases mem_map.mp member with ⟨old, among, rfl⟩
    have legal := placed.legal old among
    split
    · exact ⟨legal.base_aligned, legal.size_aligned, legal.nonempty, legal.inside⟩
    · exact legal
  · apply pairwise_map.mpr
    apply placed.ordered.imp
    intro lower upper order
    split <;> split <;> exact order

theorem WellPlaced.viewsAfter {call : Call} (legal : call.Legal target views) :
    WellPlaced target (viewsAfter views call) := by
  cases call with
  | registerView view => exact placed.put legal.1 legal.2
  | unregisterView view => exact placed.erase view
  | setProtect view protect => exact placed.setProtect view protect

theorem WellPlaced.run {calls : List Call}
    (legal : Along Views.viewsAfter (Call.Legal target) views calls) :
    WellPlaced target (calls.foldl Views.viewsAfter views) := by
  induction calls generalizing views with
  | nil => exact placed
  | cons call calls ih => exact ih (placed.viewsAfter legal.1) legal.2

theorem WellPlaced.nodup :
    views.Nodup := by
  apply placed.ordered.imp_of_mem
  intro lower upper member _ order same
  have short := (placed.legal lower member).base_lt_limit
  subst same
  omega

theorem WellPlaced.disjoint_erase (member : view ∈ views) :
    ∀ other ∈ views.erase view, view.Disjoint other := by
  rcases placed.neighbours member with ⟨lower, upper, near⟩
  rw [near.erased]
  intro other either
  rcases mem_append.mp either with low | high
  · exact .inr (near.below other low)
  · exact .inl (near.above other high)

end

/-- A part of a view is disjoint from what the view is disjoint from. -/
theorem View.Disjoint.part {other part : View} (disjoint : view.Disjoint other)
    (start : view.base ≤ part.base) (finish : part.limit ≤ view.limit) :
    part.Disjoint other :=
  disjoint.imp finish.trans fun low => low.trans start

/-! ## Unregistering several views -/

theorem foldl_unregister (removed : List View) :
    (removed.map Call.unregisterView).foldl viewsAfter views = views.diff removed := by
  induction removed generalizing views with
  | nil => rfl
  | cons view removed ih =>
    rw [map_cons, foldl_cons, ih, diff_cons]
    rfl

theorem along_unregister {removed : List View} (distinct : removed.Nodup)
    (among : ∀ view ∈ removed, view ∈ views) :
    Along viewsAfter (Call.Legal target) views (removed.map Call.unregisterView) := by
  induction removed generalizing views with
  | nil => trivial
  | cons view removed ih =>
    rcases nodup_cons.mp distinct with ⟨fresh, rest⟩
    refine ⟨among view (.head _), ih rest fun other member => ?_⟩
    have different : other ≠ view := fun same => fresh (same ▸ member)
    exact (mem_erase_of_ne different).mpr (among other (.tail _ member))

/-! ## Each operation -/

theorem WellPlaced.createView (placed : WellPlaced target views) {met : List View} {base size : Nat}
    {vprot : BitVec 32} (legal : (View.mk base size vprot).Legal target)
    (all : met.Perm (overlapping views base size)) (allocated : Bool) :
    Along Views.viewsAfter (Call.Legal target) views
      (createView met base size vprot allocated) := by
  have distinct : met.Nodup := all.nodup_iff.mpr (placed.nodup.filter _)
  have among : ∀ view ∈ met, view ∈ views := fun view member =>
    (mem_filter.mp (all.mem_iff.mp member)).1
  apply along_append.mpr
  refine ⟨along_unregister distinct among, ?_⟩
  cases allocated with
  | false => trivial
  | true =>
    refine ⟨⟨legal, fun other member => ?_⟩, trivial⟩
    rw [Library.Runs.run, foldl_unregister, placed.nodup.mem_sdiff_iff] at member
    -- a view that was not met does not overlap
    by_contra meets
    apply member.2
    rw [all.mem_iff, overlapping, mem_filter]
    rw [View.Disjoint, not_or, not_le, not_le] at meets
    exact ⟨member.1, by simpa using ⟨meets.1, meets.2⟩⟩

section

variable (placed : WellPlaced target views) (member : view ∈ views)
include placed member

/-- Replacing a view by one or two parts of it. -/
theorem WellPlaced.replace {part : View} (legal : part.Legal target) (start : view.base ≤ part.base)
    (finish : part.limit ≤ view.limit) :
    Along Views.viewsAfter (Call.Legal target) views [.unregisterView view, .registerView part] :=
  ⟨member, ⟨legal, fun other among =>
    (placed.disjoint_erase member other among).part start finish⟩, trivial⟩

theorem WellPlaced.replace_two {lower upper : View} (legal : lower.Legal target)
    (legal' : upper.Legal target) (start : view.base ≤ lower.base)
    (between : lower.limit ≤ upper.base) (finish : upper.limit ≤ view.limit) :
    Along Views.viewsAfter (Call.Legal target) views
      [.unregisterView view, .registerView lower, .registerView upper] := by
  have short := legal.base_lt_limit
  have short' := legal'.base_lt_limit
  have first := placed.replace member legal start (by omega)
  refine ⟨member, first.2.1, ⟨legal', fun other among => ?_⟩, trivial⟩
  rcases (mem_rbPut (placed.erase view) legal first.2.1.2 other).mp among with rfl | old
  · exact .inr between
  · exact (placed.disjoint_erase member other old).part (by omega) finish

omit placed member in
/-- The remaining pages of a view form a legal view. -/
theorem View.Legal.part (legal : view.Legal target) {part : View}
    (base_aligned : pageMask + 1 ∣ part.base) (size_aligned : pageMask + 1 ∣ part.size)
    (nonempty : 0 < part.size) (finish : part.limit ≤ view.limit) : part.Legal target :=
  ⟨base_aligned, size_aligned, nonempty, finish.trans legal.inside⟩

theorem WellPlaced.removePagesFromView {base size : Nat} (within : WithinView view base size)
    (part : size < view.size) (allocated : Bool) :
    Along Views.viewsAfter (Call.Legal target) views
      (removePagesFromView view base size allocated) := by
  have legal := placed.legal view member
  have start := within.start
  have finish := within.finish
  have below : pageMask + 1 ∣ base - view.base := Nat.dvd_sub within.base_aligned legal.base_aligned
  have next := Nat.dvd_add within.base_aligned within.size_aligned
  have last := Nat.dvd_add legal.base_aligned legal.size_aligned
  have lower (positive : view.base < base) : View.Legal target
      { view with size := base - view.base } := by
    refine ⟨legal.base_aligned, below, Nat.sub_pos_of_lt positive, ?_⟩
    have inside := legal.inside
    simp only [limit] at inside finish ⊢
    omega
  rw [Views.removePagesFromView]
  split
  next inner =>
    simp only [splits, decide_eq_true_eq] at inner
    cases allocated with
    | false => trivial
    | true =>
      have upper : View.Legal target ⟨base + size, view.limit - (base + size), view.protect⟩ := by
        apply legal.part next (Nat.dvd_sub last next)
        · simp only
          omega
        · simp only [limit] at finish ⊢
          omega
      apply placed.replace_two member (lower (by omega)) upper le_rfl
      · simp only [limit]
        omega
      · simp only [limit] at finish ⊢
        omega
  next outer =>
    split
    next first =>
      have upper : View.Legal target ⟨base + size, view.size - size, view.protect⟩ := by
        apply legal.part next (Nat.dvd_sub legal.size_aligned within.size_aligned)
          (Nat.sub_pos_of_lt part)
        simp only [limit]
        omega
      apply placed.replace member upper
      · simp only
        omega
      · simp only [limit]
        omega
    next later =>
      apply placed.replace member (lower (by omega)) le_rfl
      simp only [limit] at finish ⊢
      omega

theorem WellPlaced.freePagesPreservePlaceholder {base size : Nat}
    (within : WithinView view base size) (allocated allocated' : Bool) :
    Along Views.viewsAfter (Call.Legal target) views
      (freePagesPreservePlaceholder views view base size allocated allocated') := by
  rw [Views.freePagesPreservePlaceholder]
  split
  next => trivial
  next positive =>
  split
  next => trivial
  split
  next => trivial
  split
  next part =>
    split
    next => trivial
    have removal := placed.removePagesFromView member within part allocated
    have legal := placed.legal view member
    apply along_append.mpr
    refine ⟨removal, ?_⟩
    apply (placed.run removal).createView _ (List.Perm.refl _)
    exact ⟨within.base_aligned, within.size_aligned,
      Nat.pos_of_ne_zero positive, within.finish.trans legal.inside⟩
  next => exact ⟨trivial, trivial⟩

theorem WellPlaced.freePages {base size : Nat} (within : WithinView view base size)
    (allocated : Bool) :
    Along Views.viewsAfter (Call.Legal target) views (freePages view base size allocated) := by
  rw [Views.freePages]
  split
  next whole => exact ⟨member, trivial⟩
  next part =>
    have start := within.start
    have finish := within.finish
    simp only [limit] at finish
    exact placed.removePagesFromView member within (by omega) allocated

end

/-! ## Coalescing -/

/-- The sizes of the first views. -/
def sizes (views : List View) : Nat := (views.map View.size).sum

/-- The loop counts views that follow each other without a gap. -/
theorem countPlaceholders_spec (size : Nat) (curr : View) (rest : List View) (count total : Nat) :
    ∃ more, countPlaceholders size curr rest count total =
        (count + more, total + sizes ((curr :: rest).take more)) ∧
      (0 < more → ∃ last ∈ (curr :: rest).take more,
        curr.base + sizes ((curr :: rest).take more) = last.limit) := by
  have one (curr : View) (rest : List View) :
      curr.base + sizes ((curr :: rest).take 1) = curr.limit := by simp [sizes, limit]
  induction rest generalizing curr count total with
  | nil =>
    rw [countPlaceholders]
    split
    · exact ⟨0, by simp [sizes], by simp⟩
    · split <;> exact ⟨1, by simp [sizes], fun _ => ⟨curr, by simp, one curr []⟩⟩
  | cons next rest ih =>
    rw [countPlaceholders]
    split
    · exact ⟨0, by simp [sizes], by simp⟩
    split
    · exact ⟨1, by simp [sizes], fun _ => ⟨curr, by simp, one curr _⟩⟩
    split
    · exact ⟨1, by simp [sizes], fun _ => ⟨curr, by simp, one curr _⟩⟩
    next touching =>
      rw [not_not] at touching
      rcases ih next (count + 1) (total + curr.size) with ⟨more, counted, reaches⟩
      refine ⟨more + 1, ?_, ?_⟩
      · rw [counted]
        simp only [sizes, take_succ_cons, map_cons, sum_cons, Prod.mk.injEq]
        omega
      · intro _
        cases more with
        | zero => exact ⟨curr, by simp, one curr _⟩
        | succ more =>
          rcases reaches (Nat.succ_pos _) with ⟨last, among, ends⟩
          refine ⟨last, ?_, ?_⟩
          · rw [take_succ_cons]
            exact .tail _ among
          · rw [← ends, ← touching]
            simp only [sizes, take_succ_cons, map_cons, sum_cons, limit]
            omega

/-- A view and the ones that follow it without a gap, as one view. -/
theorem Neighbours.coalesced {lower taken rest : List View}
    (near : Neighbours target views view lower (taken ++ rest)) {last : View}
    (among : last ∈ view :: taken) (reaches : view.base + sizes (view :: taken) = last.limit) :
    View.Legal target { view with size := sizes (view :: taken) } ∧ ∀ other ∈ lower ++ rest,
        View.Disjoint { view with size := sizes (view :: taken) } other := by
  have mem : ∀ other ∈ view :: taken, other ∈ views := by
    intro other member
    rcases mem_cons.mp member with rfl | later
    · exact near.mem
    · exact near.mem_upper (mem_append_left _ later)
  have legal := near.legal view near.mem
  have order := (pairwise_append.mp near.upper_ordered).2.2
  constructor
  · refine ⟨legal.base_aligned, ?_, ?_, ?_⟩
    · apply dvd_sum
      intro size member
      rcases mem_map.mp member with ⟨other, either, rfl⟩
      exact (near.legal other (mem other either)).size_aligned
    · have positive := legal.nonempty
      simp only [sizes, map_cons, sum_cons]
      omega
    · exact reaches.le.trans (near.legal last (mem last among)).inside
  · intro other member
    rcases mem_append.mp member with low | high
    · exact .inr (near.below other low)
    · left
      apply reaches.le.trans
      rcases mem_cons.mp among with rfl | later
      · exact near.above other (mem_append_right _ high)
      · exact order last later other high

theorem WellPlaced.coalescePlaceholders (placed : WellPlaced target views) (member : view ∈ views)
    (base size : Nat) :
    Along Views.viewsAfter (Call.Legal target) views
      (coalescePlaceholders views view base size) := by
  rcases placed.neighbours member with ⟨lower, upper, near⟩
  rw [Views.coalescePlaceholders, near.following_eq]
  split
  next => trivial
  split
  next => trivial
  rcases countPlaceholders_spec size view upper 0 0 with ⟨more, counted, reaches⟩
  rw [counted]
  dsimp only
  split
  next => trivial
  next many =>
    obtain ⟨count, rfl⟩ : ∃ count, more = count + 1 := ⟨more - 1, by omega⟩
    rcases reaches (Nat.succ_pos _) with ⟨last, among, ends⟩
    have whole := near
    rw [← take_append_drop count upper] at whole
    have single := whole.coalesced among ends
    have taken : ∀ other ∈ upper.take count, other ∈ upper := fun _ => mem_of_mem_take
    have absent : view ∉ upper.take count := fun later => (near.lt_base (taken view later)).false
    rw [zero_add, zero_add, Nat.add_sub_cancel]
    apply along_append.mpr
    rw [Library.Runs.run, foldl_unregister]
    refine ⟨along_unregister ?_ fun other later =>
        near.mem_upper (taken other later),
      placed.nodup.mem_sdiff_iff.mpr ⟨member, absent⟩,
      ⟨single.1, fun other remains => single.2 other ?_⟩, trivial⟩
    · have all := nodup_append.mp (near.split ▸ placed.nodup)
      exact (nodup_cons.mp all.2.1).2.sublist (take_sublist _ _)
    · -- what is left of the tree are the views below and above
      have parts := placed.nodup.diff.mem_erase_iff.mp remains
      have outside := placed.nodup.mem_sdiff_iff.mp parts.2
      rw [whole.split] at outside
      simp only [mem_append, mem_cons] at outside ⊢
      tauto

/-- A legal operation makes legal calls. -/
theorem Op.Legal.calls {op : Op} (legal : op.Legal target views)
    (placed : WellPlaced target views) :
    Along Views.viewsAfter (Call.Legal target) views (op.calls views) := by
  cases op with
  | createView met base size vprot allocated => exact placed.createView legal.1 legal.2 allocated
  | deleteView view => exact ⟨legal, trivial⟩
  | removePagesFromView view base size allocated =>
    exact placed.removePagesFromView legal.1 legal.2.1 legal.2.2 allocated
  | freePagesPreservePlaceholder view base size allocated allocated' =>
    exact placed.freePagesPreservePlaceholder legal.1 legal.2 allocated allocated'
  | freePages view base size allocated => exact placed.freePages legal.1 legal.2 allocated
  | coalescePlaceholders view base size => exact placed.coalescePlaceholders legal base size

/-- A sequence of legal operations. -/
def LegalOps (target : Target) : List View → List Op → Prop :=
  Along (fun views op => op.viewsAfter views) fun views op => op.Legal target views

/-- A sequence of legal operations makes legal calls. -/
theorem legal_callsOf {ops : List Op} (placed : WellPlaced target views)
    (legal : LegalOps target views ops) :
    Along viewsAfter (Call.Legal target) views (callsOf views ops) := by
  induction ops generalizing views with
  | nil => trivial
  | cons op ops ih =>
    have calls := legal.1.calls placed
    exact along_append.mpr ⟨calls, ih (placed.run calls) legal.2⟩

end

end WineRedRose.Views
