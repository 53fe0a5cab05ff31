import WineRedRose.Views.Operations

/-!
# The table over whole runs

A run of operations keeps the table in step with the views, and no assertion
fails, exactly as long as no call meets one of the three situations in which
a block is overlooked.
-/

namespace WineRedRose.Views

open Library.Extents List
open Library.Runs

variable {target : Target}

/--
No block is overlooked by the call.  A new view must end below the last block
of the address space.  A view that is registered or unregistered must not
start in a block it shares with another view, behind a block without views,
while it has a block of its own.  The lowest view must not be unregistered
while another one starts in the block at address zero.
-/
def Call.Safe (target : Target) (space : Space) : Call → Prop
  | .registerView view => view.limit + 0x10000 ≤ target.space ∧ ¬ SharesFirstBlock space.views view
  | .unregisterView view =>
    ¬ SharesFirstBlock (space.views.erase view) view ∧
      ¬ HidesLowestBlock (space.views.erase view) view
  | .setProtect _ _ => True

/-- The table has space for one more range. -/
def Space.HasRoom (target : Target) (space : Space) : Prop :=
  target.fits (space.freeRanges.length + 1)

/-- One call does not fail, and what it does is decided by the condition. -/
theorem Inv.call {space : Space} (inv : Inv target space) {call : Call}
    (legal : call.Legal target space.views) (room : space.HasRoom target) :
    ∃ next, space.call target call = some next ∧ next.views = viewsAfter space.views call ∧
      (Matches target next ↔ call.Safe target space) := by
  cases call with
  | registerView view =>
    rcases inv.register ⟨legal.1, legal.2, room⟩ with ⟨ranges, result, safe⟩
    exact ⟨_, by rw [Space.call, result]; rfl, rfl, safe⟩
  | unregisterView view =>
    rcases inv.unregister legal room with ⟨ranges, result, safe⟩
    exact ⟨_, by rw [Space.call, result]; rfl, rfl, safe⟩
  | setProtect view protect =>
    refine ⟨_, rfl, rfl, fun _ => trivial, fun _ => ?_⟩
    refine ⟨inv.apart, inv.aligned, fun block inside => ?_⟩
    rw [inv.exactly block inside]
    -- changing a protection moves no block
    simp only [viewsAfter, forall_mem_map]
    refine forall₂_congr fun other _ => not_congr ?_
    split <;> exact Iff.rfl

/-- A safe call keeps the views below the last block. -/
theorem Inv.low_viewsAfter {space : Space} (inv : Inv target space) {call : Call}
    (legal : call.Legal target space.views) (safe : call.Safe target space) :
    ∀ view ∈ viewsAfter space.views call, view.limit + 0x10000 ≤ target.space := by
  intro other member
  cases call with
  | registerView view =>
    rcases (mem_rbPut inv.placed legal.1 legal.2 other).mp member with rfl | old
    · exact safe.1
    · exact inv.low other old
  | unregisterView view => exact inv.low other (mem_of_mem_erase member)
  | setProtect view protect =>
    rcases mem_map.mp member with ⟨old, among, rfl⟩
    have low := inv.low old among
    split <;> exact low

theorem inv_initial (target : Target) : Inv target (.initial target) := by
  have size := target.space_eq
  have many := target.two_le_blocks
  refine ⟨⟨⟨?_, pairwise_singleton _ _⟩, ?_, ?_⟩, ⟨?_, .nil⟩, ?_⟩
  · intro range member
    rcases mem_singleton.mp member with rfl
    simp only
    omega
  · intro range member
    rcases mem_singleton.mp member with rfl
    exact ⟨⟨0, rfl⟩, .inr rfl, le_rfl⟩
  · intro block inside
    exact iff_of_true ⟨_, .head _, Nat.zero_le _, min_le_right _ _⟩ nofun
  · exact nofun
  · exact nofun

/-! ## Runs -/

/-- No assertion has failed, and the table matches the views. -/
def Exact (target : Target) (state : Option Space) : Prop :=
  ∃ space, state = some space ∧ Matches target space

/-- The calls of a run, seen by the process as long as there is one. -/
def Throughout (target : Target) (condition : Space → Call → Prop) (calls : List Call) : Prop :=
  Along (step target) (fun state call => ∀ space ∈ state, condition space call)
    (some (.initial target)) calls

instance (target : Target) (condition : Space → Call → Prop)
    [∀ space call, Decidable (condition space call)] (calls : List Call) :
    Decidable (Throughout target condition calls) :=
  inferInstanceAs (Decidable (Along _ _ _ _))

instance (target : Target) (space : Space) :
    Decidable (space.HasRoom target) :=
  inferInstanceAs (Decidable (_ = true))

theorem call_views {space next : Space} {call : Call}
    (result : space.call target call = some next) :
    next.views = viewsAfter space.views call := by
  rcases Option.map_eq_some_iff.mp result with ⟨ranges, _, rfl⟩
  rfl

/-- What is legal for the tree alone is legal along the run. -/
theorem along_legal {views : List View} {calls : List Call}
    (legal : Along viewsAfter (Call.Legal target) views calls) {state : Option Space}
    (same : ∀ space ∈ state, space.views = views) :
    Along (step target) (fun state call => ∀ space ∈ state, call.Legal target space.views)
      state calls := by
  induction calls generalizing views state with
  | nil => trivial
  | cons call calls ih =>
    refine ⟨fun space here => same space here ▸ legal.1, ih legal.2 ?_⟩
    intro next later
    rcases Option.bind_eq_some_iff.mp later with ⟨space, here, result⟩
    rw [call_views result, same space here]

/--
The table of free ranges stays sorted, its ranges are not empty, aligned and
do not touch each other, they hold exactly the blocks without views, and no
assertion fails, if and only if every call of the run is safe.
-/
theorem free_ranges_exact_iff_safe (target : Target) (ops : List Op)
    (legal : LegalOps target [] ops)
    (room : Throughout target (fun space _ => space.HasRoom target) (callsOf [] ops)) :
    Visits (step target) (Exact target) (some (.initial target)) (callsOf [] ops) ↔
      Throughout target (fun space call => call.Safe target space) (callsOf [] ops) := by
  have initial := inv_initial target
  have calls := legal_callsOf initial.placed legal
  have start : ∀ space ∈ some (Space.initial target), space.views = [] := by
    intro space here
    rw [← Option.some.inj here]
    rfl
  have allowed := (along_legal calls start).and room
  refine @Along.visits_iff _ _ (step target)
    (fun state => ∃ space, state = some space ∧ Inv target space) _ _ _ _ _
    ?_ ?_ ?_ allowed ⟨_, rfl, initial⟩
  · rintro state ⟨space, here, inv⟩
    exact ⟨space, here, inv.toMatches⟩
  · rintro state call ⟨space, rfl, inv⟩ ⟨legal, room⟩ safe
    have legal := legal space rfl
    have safe := safe space rfl
    rcases inv.call legal (room space rfl) with ⟨next, result, views, iff⟩
    refine ⟨next, result, iff.mpr safe, ?_, ?_⟩
    · rw [views]
      exact inv.placed.viewsAfter legal
    · rw [views]
      exact inv.low_viewsAfter legal safe
  · rintro state call ⟨space, rfl, inv⟩ ⟨legal, room⟩ ⟨next, result, exact'⟩
    rcases inv.call (legal space rfl) (room space rfl) with ⟨next', result', _, iff⟩
    have same : next' = next := Option.some.inj (result'.symm.trans result)
    intro space' here
    rw [← Option.some.inj here]
    exact iff.mp (same ▸ exact')

/-- Two views in neighbouring blocks. -/
theorem free_ranges_exact_iff_safe_two_views :
    Visits (step .win64) (Exact .win64) (some (.initial .win64))
        (callsOf [] [.createView [] 0x10000 0x30000 0 true,
          .createView [] 0x40000 0x1000 0 true]) := by
  refine (free_ranges_exact_iff_safe _ _ ?_ ?_).mpr ?_
  · exact ⟨⟨⟨by decide, by decide, by decide, by decide⟩, .refl _⟩,
      ⟨⟨by decide, by decide, by decide, by decide⟩, .refl _⟩, trivial⟩
  · decide
  · have apart : ∀ (space : Space) (view : View), (∀ other ∈ space.views,
        ¬ other.Touches view.firstBlock) → ¬ SharesFirstBlock space.views view := by
      rintro space view free ⟨⟨other, member, touches⟩, -⟩
      exact free other member touches
    refine ⟨?_, ?_, trivial⟩
    · rintro space ⟨⟩
      exact ⟨by decide, apart _ _ nofun⟩
    · intro space here
      have first : (Space.initial .win64).call .win64 (.registerView ⟨0x10000, 0x30000, 0⟩) =
        some space := here
      refine ⟨by decide, apart _ _ ?_⟩
      rw [call_views first]
      intro other member
      cases List.mem_singleton.mp member
      simp [View.Touches, View.firstBlock, View.limit]

/--
After the second page of a view was released, the rest above it is registered
without effect, because a free range ends where its first block starts.
-/
theorem released_middle_is_overlooked : LegalOps .win64 [] [.createView [] 0x10000 0x30000 0 true,
        .removePagesFromView ⟨0x10000, 0x30000, 0⟩ 0x11000 0x1000 true] ∧
      Throughout .win64 (fun space _ => space.HasRoom .win64)
        (callsOf [] [.createView [] 0x10000 0x30000 0 true,
          .removePagesFromView ⟨0x10000, 0x30000, 0⟩ 0x11000 0x1000 true]) ∧
      ¬ Visits (step .win64) (Exact .win64) (some (.initial .win64))
        (callsOf [] [.createView [] 0x10000 0x30000 0 true,
          .removePagesFromView ⟨0x10000, 0x30000, 0⟩ 0x11000 0x1000 true]) := by
  refine ⟨⟨⟨⟨by decide, by decide, by decide, by decide⟩, .refl _⟩,
    ⟨by decide, ⟨by decide, by decide, by decide, by decide⟩, by decide⟩,
    trivial⟩, by decide, ?_⟩
  intro visits
  rcases visits.last with ⟨space, here, exact'⟩
  have final : run (step .win64) (some (.initial .win64))
      (callsOf [] [.createView [] 0x10000 0x30000 0 true,
        .removePagesFromView ⟨0x10000, 0x30000, 0⟩ 0x11000 0x1000 true]) =
      some ⟨[⟨0x10000, 0x1000, 0⟩, ⟨0x12000, 0x2e000, 0⟩],
        [⟨0, 0x10000⟩, ⟨0x20000, 0xffffffffffffffff⟩]⟩ := by decide
  rw [here] at final
  rcases Option.some.inj final with rfl
  have free := (exact'.exactly 2 (by decide)).mp
    ⟨⟨0x20000, 0xffffffffffffffff⟩, by decide, by decide, by decide⟩
  exact free ⟨0x12000, 0x2e000, 0⟩ (by decide) (by decide)

end WineRedRose.Views
