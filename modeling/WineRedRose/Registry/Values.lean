import WineRedRose.Library.Runs
import WineRedRose.Registry.Frame

/-!
# The values of a key

Values are stored sorted by name.  The order in which they were first set is
kept in a field of each value, and `enum_value` goes by that field.  Deleting
a value has to close the gap in the array and the gap in the numbering.  The
code decrements numbers only up to the slot of the deleted value, after the
shift, so values that stood two or more slots behind it keep theirs.
-/

namespace WineRedRose.Registry

open Library.SortedArray List
open Library.Runs

variable {lower : WChar → WChar}

/-! ## The loops of `delete_value` -/

variable {order : Nat}

/-- The decrement in the first loop is lost when the slot is overwritten. -/
theorem deleteShift_place (before moved : List KeyValue) (value : KeyValue) :
    ∃ last, deleteShift order (before ++ value :: moved) before.length moved.length =
      before ++ moved ++ [last] := by
  induction moved generalizing before value with
  | nil => exact ⟨value, by simp [deleteShift]⟩
  | cons next moved ih =>
    rcases ih (before ++ [next]) next with ⟨last, shifted⟩
    refine ⟨last, ?_⟩
    rw [length_cons, deleteShift, modify_place, copySlot_place (getElem?_place_succ ..)]
    simpa using shifted

variable {values : List KeyValue}

theorem getElem?_renumberLoop (j count i : Nat) : (renumberLoop order values j count)[i]? =
      if j ≤ i ∧ i < j + count then values[i]?.map (renumber order)
      else values[i]? := by
  induction count generalizing values j with
  | zero => rw [renumberLoop, if_neg (by omega)]
  | succ count ih =>
    rw [renumberLoop, ih]
    rcases eq_or_ne j i with rfl | other
    · rw [if_neg (by omega), if_pos (by omega), getElem?_modify_eq]
      rfl
    · rw [getElem?_modify_ne _ _ other]
      congr 1
      simp only [eq_iff_iff]
      omega

/-- What is left after a deletion, and which numbers have changed. -/
theorem removeValue_eq {index : Nat} (inside : index < values.length) :
    removeValue values index order = (values.eraseIdx index).mapIdx fun j value =>
        if j ≤ index then renumber order value else value := by
  obtain ⟨before, value, moved, rfl, rfl⟩ := exists_place inside
  rcases deleteShift_place before moved value with ⟨last, shifted⟩
  have count : (before ++ value :: moved).length - 1 - before.length = moved.length := by simp
  have renumbered : renumberLoop order (before ++ moved ++ [last]) 0 (before.length + 1) =
      (before ++ moved ++ [last]).mapIdx fun j value =>
        if j ≤ before.length then renumber order value else value := by
    apply ext_getElem?
    intro j
    rw [getElem?_renumberLoop, getElem?_mapIdx]
    by_cases near : j ≤ before.length
    · simp only [if_pos near, if_pos (show 0 ≤ j ∧ j < 0 + (before.length + 1) by omega)]
    · simp only [if_neg near, if_neg (show ¬ (0 ≤ j ∧ j < 0 + (before.length + 1)) by omega)]
      rw [Option.map_id']
  rw [removeValue, count, shifted, renumbered, mapIdx_concat, eraseIdx_place]
  exact dropLast_concat

/-! ## The numbering -/

/-- The orders of the values are the numbers below their count. -/
def Numbered (values : List KeyValue) : Prop :=
  (values.map KeyValue.order).Perm (range values.length)

/--
The values are sorted by name, and the order of a value is its place in the
list of names in which they were first set.
-/
structure InOrder (lower : WChar → WChar) (values : List KeyValue)
    (history : List Name) : Prop where
  sorted : SortedBy (fun value => foldName lower value.name) values
  length : history.length = values.length
  placed : ∀ value ∈ values, history[value.order]? = some value.name

variable {i : Nat}

section InOrder

variable {values : List KeyValue} {history : List Name}

variable {value : KeyValue} {index : Nat}

section

variable (inOrder : InOrder lower values history)
include inOrder

theorem InOrder.order_lt (member : value ∈ values) : value.order < values.length := by
  rw [← inOrder.length]
  exact (List.getElem?_eq_some_iff.mp (inOrder.placed value member)).1

theorem InOrder.order_injective {v w : KeyValue} (memV : v ∈ values) (memW : w ∈ values)
    (same : v.order = w.order) : v = w := by
  have placed := inOrder.placed v memV
  rw [same, inOrder.placed w memW] at placed
  apply inOrder.sorted.key_injective memV memW
  rw [Option.some.inj placed]

theorem InOrder.numbered :
    Numbered values := by
  have nodup : (values.map KeyValue.order).Nodup := by
    apply inOrder.sorted.nodup.map_on
    intro v memV w memW same
    exact inOrder.order_injective memV memW same
  have bounded : values.map KeyValue.order ⊆ range values.length := by
    intro order member
    rcases mem_map.mp member with ⟨value, inValues, rfl⟩
    exact mem_range.mpr (inOrder.order_lt inValues)
  exact (subperm_of_subset nodup bounded).perm_of_length_le (by simp)

/-- Every name in the list is the name of a value. -/
theorem InOrder.holder {name : Name} (atI : history[i]? = some name) :
    ∃ value ∈ values, value.order = i ∧ value.name = name := by
  have bound : i < values.length := by
    rw [← inOrder.length]
    exact (List.getElem?_eq_some_iff.mp atI).1
  have inRange : i ∈ values.map KeyValue.order := inOrder.numbered.mem_iff.mpr (mem_range.mpr bound)
  rcases mem_map.mp inRange with ⟨value, member, rfl⟩
  refine ⟨value, member, rfl, ?_⟩
  exact Option.some.inj ((inOrder.placed value member).symm.trans atI)

omit inOrder in
theorem InOrder.nil : InOrder lower [] [] :=
  ⟨List.Pairwise.nil, rfl, fun _ member => by cases member⟩

/-- A new value gets the next number. -/
theorem InOrder.insert (number : value.order = values.length)
    (fits : Fits (fun value => foldName lower value.name)
      (foldName lower value.name) values index) :
    InOrder lower (values.insertIdx index value) (history ++ [value.name]) := by
  refine ⟨fits.insertIdx inOrder.sorted, ?_, fun other member => ?_⟩
  · rw [length_insertIdx_of_le_length fits.inside, length_append, inOrder.length, length_singleton]
  · rcases (mem_insertIdx fits.inside).mp member with rfl | old
    · rw [number, ← inOrder.length, getElem?_concat_length]
    · rw [getElem?_append_left, inOrder.placed other old]
      rw [inOrder.length]
      exact inOrder.order_lt old

/-- New data for a value changes neither its name nor its number. -/
theorem InOrder.update {value' : KeyValue} (here : values[index]? = some value)
    (name : value'.name = value.name) (order : value'.order = value.order) :
    InOrder lower (values.set index value') history := by
  refine ⟨inOrder.sorted.set here (by rw [name]), ?_, fun other member => ?_⟩
  · rw [length_set, inOrder.length]
  · rcases mem_or_eq_of_mem_set member with old | rfl
    · exact inOrder.placed other old
    · rw [order, name]
      exact inOrder.placed value (mem_of_getElem? here)

theorem InOrder.order_ne {other : KeyValue} (here : values[index]? = some value)
    (member : other ∈ values.eraseIdx index) :
    other ∈ values ∧ other.order ≠ value.order := by
  rcases mem_eraseIdx_iff_getElem?.mp member with ⟨j, elsewhere, atJ⟩
  have inValues := mem_of_getElem? atJ
  refine ⟨inValues, fun same => elsewhere ?_⟩
  have equal := inOrder.order_injective inValues (mem_of_getElem? here) same
  subst equal
  exact inOrder.sorted.index_injective atJ here rfl

end

@[simp]
theorem name_renumber (order : Nat) : (renumber order value).name = value.name := by
  rw [renumber]
  split <;> rfl

/-- A deletion that closes the gap in the numbering. -/
theorem InOrder.erase (inOrder : InOrder lower values history)
    (here : values[index]? = some value) :
    InOrder lower ((values.eraseIdx index).map (renumber value.order))
      (history.eraseIdx value.order) := by
  have inValues := mem_of_getElem? here
  have inside := (List.getElem?_eq_some_iff.mp here).1
  have bound := inOrder.order_lt inValues
  refine ⟨?_, ?_, fun after member => ?_⟩
  · apply pairwise_map.mpr
    simp only [name_renumber]
    exact inOrder.sorted.eraseIdx index
  · rw [length_map, length_eraseIdx_of_lt inside,
      length_eraseIdx_of_lt (by rw [inOrder.length]; exact bound),
      inOrder.length]
  · rcases mem_map.mp member with ⟨other, inRest, rfl⟩
    rcases inOrder.order_ne here inRest with ⟨old, differ⟩
    rw [name_renumber, ← inOrder.placed other old, getElem?_eraseIdx, renumber]
    by_cases later : value.order < other.order
    · rw [if_pos later, if_neg (by dsimp only; omega)]
      rw [Nat.sub_add_cancel (by omega)]
    · rw [if_neg later, if_pos (by omega)]

/-- Forgetting a name is forgetting its place. -/
theorem InOrder.eraseP (inOrder : InOrder lower values history) (member : value ∈ values)
    {name : Name} (named : foldName lower value.name = foldName lower name) :
    history.eraseP (fun old => foldName lower old = foldName lower name) =
      history.eraseIdx value.order := by
  have placed := inOrder.placed value member
  rcases List.getElem?_eq_some_iff.mp placed with ⟨bound, here⟩
  have first : history.findIdx? (fun old => foldName lower old = foldName lower name) =
        some value.order := by
    apply findIdx?_eq_some_iff_getElem.mpr
    refine ⟨bound, by simp [here, named], fun j below same => ?_⟩
    have boundJ : j < history.length := below.trans bound
    rcases inOrder.holder (getElem?_eq_getElem boundJ) with ⟨other, inValues, number, isName⟩
    have sameFold : foldName lower other.name = foldName lower value.name := by
      rw [isName, named]
      simpa using same
    have equal := inOrder.sorted.key_injective inValues member sameFold
    subst equal
    omega
  rw [eraseP_eq_eraseIdx, first]

end InOrder

/-! ## Deleting a value -/

/--
No value two or more slots behind the deleted one was first set after it.
-/
def GapCloses (values : List KeyValue) (index order : Nat) : Prop :=
  ∀ j value, index + 2 ≤ j → values[j]? = some value → value.order ≤ order

section Gap

variable {values : List KeyValue} {history : List Name} {index : Nat}
variable {value : KeyValue}

theorem removeValue_of_gapCloses (here : values[index]? = some value)
    (closes : GapCloses values index value.order) :
    removeValue values index value.order = (values.eraseIdx index).map (renumber value.order) := by
  have inside := (List.getElem?_eq_some_iff.mp here).1
  rw [removeValue_eq inside]
  apply ext_getElem?
  intro j
  rw [getElem?_mapIdx, getElem?_map]
  by_cases near : j ≤ index
  · simp only [if_pos near]
  · simp only [if_neg near, Option.map_id']
    rcases atJ : (values.eraseIdx index)[j]? with _ | other
    · rfl
    · rw [getElem?_eraseIdx, if_neg (by omega)] at atJ
      have older := closes (j + 1) other (by omega) atJ
      rw [Option.map_some, renumber, if_neg (by omega)]

theorem order_renumber_le (order : Nat) : (renumber order value).order ≤ value.order := by
  rw [renumber]
  split
  · exact Nat.sub_le _ _
  · exact le_rfl

/-- Otherwise the orders add up to more than the numbers below the count. -/
theorem InOrder.gapCloses_of_numbered (inOrder : InOrder lower values history)
    (here : values[index]? = some value)
    (numbered : Numbered (removeValue values index value.order)) :
    GapCloses values index value.order := by
  intro j other far atJ
  by_contra newer
  have inside := (List.getElem?_eq_some_iff.mp here).1
  have full := (inOrder.erase here).numbered
  rw [removeValue_eq inside] at numbered
  rw [Numbered, length_mapIdx, mapIdx_eq_zipIdx_map, map_map] at numbered
  rw [Numbered, length_map, map_map] at full
  nth_rewrite 1 [← zipIdx_map_fst 0 (values.eraseIdx index)] at full
  rw [map_map] at full
  refine absurd (full.trans numbered.symm).sum_eq (sum_lt_sum _ _ ?_ ?_).ne
  · intro slot _
    simp only [Function.comp_apply]
    split
    · exact le_rfl
    · exact order_renumber_le _
  · refine ⟨(other, j - 1), ?_, ?_⟩
    · apply mem_zipIdx_iff_getElem?.mpr
      rw [getElem?_eraseIdx, if_neg (by omega), Nat.sub_add_cancel (by omega)]
      exact atJ
    · simp only [Function.comp_apply]
      rw [if_neg (by omega), renumber, if_pos (by omega)]
      dsimp only
      omega

end Gap

/-! ## Enumerating -/

/-- Every value is enumerated once, in the order of the names given. -/
structure Enumerated (key : Key) (history : List Name) : Prop where
  length : history.length = key.values.length
  numbered : Numbered key.values
  enumerates : ∀ i, i < key.values.length → ∃ value ∈ key.values, enumValue key i = .ok value ∧
      history[i]? = some value.name
  once : ∀ value ∈ key.values, ∃! i, enumValue key i = .ok value

variable {key : Key} {value : KeyValue} {history : List Name}

theorem enumValue_eq_ok (found : enumValue key i = .ok value) :
    value ∈ key.values ∧ value.order = i := by
  rw [enumValue] at found
  split at found
  · cases found
  split at found
  · cases found
  split at found
  · next isFirst =>
      cases found
      have named := find?_some isFirst
      exact ⟨mem_of_find?_eq_some isFirst, by simpa using named⟩
  · cases found

theorem InOrder.enumValue_order (inOrder : InOrder lower key.values history)
    (usable : key.predef = false) (member : value ∈ key.values) :
    enumValue key value.order = .ok value := by
  have bound := inOrder.order_lt member
  rw [enumValue, usable, if_neg Bool.false_ne_true, if_neg (by omega)]
  rcases found : key.values.find? fun other => other.order = value.order with _ | first
  · have none := find?_eq_none.mp found value member
    simp at none
  · have named := find?_some found
    have equal := inOrder.order_injective (mem_of_find?_eq_some found) member (by simpa using named)
    rw [equal] at found
    simp only [found]

theorem InOrder.enumerated (inOrder : InOrder lower key.values history)
    (usable : key.predef = true → key.values = []) :
    Enumerated key history := by
  have available : ∀ value ∈ key.values, enumValue key value.order = .ok value := by
    intro value member
    rcases predef : key.predef with _ | _
    · exact inOrder.enumValue_order predef member
    · rw [usable predef] at member
      cases member
  refine ⟨inOrder.length, inOrder.numbered, fun i bound => ?_, fun value member => ?_⟩
  · rcases inOrder.holder (getElem?_eq_getElem (inOrder.length ▸ bound)) with
      ⟨value, member, rfl, _⟩
    exact ⟨value, member, available value member, inOrder.placed value member⟩
  · refine ⟨value.order, available value member, fun i found => ?_⟩
    exact (enumValue_eq_ok found).2.symm

/-! ## Runs on one key -/

/-- What a lookup among the values finds. -/
theorem findValue_spec (sorted : SortedBy (fun value => foldName lower value.name) key.values)
    (name : Name) :
    (∃ value index, findValue lower key name = (some value, index) ∧
        key.values[index]? = some value ∧
        foldName lower value.name = foldName lower name) ∨
      ∃ index, findValue lower key name = (none, index) ∧
        Fits (fun value => foldName lower value.name) (foldName lower name)
          key.values index := by
  rcases search_sorted (compareName_compares lower KeyValue.name name) sorted
    with ⟨index, value, found, here, same⟩ | ⟨index, missing, fits⟩
  · refine .inl ⟨value, index, ?_, here, same⟩
    simp only [findValue, found, here]
  · refine .inr ⟨index, ?_, fits⟩
    simp only [findValue, missing]

/-- The requests that change the values of a key. -/
inductive ValueRequest where
  | setValue (name : Name) (type : BitVec 32) (data : List (BitVec 8))
  | deleteValue (name : Name)
deriving DecidableEq, Repr

/--
The registry, and the names of the values of a key in the order in which they
were first set.
-/
structure ValueRun where
  reg : State
  history : List Name

/-- The list of names goes by what the requests report. -/
def ValueRun.step (lower : WChar → WChar) (k : KeyId) (run : ValueRun) : ValueRequest → ValueRun
  | .setValue name type data =>
    let (reg, status) := setValue lower run.reg k name type data
    { reg := reg
      history :=
        if status = .success ∧ ∀ old ∈ run.history, foldName lower old ≠ foldName lower name
        then run.history ++ [name]
        else run.history }
  | .deleteValue name =>
    let (reg, status) := deleteValue lower run.reg k name
    { reg := reg
      history :=
        if status = .success then
          run.history.eraseP fun old => foldName lower old = foldName lower name
        else run.history }

/--
A deletion finds no value two or more slots behind the deleted one that was
first set after it.
-/
def DeleteSafe (lower : WChar → WChar) (k : KeyId) (run : ValueRun) : ValueRequest → Prop
  | .setValue _ _ _ => True
  | .deleteValue name =>
    ∀ index value, (run.reg.key k).predef = false → (run.reg.key k).values[index]? = some value →
      foldName lower value.name = foldName lower name →
      GapCloses (run.reg.key k).values index value.order

/-- The invariant of the runs. -/
structure ValueRun.Inv (lower : WChar → WChar) (k : KeyId) (run : ValueRun) :
    Prop where
  inOrder : InOrder lower (run.reg.key k).values run.history
  predef : (run.reg.key k).predef = true → (run.reg.key k).values = []

/-- The fields of a key that enumerating reads. -/
def Key.content (key : Key) : List KeyValue × Bool := (key.values, key.predef)

theorem blind_content : Blind Key.content := fun _ _ _ _ => rfl

theorem content_touchKey (reg : State) (k q : KeyId) : ((touchKey reg k).key q).values =
      (reg.key q).values ∧ ((touchKey reg k).key q).predef = (reg.key q).predef :=
  Prod.mk.inj ((touchKey_frame blind_content reg k).key q)

theorem InOrder.absent (inOrder : InOrder lower values history) {name : Name} {index : Nat}
    (fits : Fits (fun value => foldName lower value.name) (foldName lower name) values index) :
    ∀ old ∈ history, foldName lower old ≠ foldName lower name := by
  intro old member
  rcases mem_iff_getElem?.mp member with ⟨i, atI⟩
  rcases inOrder.holder atI with ⟨value, inValues, _, rfl⟩
  exact fits.key_ne value inValues

theorem InOrder.present (inOrder : InOrder lower values history) {name : Name}
    (member : value ∈ values) (named : foldName lower value.name = foldName lower name) :
    ¬ ∀ old ∈ history, foldName lower old ≠ foldName lower name := by
  intro absent
  exact absent value.name (mem_of_getElem? (inOrder.placed value member)) named

section Steps

variable {k : KeyId} {run : ValueRun} {reg : State} {name : Name}

theorem not_predef (predef : (reg.key k).predef = false) : ¬ (reg.key k).predef = true := by
  rw [predef]
  exact Bool.false_ne_true

variable {index : Nat}

variable {type : BitVec 32} {data : List (BitVec 8)}

/-- The invariant is about the values and the flag of the key only. -/
theorem ValueRun.Inv.touched {key : Key} (inOrder : InOrder lower key.values history)
    (predef : key.predef = false) :
    ValueRun.Inv lower k ⟨touchKey (reg.setKey k key) k, history⟩ := by
  rcases content_touchKey (reg.setKey k key) k k with ⟨values, flag⟩
  rw [State.key_setKey_self] at values flag
  refine ⟨?_, fun isPredef => ?_⟩
  · rw [values]
    exact inOrder
  · rw [flag, predef] at isPredef
    cases isPredef

theorem ValueRun.Inv.setValue (inv : run.Inv lower k) (name : Name) (type : BitVec 32)
    (data : List (BitVec 8)) :
    (run.step lower k (.setValue name type data)).Inv lower k := by
  rw [ValueRun.step, Registry.setValue]
  by_cases isPredef : (run.reg.key k).predef = true
  · rw [if_pos isPredef]
    exact inv
  have predef := Bool.eq_false_of_not_eq_true isPredef
  rw [if_neg isPredef]
  rcases findValue_spec inv.inOrder.sorted name with
    ⟨value, index, found, here, named⟩ | ⟨index, missing, fits⟩
  · have old := inv.inOrder.present (mem_of_getElem? here) named
    rw [found]
    dsimp only
    simp only [old, and_false, if_false]
    by_cases same : sameValue type data value
    · rw [if_pos same]
      exact inv
    rw [if_neg same]
    by_cases refused : linkRefuses lower (run.reg.key k) name type
    · rw [if_pos refused]
      exact inv
    · rw [if_neg refused]
      exact ValueRun.Inv.touched (inv.inOrder.update here rfl rfl) predef
  · have fresh := inv.inOrder.absent fits
    rw [missing]
    dsimp only
    by_cases refused : linkRefuses lower (run.reg.key k) name type
    · rw [if_pos refused]
      exact inv
    rw [if_neg refused, insertValue]
    by_cases long : maxValueLen < name.length
    · rw [if_pos long]
      exact inv
    · rw [if_neg long, insertSlot_eq fits.inside]
      dsimp only
      rw [if_pos (show Status.success = .success ∧ _ from ⟨rfl, fresh⟩)]
      exact ValueRun.Inv.touched (inv.inOrder.insert rfl fits) predef

/-- A deletion leaves the values that `removeValue` leaves. -/
theorem deleteValue_of_found {value : KeyValue} (predef : (reg.key k).predef = false)
    (found : findValue lower (reg.key k) name = (some value, index)) :
    (deleteValue lower reg k name).2 = .success ∧ ((deleteValue lower reg k name).1.key k).values =
        removeValue (reg.key k).values index value.order ∧
      ((deleteValue lower reg k name).1.key k).predef = false := by
  rw [deleteValue, if_neg (not_predef predef), found]
  rw [State.key_modifyKey_self]
  have content := content_touchKey (reg.setKey k
      { reg.key k with
        values := removeValue (reg.key k).values index value.order }) k k
  rw [State.key_setKey_self] at content
  exact ⟨rfl, content.1, content.2.trans predef⟩

theorem ValueRun.Inv.deleteValue (inv : run.Inv lower k)
    (safe : DeleteSafe lower k run (.deleteValue name)) :
    (run.step lower k (.deleteValue name)).Inv lower k := by
  rw [ValueRun.step]
  rcases predef : (run.reg.key k).predef with _ | _
  · rcases findValue_spec inv.inOrder.sorted name with
      ⟨value, index, found, here, named⟩ | ⟨index, missing, fits⟩
    · rcases deleteValue_of_found predef found with ⟨status, values, flag⟩
      have closes := safe index value predef here named
      have erased := inv.inOrder.erase here
      rw [← removeValue_of_gapCloses here closes, ← values] at erased
      dsimp only
      rw [if_pos status, inv.inOrder.eraseP (mem_of_getElem? here) named]
      exact ⟨erased, fun isPredef => by rw [flag] at isPredef; cases isPredef⟩
    · rw [Registry.deleteValue, if_neg (not_predef predef), missing]
      exact inv
  · rw [Registry.deleteValue, if_pos predef]
    exact inv

/-- A deletion that violates the condition spoils the numbering at once. -/
theorem ValueRun.Inv.safe_of_enumerated (inv : run.Inv lower k) {request : ValueRequest}
    (enumerated : Enumerated ((run.step lower k request).reg.key k)
      (run.step lower k request).history) :
    DeleteSafe lower k run request := by
  cases request with
  | setValue name type data => trivial
  | deleteValue name =>
    intro index value predef here named
    rcases findValue_spec inv.inOrder.sorted name with
      ⟨other, place, found, there, same⟩ | ⟨place, missing, fits⟩
    · have equal := inv.inOrder.sorted.key_injective (mem_of_getElem? there) (mem_of_getElem? here)
        (same.trans named.symm)
      subst equal
      have samePlace := inv.inOrder.sorted.index_injective there here rfl
      subst samePlace
      have numbered := enumerated.numbered
      simp only [ValueRun.step] at numbered
      rw [(deleteValue_of_found predef found).2.1] at numbered
      exact inv.inOrder.gapCloses_of_numbered here numbered
    · exact (fits.key_ne value (mem_of_getElem? here) named).elim

theorem ValueRun.Inv.step (inv : run.Inv lower k) {request : ValueRequest}
    (safe : DeleteSafe lower k run request) :
    (run.step lower k request).Inv lower k := by
  cases request with
  | setValue name type data => exact inv.setValue name type data
  | deleteValue name => exact inv.deleteValue safe

end Steps

/--
For every run of a key that starts with no values: the values are numbered
and enumerated in the order in which they were first set throughout the run,
exactly if no deletion of it finds a later value two or more slots behind.
-/
theorem valuesEnumerated_iff (reg : State) (k : KeyId) (empty : (reg.key k).values = [])
    (requests : List ValueRequest) :
    Visits (ValueRun.step lower k) (fun run => Enumerated (run.reg.key k) run.history) ⟨reg, []⟩
        requests ↔
      Along (ValueRun.step lower k) (DeleteSafe lower k) ⟨reg, []⟩
        requests := by
  have start : ValueRun.Inv lower k ⟨reg, []⟩ := by
    refine ⟨?_, fun _ => empty⟩
    rw [empty]
    exact InOrder.nil
  exact visits_iff_along (fun _ inv => inv.inOrder.enumerated inv.predef)
    (fun _ _ inv safe => inv.step safe)
    (fun _ _ inv enumerated => inv.safe_of_enumerated enumerated)
    start requests

/-- Three values that are not set in the order of their names. -/
theorem valuesEnumerated_iff_three : Visits (ValueRun.step asciiLower 0)
      (fun run => Enumerated (run.reg.key 0) run.history)
      ⟨rootRegistry, []⟩
      [.setValue [wchar 'c'] 4 [0], .setValue [wchar 'a'] 4 [0], .setValue [wchar 'b'] 4 [0]] :=
  (valuesEnumerated_iff rootRegistry 0 rfl _).mpr ⟨trivial, trivial, trivial, trivial⟩

/--
Three values set in the order of their names.  After the first one is deleted
the numbers are 0 and 2.
-/
theorem deleteValue_leaves_gap : ¬ Visits (ValueRun.step asciiLower 0)
      (fun run => Enumerated (run.reg.key 0) run.history)
      ⟨rootRegistry, []⟩
      [.setValue [wchar 'a'] 4 [0], .setValue [wchar 'b'] 4 [0],
        .setValue [wchar 'c'] 4 [0], .deleteValue [wchar 'a']] := by
  rintro ⟨_, _, _, _, final⟩
  have numbered := final.numbered
  rw [Numbered] at numbered
  exact absurd numbered (by decide)

end WineRedRose.Registry
