import Mathlib.Tactic

/-!
# Forests given by parents

A forest is a function that gives every node its parent, if it has one.  The
ancestors of a node, itself included, form a chain.
-/

namespace WineRedRose.Library.Ancestry

variable {Node : Type*} {parent parent' : Node → Option Node}
variable {k p q r : Node}

/-- The second node is the first one or lies above it. -/
inductive Ancestor (parent : Node → Option Node) : Node → Node → Prop where
  | refl (k : Node) : Ancestor parent k k
  | up {k p q : Node} (isChild : parent k = some p)
      (above : Ancestor parent p q) : Ancestor parent k q

theorem Ancestor.trans (first : Ancestor parent k q) (second : Ancestor parent q r) :
    Ancestor parent k r := by
  induction first with
  | refl => exact second
  | up isChild _ ih => exact .up isChild (ih second)

theorem Ancestor.single (isChild : parent k = some p) :
    Ancestor parent k p :=
  .up isChild (.refl p)

theorem Ancestor.eq_of_root (above : Ancestor parent k q) (root : parent k = none) : q = k := by
  cases above with
  | refl => rfl
  | up isChild _ =>
    rw [root] at isChild
    cases isChild

/-- Proper ancestors lie above the parent. -/
theorem Ancestor.eq_or_above (above : Ancestor parent k q) (isChild : parent k = some p) :
    q = k ∨ Ancestor parent p q := by
  cases above with
  | refl => exact .inl rfl
  | up isChild' above =>
    rw [isChild] at isChild'
    cases isChild'
    exact .inr above

/-- The ancestors of a node form a chain. -/
theorem Ancestor.total (first : Ancestor parent k q) (second : Ancestor parent k r) :
    Ancestor parent q r ∨ Ancestor parent r q := by
  induction first with
  | refl => exact .inl second
  | up isChild above ih =>
    rcases second.eq_or_above isChild with rfl | later
    · exact .inr (.up isChild above)
    · exact ih later

/-- Nodes that only lose parents have no new ancestors. -/
theorem Ancestor.mono (lost : ∀ q p, Ancestor parent' k q → parent' q = some p → parent q = some p)
    (above : Ancestor parent' k q) : Ancestor parent k q := by
  induction above with
  | refl => exact .refl _
  | up isChild _ ih =>
    exact .up (lost _ _ (.refl _) isChild) (ih fun q p upper => lost q p (.up isChild upper))

theorem Ancestor.of_parents (same : ∀ q, Ancestor parent k q → parent' q = parent q)
    (above : Ancestor parent' k q) : Ancestor parent k q := by
  induction above with
  | refl => exact .refl _
  | up isChild _ ih =>
    rw [same _ (.refl _)] at isChild
    exact .up isChild (ih fun q upper => same q (.up isChild upper))

/-- The ancestors stay if they keep their parents. -/
theorem ancestor_congr (same : ∀ q, Ancestor parent k q → parent' q = parent q) :
    Ancestor parent' k q ↔ Ancestor parent k q :=
  ⟨.of_parents same, .of_parents fun q upper => (same q (.of_parents same upper)).symm⟩

theorem Ancestor.le [Preorder Node] (order : ∀ k p, parent k = some p → p < k)
    (above : Ancestor parent k q) : q ≤ k := by
  induction above with
  | refl => exact le_rfl
  | up isChild _ ih => exact ih.trans (order _ _ isChild).le

end WineRedRose.Library.Ancestry
