import Listing.Filter.Basic
import Mathlib.Data.List.Basic
import Mathlib.Data.Option.Basic

/-!
# Walking through filters

A filter is a tree in which a node has two lists of children and possibly one more child.
`Filter.induct` is induction over that tree: a property holds of every filter if it holds of a node
whose children all have it.

`Filter.constraints` lists what the leaf filters of the whole tree ask for, and `Filter.NotFree`
says that no node has a `not` child. `Filter.mem_constraints_iff` and `Filter.notFree_iff` give both
at a node from its children. A constraint of a filter is on a declared field, and its test is one of
the kind of that field (`Filter.declared_of_mem_constraints`).
-/

set_option autoImplicit false
set_option relaxedAutoImplicit false

namespace Listing

namespace Filter

variable {shape : Shape}

/-! ### Induction -/

section Induction

variable {P : Filter shape → Prop}

mutual

/-- Assumes: a node has the property whenever all its children have it. Then every filter has the
property. -/
@[elab_as_elim]
theorem induct
    (node : ∀ f : Filter shape, (∀ g ∈ f.and, P g) → (∀ g ∈ f.or, P g) → (∀ g ∈ f.not, P g) → P f) :
    ∀ f, P f
  | ⟨own, and, or, not⟩ =>
    node ⟨own, and, or, not⟩ (inductList node and) (inductList node or) (inductOption node not)

/-- The same for each child of a list. -/
theorem inductList
    (node : ∀ f : Filter shape, (∀ g ∈ f.and, P g) → (∀ g ∈ f.or, P g) → (∀ g ∈ f.not, P g) → P f) :
    ∀ fs : List (Filter shape), ∀ g ∈ fs, P g
  | [], _, hg => nomatch hg
  | f :: fs, g, hg => by
    rcases List.mem_cons.mp hg with hhead | htail
    · exact hhead ▸ induct node f
    · exact inductList node fs g htail

/-- The same for an optional child. -/
theorem inductOption
    (node : ∀ f : Filter shape, (∀ g ∈ f.and, P g) → (∀ g ∈ f.or, P g) → (∀ g ∈ f.not, P g) → P f) :
    ∀ f : Option (Filter shape), ∀ g ∈ f, P g
  | none, _, hg => nomatch hg
  | some f, _, hg => Option.some.inj hg ▸ induct node f

end

end Induction

/-! ### The constraints of a filter -/

/-- The constraints of the whole tree, depth first: those of the node, of its `and` children, of its
`not` child and of its `or` children. -/
def constraints : Filter shape → List Constraint := fold fun own and or not ↦
  (own.constraints shape.fields).flatten ++ and.flatten ++ not.getD [] ++ or.flatten

/-- A constraint of a filter is one of the node or one of a child. -/
theorem mem_constraints_iff {f : Filter shape} {c : Constraint} :
    c ∈ f.constraints ↔ c ∈ (f.own.constraints shape.fields).flatten ∨
      (∃ g ∈ f.and, c ∈ g.constraints) ∨ (∃ g ∈ f.not, c ∈ g.constraints) ∨
        ∃ g ∈ f.or, c ∈ g.constraints := by
  have hnot : c ∈ (f.not.map constraints).getD [] ↔ ∃ g ∈ f.not, c ∈ g.constraints := by
    cases f.not <;> simp
  have hlist : ∀ fs : List (Filter shape),
      c ∈ (fs.map constraints).flatten ↔ ∃ g ∈ fs, c ∈ g.constraints := by
    intro fs
    simp only [List.mem_flatten, List.mem_map, exists_exists_and_eq_and]
  rw [constraints, fold_eq, ← constraints]
  simp only [List.mem_append, hnot, hlist, or_assoc]

/-! ### Filters without negation -/

/-- No node of the tree has a `not` child. -/
def NotFree : Filter shape → Prop := fold fun _ and or not ↦
  (∀ p ∈ and, p) ∧ (∀ p ∈ or, p) ∧ not = none

/-- A filter is free of `not` if its node has no such child and all other children are free of
it. -/
theorem notFree_iff {f : Filter shape} :
    f.NotFree ↔ (∀ g ∈ f.and, g.NotFree) ∧ (∀ g ∈ f.or, g.NotFree) ∧ f.not = none := by
  rw [NotFree, fold_eq, ← NotFree]
  simp only [List.forall_mem_map, Option.map_eq_none_iff]

end Filter

/-! ### Constraints and declared fields -/

/-- The kind of the values that a test is about. -/
def Test.kind : Test → Kind
  | .equals _ _ => .text
  | .contains _ _ => .text
  | .integer _ _ => .integer
  | .moment _ _ => .moment
  | .flag _ => .flag

/-- The bounds of a leaf filter are tests of its kind. -/
theorem Kind.kind_of_mem_tests {k : Kind} {leaf : k.Leaf} {t : Test} (h : t ∈ k.tests leaf) :
    t.kind = k := by
  cases k with
  | text =>
    simp only [Kind.tests, TextFilter.tests, List.mem_append, Option.mem_toList,
      Option.map_eq_some_iff] at h
    rcases h with ⟨_, _, rfl⟩ | ⟨_, _, rfl⟩ <;> rfl
  | integer =>
    simp only [Kind.tests, IntegerFilter.tests, List.mem_append, Option.mem_toList,
      Option.map_eq_some_iff] at h
    rcases h with (⟨_, _, rfl⟩ | ⟨_, _, rfl⟩) | ⟨_, _, rfl⟩ <;> rfl
  | moment =>
    simp only [Kind.tests, MomentFilter.tests, List.mem_append, Option.mem_toList,
      Option.map_eq_some_iff] at h
    rcases h with (⟨_, _, rfl⟩ | ⟨_, _, rfl⟩) | ⟨_, _, rfl⟩ <;> rfl
  | flag =>
    obtain rfl := List.mem_singleton.mp h
    rfl

/-- A constraint of the slots names one of their fields and tests values of its kind. -/
theorem Slots.declared_of_mem_constraints (fs : List FieldSpec) (s : Slots fs) {c : Constraint}
    (h : c ∈ (s.constraints fs).flatten) : ∃ f ∈ fs, c.field = f.name ∧ c.test.kind = f.kind := by
  induction fs with
  | nil => simp [Slots.constraints] at h
  | cons f fs ih =>
    obtain ⟨leaf, rest⟩ := s
    rw [Slots.constraints, List.flatten_cons, List.mem_append] at h
    rcases h with hown | hrest
    · refine ⟨f, List.mem_cons_self, ?_⟩
      cases leaf with
      | none => exact nomatch hown
      | some leaf =>
        obtain ⟨t, ht, rfl⟩ := List.mem_map.mp hown
        exact ⟨rfl, Kind.kind_of_mem_tests ht⟩
    · obtain ⟨g, hg, hdeclared⟩ := ih rest hrest
      exact ⟨g, List.mem_cons_of_mem f hg, hdeclared⟩

/-- A constraint of a filter is on a declared field, and its test is one of the kind of that
field. -/
theorem Filter.declared_of_mem_constraints {shape : Shape} (f : Filter shape) {c : Constraint} :
    c ∈ f.constraints → ∃ spec ∈ shape.fields, c.field = spec.name ∧ c.test.kind = spec.kind := by
  induction f using Filter.induct with
  | node f hand hor hnot =>
    intro h
    rcases mem_constraints_iff.mp h with hown | ⟨g, hg, hc⟩ | ⟨g, hg, hc⟩ | ⟨g, hg, hc⟩
    · exact Slots.declared_of_mem_constraints shape.fields f.own hown
    · exact hand g hg hc
    · exact hnot g hg hc
    · exact hor g hg hc

end Listing
