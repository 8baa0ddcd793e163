import Listing.Filter.Compile
import Listing.Proofs.Filter.Tree

/-!
# The skeleton of a filter

The skeleton of a filter says which bounds are set where, and nothing about their values: it is the
same tree with a fixed value of the right kind in the place of each value, and with the same marks
that case is ignored. Two filters have the same skeleton if they differ in values only.

A filter compiles as its skeleton does, except that a backend is given other constraints
(`Filter.compile_skeleton`). Which constants are folded, and how the expressions of constraints are
joined and negated, therefore never depends on a value.
-/

set_option autoImplicit false
set_option relaxedAutoImplicit false

namespace Listing

/-! ### Values taken out -/

/-- The point of time that stands for all others in a skeleton. -/
def Instant.epoch : Instant where
  date := ⟨1970, 1, 1, by decide, by decide⟩
  minute := 0
  second := 0
  nanosecond := 0
  minute_lt := by decide
  second_le := by decide
  nanosecond_lt := by decide

/-- The same test of a fixed value. -/
def Test.skeleton : Test → Test
  | .equals _ ignoreCase => .equals "" ignoreCase
  | .contains _ ignoreCase => .contains "" ignoreCase
  | .integer comparison _ => .integer comparison 0
  | .moment comparison _ => .moment comparison Instant.epoch
  | .flag _ => .flag false

/-- The same test of a fixed value, on the same field. -/
def Constraint.skeleton (c : Constraint) : Constraint := ⟨c.field, c.test.skeleton⟩

/-- The same bounds with fixed values. -/
def TextFilter.skeleton (f : TextFilter) : TextFilter :=
  ⟨f.equals.map fun _ ↦ "", f.contains.map fun _ ↦ "", f.ignoreCase⟩

/-- The same bounds with fixed values. -/
def IntegerFilter.skeleton (f : IntegerFilter) : IntegerFilter :=
  ⟨f.equals.map fun _ ↦ 0, f.lessThan.map fun _ ↦ 0, f.greaterThan.map fun _ ↦ 0⟩

/-- The same bounds with fixed values. -/
def MomentFilter.skeleton (f : MomentFilter) : MomentFilter :=
  ⟨f.equals.map fun _ ↦ Instant.epoch, f.before.map fun _ ↦ Instant.epoch,
    f.after.map fun _ ↦ Instant.epoch⟩

/-- The leaf filter with fixed values. -/
def Kind.skeleton : (k : Kind) → k.Leaf → k.Leaf
  | .text, f => TextFilter.skeleton f
  | .integer, f => IntegerFilter.skeleton f
  | .moment, f => MomentFilter.skeleton f
  | .flag, _ => false

/-- The same slots filled, with fixed values. -/
def Slots.skeleton : (fs : List FieldSpec) → Slots fs → Slots fs
  | [], _ => ()
  | f :: fs, (leaf, rest) => (leaf.map f.kind.skeleton, skeleton fs rest)

variable {shape : Shape}

/-- The same tree with the same bounds set, with fixed values. -/
def Filter.skeleton : Filter shape → Filter shape :=
  fold fun own and or not ↦ ⟨own.skeleton shape.fields, and, or, not⟩

/-- The skeleton of a node from those of its children. -/
theorem Filter.skeleton_eq (f : Filter shape) :
    f.skeleton = ⟨f.own.skeleton shape.fields, f.and.map skeleton, f.or.map skeleton,
      f.not.map skeleton⟩ :=
  fold_eq _ f

/-! ### Constraints of a skeleton -/

/-- The skeleton of a leaf filter has the tests of the leaf filter with fixed values. -/
theorem Kind.tests_skeleton (k : Kind) (leaf : k.Leaf) :
    k.tests (k.skeleton leaf) = (k.tests leaf).map Test.skeleton := by
  cases k with
  | text =>
    obtain ⟨equals, contains, ignoreCase⟩ := (leaf : TextFilter)
    cases equals <;> cases contains <;> rfl
  | integer =>
    obtain ⟨equals, lessThan, greaterThan⟩ := (leaf : IntegerFilter)
    cases equals <;> cases lessThan <;> cases greaterThan <;> rfl
  | moment =>
    obtain ⟨equals, before, after⟩ := (leaf : MomentFilter)
    cases equals <;> cases before <;> cases after <;> rfl
  | flag => rfl

/-- The skeleton of a slot has the constraints of the slot with fixed values. -/
theorem Slots.constraintsOf_skeleton (f : FieldSpec) (leaf : Option f.kind.Leaf) :
    constraintsOf f (leaf.map f.kind.skeleton) =
      (constraintsOf f leaf).map Constraint.skeleton := by
  cases leaf with
  | none => rfl
  | some leaf =>
    rw [Option.map_some, constraintsOf, constraintsOf, Kind.tests_skeleton, List.map_map,
      List.map_map]
    rfl

/-- The skeleton of the slots has the constraints of the slots with fixed values. -/
theorem Slots.constraints_skeleton (fs : List FieldSpec) (s : Slots fs) :
    (s.skeleton fs).constraints fs =
      (s.constraints fs).map fun cs ↦ cs.map Constraint.skeleton := by
  induction fs with
  | nil => rfl
  | cons f fs ih =>
    obtain ⟨leaf, rest⟩ := s
    rw [skeleton, constraints, constraints, List.map_cons, constraintsOf_skeleton, ih]

/-! ### Compiling a skeleton -/

variable {E : Type}

/-- The backend that is given fixed values only. -/
def Backend.onSkeletons (b : Backend E) : Backend E :=
  { b with constraint := fun c ↦ b.constraint c.skeleton }

/-- The slots of a skeleton are compiled as the slots are by the backend that sees no values. -/
theorem Slots.predicate_skeleton (b : Backend E) (own : Slots shape.fields) :
    (own.skeleton shape.fields).predicate b = own.predicate b.onSkeletons := by
  have hconstraints : ∀ cs : List Constraint,
      Predicate.ofConstraints b (cs.map Constraint.skeleton) =
        Predicate.ofConstraints b.onSkeletons cs := by
    intro cs
    rw [Predicate.ofConstraints, List.map_map]
    rfl
  rw [predicate, constraints_skeleton, List.map_map]
  exact congrArg (Predicate.all b) (List.map_congr_left fun cs _ ↦ hconstraints cs)

/-- A skeleton is compiled as the filter is by the backend that sees no values. -/
theorem Filter.compile_skeleton (b : Backend E) (f : Filter shape) :
    f.skeleton.compile b = f.compile b.onSkeletons := by
  induction f using Filter.induct with
  | node f hand hor hnot =>
    have hchildren : ∀ fs : List (Filter shape),
        (∀ g ∈ fs, g.skeleton.compile b = g.compile b.onSkeletons) →
          (fs.map skeleton).map (compile b) = fs.map (compile b.onSkeletons) := by
      intro fs hfs
      rw [List.map_map]
      exact List.map_congr_left hfs
    have hchild : (f.not.map skeleton).map (compile b) = f.not.map (compile b.onSkeletons) := by
      rw [Option.map_map]
      exact Option.map_congr hnot
    rw [compile_eq, compile_eq b.onSkeletons, skeleton_eq]
    dsimp only
    rw [hchildren f.and hand, hchildren f.or hor, hchild, compileNode, compileNode,
      Slots.predicate_skeleton]
    rfl

end Listing
