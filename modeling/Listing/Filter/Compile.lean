import Listing.Filter.Basic
import Listing.Predicate

/-!
# Compiling filters

A filter is compiled into one predicate of a backend. The constraints of a node, its `and` children
and the negation of its `not` child form one clause; the `or` children are alternatives to that
clause. Compiling never fails: bounds that contradict each other make a predicate that no record
meets.

`Filter.compile_eq` gives the predicate of a node from the predicates of its children.
-/

set_option autoImplicit false
set_option relaxedAutoImplicit false

namespace Listing

variable {E : Type} {shape : Shape}

/-- All the given constraints hold. -/
def Predicate.ofConstraints (b : Backend E) (cs : List Constraint) : Predicate E :=
  .all b (cs.map fun c ↦ .expr (b.constraint c))

/-- The leaf filter on a field holds; an absent one asks for nothing. -/
def Predicate.ofLeaf (b : Backend E) (field : String) (kind : Kind) (leaf : Option kind.Leaf) :
    Predicate E :=
  .ofConstraints b (Slots.constraintsOf ⟨field, field, kind⟩ leaf)

/-- The leaf filters of a node hold. -/
def Slots.predicate (b : Backend E) (own : Slots shape.fields) : Predicate E :=
  .all b ((own.constraints shape.fields).map (Predicate.ofConstraints b))

namespace Filter

/-- The predicate of a node from those of its children. -/
def compileNode (b : Backend E) (own : Slots shape.fields) (and or : List (Predicate E))
    (not : Option (Predicate E)) : Predicate E :=
  .or b (.all b [own.predicate b, .all b and, .negate b not]) (.any b or)

/-- The predicate of a filter. -/
def compile (b : Backend E) : Filter shape → Predicate E := fold (compileNode b)

/-- The predicate of a filter that may be absent; an absent one asks for nothing. -/
def compileOption (b : Backend E) : Option (Filter shape) → Predicate E
  | none => .always
  | some f => f.compile b

theorem compile_eq (b : Backend E) (f : Filter shape) :
    f.compile b =
      compileNode b f.own (f.and.map (compile b)) (f.or.map (compile b)) (f.not.map (compile b)) :=
  fold_eq _ f

end Filter

end Listing
