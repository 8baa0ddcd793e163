import Listing.Backend

/-!
# Predicates

A predicate holds always, holds never, or is an expression of a backend. The connectives deal with
the two constants themselves: `always` is neutral in a conjunction and decides a disjunction,
`never` the other way round, and only two expressions reach the backend. An empty conjunction holds
always and an empty disjunction never.
-/

set_option autoImplicit false
set_option relaxedAutoImplicit false

namespace Listing

/-- A condition on records in the terms of a backend. -/
inductive Predicate (E : Type) where
  | always
  | never
  | expr (e : E)
deriving DecidableEq

namespace Predicate

variable {E F : Type}

/-- Whether the predicate is the one that holds always. -/
def isAlways : Predicate E → Bool
  | always => true
  | _ => false

/-- Whether the predicate is the one that holds never. -/
def isNever : Predicate E → Bool
  | never => true
  | _ => false

/-- The expression, unless the predicate is a constant. -/
def expr? : Predicate E → Option E
  | expr e => some e
  | _ => none

/-- The predicate with its expression transformed. -/
def map (f : E → F) : Predicate E → Predicate F
  | always => always
  | never => never
  | expr e => expr (f e)

/-- The constant predicate of a truth value. -/
def ofBool : Bool → Predicate E
  | true => always
  | false => never

/-- The predicate of an expression that may be absent; an absent one holds always. -/
def ofOption : Option E → Predicate E
  | some e => expr e
  | none => always

/-- Both predicates hold. -/
def and (b : Backend E) : Predicate E → Predicate E → Predicate E
  | never, _ => never
  | _, never => never
  | always, q => q
  | p, always => p
  | expr d, expr e => expr (b.and d e)

/-- At least one of the predicates holds. -/
def or (b : Backend E) : Predicate E → Predicate E → Predicate E
  | always, _ => always
  | _, always => always
  | never, q => q
  | p, never => p
  | expr d, expr e => expr (b.or d e)

/-- The predicate does not hold. -/
def not (b : Backend E) : Predicate E → Predicate E
  | always => never
  | never => always
  | expr e => expr (b.not e)

/-- A predicate that may be absent does not hold; an absent one asks for nothing. -/
def negate (b : Backend E) : Option (Predicate E) → Predicate E
  | none => always
  | some p => p.not b

/-- All the predicates hold. -/
def all (b : Backend E) (ps : List (Predicate E)) : Predicate E := ps.foldl (and b) always

/-- At least one of the predicates holds. -/
def any (b : Backend E) (ps : List (Predicate E)) : Predicate E := ps.foldl (or b) never

/-! ### Laws -/

variable (b : Backend E) (p : Predicate E)

@[simp]
theorem never_and : and b never p = never := by cases p <;> rfl

@[simp]
theorem and_never : and b p never = never := by cases p <;> rfl

@[simp]
theorem always_and : and b always p = p := by cases p <;> rfl

@[simp]
theorem and_always : and b p always = p := by cases p <;> rfl

@[simp]
theorem always_or : or b always p = always := by cases p <;> rfl

@[simp]
theorem or_always : or b p always = always := by cases p <;> rfl

@[simp]
theorem never_or : or b never p = p := by cases p <;> rfl

@[simp]
theorem or_never : or b p never = p := by cases p <;> rfl

end Predicate

end Listing
