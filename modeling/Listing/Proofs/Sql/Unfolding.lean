import Listing.Sql.Clause

/-!
# Unfolding conditions

What building conditions does to the clauses that are written for them. A condition is unfolded to
its body, and the mark of negation puts a `NOT` in front (`Condition.clause_eq`). Joining two
conditions joins their clauses, whatever members are unwrapped on the way (`Condition.clause_join`),
and negating a condition sets the mark or takes it away again (`Condition.isNegated_negate`).
-/

set_option autoImplicit false
set_option relaxedAutoImplicit false

namespace Listing.Sql.Condition

/-- Whether the mark of negation is set. -/
def isNegated : Condition → Bool
  | .atom _ => false
  | .junction _ negated _ => negated

/-- The clause of a condition whose mark of negation is not looked at. -/
def body : Condition → Clause
  | .atom a => .atom a
  | .junction kind _ members => .joinAll kind (clauses members)

/-- A condition is written as its body, behind a `NOT` if the mark of negation is set. -/
theorem clause_eq (c : Condition) : c.clause = if c.isNegated then .not c.body else c.body := by
  cases c with
  | atom a => rfl
  | junction kind negated members => cases negated <;> rfl

/-- What is added to a junction is written as the condition. -/
theorem clause_asMember (c : Condition) : c.asMember.clause = c.clause := by
  unfold asMember
  split
  · rfl
  · rfl

/-- A junction of two conditions is written as the join of their clauses. -/
theorem clause_join (kind : Junction) (l r : Condition) :
    (join kind l r).clause = .join kind l.clause r.clause := by
  rw [← clause_asMember l, ← clause_asMember r]
  rfl

@[simp]
theorem body_negate (c : Condition) : c.negate.body = c.body := by
  cases c <;> rfl

@[simp]
theorem isNegated_negate (c : Condition) : c.negate.isNegated = !c.isNegated := by
  cases c <;> rfl

end Listing.Sql.Condition
