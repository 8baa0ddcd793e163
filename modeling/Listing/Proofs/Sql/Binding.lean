import Listing.Formula
import Listing.Plan
import Listing.Proofs.Filter.Meaning
import Listing.Proofs.Filter.Simulation
import Listing.Proofs.Filter.Skeleton
import Listing.Proofs.Sql.Placeholders
import Listing.Proofs.Sql.Unfolding

/-!
# Values are bound

No value of a request is written into the text of its statement. The text of a row of pieces does
not depend on what is bound in it (`Select.textFrom_blank`), and the condition of a filter differs
from that of its skeleton in bound values only (`Filter.blank_conditionPieces_skeleton`).

What is bound is known too. Each constraint binds the values that `Constraint.boundValues` lists,
and a condition binds those of its constraints from left to right, which are the constraints of the
formula that the filter compiles to (`Filter.boundValues_conditionPieces`). In the text there is
one placeholder for each of them, outside of all names (`Select.countPlaceholders_text`).

`ListQuery.text_statement_eq` puts this together for the statement of a list request.
-/

set_option autoImplicit false
set_option relaxedAutoImplicit false

namespace Listing.Sql

/-! ### Texts without values -/

/-- The value that stands for all others. -/
def Bound.blank : Bound := .integer 0

/-- The piece with its value taken out. -/
def Piece.blank : Piece → Piece
  | .bound _ => .bound Bound.blank
  | p => p

/-- The left side of a comparison with its values taken out. -/
def Operand.blank : Operand → Operand
  | .position name _ => .position name Bound.blank
  | .value _ => .value Bound.blank
  | o => o

/-- The comparison with its values taken out. -/
def Atom.blank : Atom → Atom
  | .compare lhs comparison _ => .compare lhs.blank comparison Bound.blank
  | .like lhs _ => .like lhs.blank Bound.blank

/-- The clause with its values taken out. -/
def Clause.blank : Clause → Clause
  | .truth => .truth
  | .atom a => .atom a.blank
  | .not c => .not c.blank
  | .join kind l r => .join kind l.blank r.blank

/-- A placeholder is written in the same way for every value. -/
theorem Select.textFrom_blank (d : Dialect) (n : Nat) (ps : List Piece) :
    textFrom d n (ps.map Piece.blank) = textFrom d n ps := by
  induction ps generalizing n with
  | nil => rfl
  | cons p ps ih =>
    cases p with
    | verbatim s => exact congrArg (s ++ ·) (ih n)
    | name s => exact congrArg (d.quoteName s ++ ·) (ih n)
    | bound v => exact congrArg (d.placeholder n ++ ·) (ih (n + 1))

theorem Operand.pieces_blank (o : Operand) : o.blank.pieces = o.pieces.map Piece.blank := by
  cases o <;> rfl

theorem Atom.pieces_blank (d : Dialect) (a : Atom) :
    a.blank.pieces d = (a.pieces d).map Piece.blank := by
  cases a with
  | compare lhs comparison rhs =>
    rw [blank, pieces, pieces, List.map_append, Operand.pieces_blank]
    rfl
  | like lhs pattern =>
    rw [blank, pieces, pieces, List.map_append, Operand.pieces_blank]
    rfl

theorem parenthesized_blank (needed : Bool) (ps : List Piece) :
    parenthesized needed (ps.map Piece.blank) = (parenthesized needed ps).map Piece.blank := by
  cases needed with
  | false => rfl
  | true =>
    rw [parenthesized, parenthesized, if_pos rfl, if_pos rfl, List.map_append]
    rfl

namespace Clause

theorem isJoin_blank (c : Clause) : c.blank.isJoin = c.isJoin := by
  cases c <;> rfl

theorem guardedLeft_blank (kind : Junction) (c : Clause) :
    c.blank.guardedLeft kind = c.guardedLeft kind := by
  cases c <;> rfl

theorem guardedRight_blank (c : Clause) : c.blank.guardedRight = c.guardedRight := by
  cases c <;> rfl

/-- A clause is written in the same way for all values. -/
theorem pieces_blank (d : Dialect) (c : Clause) :
    c.blank.pieces d = (c.pieces d).map Piece.blank := by
  induction c with
  | truth => rfl
  | atom a => exact Atom.pieces_blank d a
  | not c ih =>
    rw [blank, pieces, pieces, isJoin_blank, ih, parenthesized_blank]
    rfl
  | join kind l r ihl ihr =>
    rw [blank, pieces, pieces, guardedLeft_blank, guardedRight_blank, ihl, ihr,
      parenthesized_blank, parenthesized_blank, List.map_append]
    rfl

end Clause

/-! ### Conditions that differ in values only -/

namespace Condition

/-- Two conditions are the same but for bound values, in the way they are written. -/
structure Alike (c c' : Condition) : Prop where
  negated : c.isNegated = c'.isNegated
  body : c.body.blank = c'.body.blank

/-- Conditions that differ in values only are written by clauses that differ in values only. -/
theorem Alike.clause_blank {c c' : Condition} (h : Alike c c') :
    c.clause.blank = c'.clause.blank := by
  rw [clause_eq, clause_eq, h.negated]
  by_cases hnegated : c'.isNegated = true
  · rw [if_pos hnegated, if_pos hnegated]
    exact congrArg Clause.not h.body
  · rw [if_neg hnegated, if_neg hnegated]
    exact h.body

/-- A junction is not negated. -/
theorem body_join (kind : Junction) (l r : Condition) :
    (join kind l r).body = .join kind l.clause r.clause := clause_join kind l r

/-- Joining keeps conditions alike. -/
theorem Alike.join {l l' r r' : Condition} (kind : Junction) (hl : Alike l l')
    (hr : Alike r r') : Alike (join kind l r) (join kind l' r') where
  negated := rfl
  body := by
    rw [body_join, body_join]
    exact congrArg₂ (Clause.join kind) hl.clause_blank hr.clause_blank

/-- Negating keeps conditions alike. -/
theorem Alike.negate {c c' : Condition} (h : Alike c c') : Alike c.negate c'.negate where
  negated := by rw [isNegated_negate, isNegated_negate, h.negated]
  body := by rw [body_negate, body_negate, h.body]

/-- The comparison of a constraint depends on its value only in what is bound. -/
theorem blank_atomOf_skeleton (d : Dialect) (c : Constraint) :
    (atomOf d c.skeleton).blank = (atomOf d c).blank := by
  obtain ⟨field, test⟩ := c
  cases test with
  | contains value ignoreCase =>
    rw [Constraint.skeleton, Test.skeleton, atomOf, atomOf]
    dsimp only
    by_cases hpattern : ignoreCase ∨ d = .postgres
    · rw [if_pos hpattern, if_pos hpattern]
      rfl
    · rw [if_neg hpattern, if_neg hpattern]
      rfl
  | _ => rfl

end Condition

/-! ### The values of a condition -/

/-- The values that a comparison binds, from left to right. -/
def Atom.boundValues : Atom → List Bound
  | .compare (.position _ needle) _ rhs => [needle, rhs]
  | .compare (.value v) _ rhs => [v, rhs]
  | .compare _ _ rhs => [rhs]
  | .like (.position _ needle) pattern => [needle, pattern]
  | .like (.value v) pattern => [v, pattern]
  | .like _ pattern => [pattern]

/-- The comparisons of a clause, from left to right. -/
def Clause.atoms : Clause → List Atom
  | .truth => []
  | .atom a => [a]
  | .not c => c.atoms
  | .join _ l r => l.atoms ++ r.atoms

theorem Select.boundValues_append (ps qs : List Piece) :
    boundValues (ps ++ qs) = boundValues ps ++ boundValues qs := List.filterMap_append

@[simp]
theorem boundValues_parenthesized (needed : Bool) (ps : List Piece) :
    Select.boundValues (parenthesized needed ps) = Select.boundValues ps := by
  cases needed with
  | false => rfl
  | true =>
    rw [parenthesized, if_pos rfl, Select.boundValues_append]
    exact List.append_nil _

theorem Atom.boundValues_pieces (d : Dialect) (a : Atom) :
    Select.boundValues (a.pieces d) = a.boundValues := by
  cases a with
  | compare lhs comparison rhs => cases lhs <;> rfl
  | like lhs pattern => cases lhs <;> rfl

/-- A clause binds the values of its comparisons from left to right. -/
theorem Clause.boundValues_pieces (d : Dialect) (c : Clause) :
    Select.boundValues (c.pieces d) = c.atoms.flatMap Atom.boundValues := by
  induction c with
  | truth => rfl
  | atom a =>
    rw [atoms, List.flatMap_singleton]
    exact a.boundValues_pieces d
  | not c ih =>
    rw [atoms, ← ih]
    exact boundValues_parenthesized _ _
  | join kind l r ihl ihr =>
    rw [atoms, List.flatMap_append, ← ihl, ← ihr, pieces, Select.boundValues_append,
      boundValues_parenthesized]
    exact congrArg (_ ++ ·) (boundValues_parenthesized _ _)

/-- A condition and its negation are written with the same comparisons. -/
theorem Condition.atoms_clause (c : Condition) : c.clause.atoms = c.body.atoms := by
  rw [clause_eq]
  by_cases hnegated : c.isNegated = true
  · rw [if_pos hnegated]
    rfl
  · rw [if_neg hnegated]

end Listing.Sql

/-! ### The values of constraints -/

namespace Listing

open Sql (Bound Clause Condition Dialect Select)

/-- The constraints of a formula, from left to right. -/
def Formula.constraints : Formula → List Constraint
  | constraint c => [c]
  | and l r => l.constraints ++ r.constraints
  | or l r => l.constraints ++ r.constraints
  | not f => f.constraints

/-- The values that a constraint binds: the text that the column is compared with, folded if case is
ignored; for a search the pattern, or the text and the zero that its position is compared with. -/
def Constraint.boundValues (d : Dialect) (c : Constraint) : List Bound :=
  match c.test with
  | .equals value ignoreCase => [.string (Text.fold ignoreCase value)]
  | .contains value ignoreCase =>
    if ignoreCase ∨ d = .postgres then
      [.string (Condition.likePattern (Text.fold ignoreCase value))]
    else
      [.string value, .integer 0]
  | .integer _ value => [.bigInteger value]
  | .moment _ value => [.moment value]
  | .flag value => [.bool value]

/-- The values that a predicate binds: those of its constraints, from left to right, or one and zero
if it holds never. -/
def Predicate.boundValues (d : Dialect) : Predicate Formula → List Bound
  | always => []
  | never => [.integer 1, .integer 0]
  | expr f => f.constraints.flatMap (Constraint.boundValues d)

/-- The values that a page request binds: the limit and the offset. -/
def PageRequest.boundValues (r : PageRequest) : List Bound := [.count r.limit, .count r.offset]

/-- The comparison of a constraint binds its values. -/
theorem Constraint.boundValues_atomOf (d : Dialect) (c : Constraint) :
    (Condition.atomOf d c).boundValues = c.boundValues d := by
  obtain ⟨field, test⟩ := c
  cases test with
  | equals value ignoreCase => cases ignoreCase <;> rfl
  | contains value ignoreCase =>
    rw [Condition.atomOf, boundValues]
    dsimp only
    by_cases hpattern : ignoreCase ∨ d = .postgres
    · rw [if_pos hpattern, if_pos hpattern]
      cases ignoreCase <;> rfl
    · rw [if_neg hpattern, if_neg hpattern]
      rfl
  | _ => rfl

/-! ### Conditions of predicates -/

namespace Sql.Condition

variable (d : Dialect)

/-- Joining keeps conditions alike. -/
theorem joins_alike : (backend d).Joins (backend d).onSkeletons Alike where
  and hl hr := hl.join .all hr
  or hl hr := hl.join .any hr

/-- Negating keeps conditions alike. -/
theorem negates_alike : (backend d).Negates (backend d).onSkeletons Alike := fun h ↦ h.negate

/-- The expressions of a constraint and of its skeleton are alike. -/
theorem alike_constraint (c : Constraint) :
    Alike ((backend d).constraint c) ((backend d).onSkeletons.constraint c) where
  negated := rfl
  body := congrArg Clause.atom (blank_atomOf_skeleton d c).symm

/-- The condition makes the comparisons of the constraints of the formula, in their order. -/
def Writes (c : Condition) (f : Formula) : Prop := c.clause.atoms = f.constraints.map (atomOf d)

/-- Joining keeps the comparisons those of the formula. -/
theorem joins_writes : (backend d).Joins Formula.backend (Writes d) where
  and {c f c' f'} hl hr := by
    change (join .all c c').clause.atoms = (f.constraints ++ f'.constraints).map (atomOf d)
    rw [clause_join, List.map_append, ← hl, ← hr]
    rfl
  or {c f c' f'} hl hr := by
    change (join .any c c').clause.atoms = (f.constraints ++ f'.constraints).map (atomOf d)
    rw [clause_join, List.map_append, ← hl, ← hr]
    rfl

/-- Negating keeps the comparisons those of the formula. -/
theorem negates_writes : (backend d).Negates Formula.backend (Writes d) := by
  intro c f h
  change c.negate.clause.atoms = f.constraints.map (atomOf d)
  rw [atoms_clause, body_negate, ← atoms_clause]
  exact h

end Sql.Condition

namespace Predicate

variable {d : Dialect} {p q : Predicate Condition}

/-- Predicates whose conditions are alike are written in the same way. -/
theorem Related.blank_conditionPieces (h : Related Condition.Alike p q) :
    (Select.conditionPieces d p.toCondition?).map Sql.Piece.blank =
      (Select.conditionPieces d q.toCondition?).map Sql.Piece.blank := by
  cases h with
  | always => rfl
  | never => rfl
  | expr h =>
    refine congrArg (Sql.Piece.verbatim " WHERE " :: ·) ?_
    rw [toCondition, toCondition, ← Clause.pieces_blank, ← Clause.pieces_blank, h.clause_blank]

/-- A predicate whose condition makes the comparisons of a formula binds the values of its
constraints. -/
theorem Related.boundValues_conditionPieces {q : Predicate Formula}
    (h : Related (Condition.Writes d) p q) :
    Select.boundValues (Select.conditionPieces d p.toCondition?) = q.boundValues d := by
  cases h with
  | always => rfl
  | never => rfl
  | @expr c f h =>
    change Select.boundValues (c.clause.pieces d) = f.constraints.flatMap (Constraint.boundValues d)
    rw [Clause.boundValues_pieces, h, List.flatMap_map]
    exact List.flatMap_congr fun c _ ↦ c.boundValues_atomOf d

end Predicate

namespace Filter

variable {shape : Shape} (d : Dialect)

/-- A filter and its skeleton are written in the same way. -/
theorem blank_conditionPieces_skeleton (f : Option (Filter shape)) :
    (Select.conditionPieces d
        (compileOption (Condition.backend d) (f.map skeleton)).toCondition?).map Sql.Piece.blank =
      (Select.conditionPieces d
        (compileOption (Condition.backend d) f).toCondition?).map Sql.Piece.blank := by
  cases f with
  | none => rfl
  | some f =>
    have halike : Predicate.Related Condition.Alike (f.compile (Condition.backend d))
        (f.compile (Condition.backend d).onSkeletons) :=
      compile_related (Condition.joins_alike d) f (.inl (Condition.negates_alike d))
        fun c _ ↦ Condition.alike_constraint d c
    rw [Option.map_some, compileOption, compileOption, compile_skeleton]
    exact halike.blank_conditionPieces.symm

/-- A filter binds the values of the formula that it compiles to. -/
theorem boundValues_conditionPieces (f : Option (Filter shape)) :
    Select.boundValues (Select.conditionPieces d
        (compileOption (Condition.backend d) f).toCondition?) =
      (compileOption Formula.backend f).boundValues d := by
  cases f with
  | none => rfl
  | some f =>
    have hwrites : Predicate.Related (Condition.Writes d) (f.compile (Condition.backend d))
        (f.compile Formula.backend) :=
      compile_related (Condition.joins_writes d) f (.inl (Condition.negates_writes d))
        fun _ _ ↦ rfl
    exact hwrites.boundValues_conditionPieces

end Filter

/-! ### Statements of list requests -/

namespace ListQuery

variable {shape : Shape}

/-- The statement that selects the page of a list request. -/
def statement (d : Dialect) (source : Sql.Source) (q : ListQuery shape) : Select :=
  (QueryPlan.compile (Condition.backend d) q).pageStatement source

/-- The values of a list request as they are bound: those of its filter, then those of its page. -/
def boundValues (d : Dialect) (q : ListQuery shape) : List Bound :=
  (Filter.compileOption Formula.backend q.filter).boundValues d ++
    q.page.elim [] PageRequest.boundValues

/-- Two list requests sort in the same way, are both paged or both not, and have filters that differ
in values only. -/
structure SameForm (q q' : ListQuery shape) : Prop where
  sort : q.sort = q'.sort
  paged : q.page.isSome = q'.page.isSome
  filter : q.filter.map Filter.skeleton = q'.filter.map Filter.skeleton

/-- The statement of a list request binds the values of the request in their order, and its text has
one placeholder for each of them. -/
structure BindsValues (d : Dialect) (source : Sql.Source) (q : ListQuery shape) : Prop where
  values : (q.statement d source).values d = q.boundValues d
  placeholders : d.countPlaceholders false ((q.statement d source).text d).toList =
    ((q.statement d source).values d).length

variable (d : Dialect) (source : Sql.Source)

/-- Sort keys bind nothing. -/
theorem boundValues_orderPieces (o : SortOrder) :
    Select.boundValues (Select.orderPieces o) = [] := by
  obtain ⟨keys⟩ := o
  cases keys with
  | nil => rfl
  | cons k ks =>
    have hkeys : Select.boundValues
        (ks.flatMap fun k ↦ .verbatim ", " :: Sql.sortKeyPieces k) = [] := by
      induction ks with
      | nil => rfl
      | cons k ks ih => exact ih
    exact hkeys

/-- A list request binds its values, and nothing else, where the text has placeholders. -/
theorem bindsValues (q : ListQuery shape) : q.BindsValues d source where
  values := by
    have hrange : Select.boundValues (Select.rangePieces (q.statement d source).range) =
        q.page.elim [] PageRequest.boundValues := by
      obtain ⟨filter, sort, page⟩ := q
      cases page <;> rfl
    rw [Select.values, Select.pieces, Select.boundValues_append, Select.boundValues_append,
      Select.boundValues_append, boundValues_orderPieces, List.append_nil, hrange]
    exact congrArg (· ++ _) (Filter.boundValues_conditionPieces d q.filter)
  placeholders := Select.countPlaceholders_text d _

variable {q q' : ListQuery shape}

/-- Two list requests of the same form have the same pieces but for what is bound in them. -/
theorem SameForm.blank_pieces (h : SameForm q q') :
    ((q.statement d source).pieces d).map Sql.Piece.blank =
      ((q'.statement d source).pieces d).map Sql.Piece.blank := by
  obtain ⟨filter, sort, page⟩ := q
  obtain ⟨filter', sort', page'⟩ := q'
  obtain ⟨hsort, hpaged, hfilter⟩ := h
  dsimp only at hsort hpaged hfilter
  subst hsort
  have hcondition : (Select.conditionPieces d
        (Filter.compileOption (Condition.backend d) filter).toCondition?).map Sql.Piece.blank =
      (Select.conditionPieces d
        (Filter.compileOption (Condition.backend d) filter').toCondition?).map Sql.Piece.blank := by
    rw [← Filter.blank_conditionPieces_skeleton, hfilter, Filter.blank_conditionPieces_skeleton]
  have hrange : (Select.rangePieces (page.map fun r ↦ ⟨r.offset, r.limit⟩)).map Sql.Piece.blank =
      (Select.rangePieces (page'.map fun r ↦ ⟨r.offset, r.limit⟩)).map Sql.Piece.blank := by
    cases page <;> cases page' <;> first | rfl | exact nomatch hpaged
  rw [Select.pieces, Select.pieces, List.map_append, List.map_append, List.map_append,
    List.map_append, List.map_append, List.map_append]
  exact congrArg₂ (· ++ ·) (congrArg₂ (· ++ ·) (congrArg₂ (· ++ ·) rfl hcondition) rfl) hrange

/-- Values never reach the text of a statement. Assumes: two list requests of the same form, which
may differ in every text, number, point of time and flag of their filters, and in page and size. The
texts of their statements are the same; and each binds its own values, those of its constraints from
left to right and then limit and offset, where its text has a placeholder for each. -/
theorem text_statement_eq (h : SameForm q q') :
    (q.statement d source).text d = (q'.statement d source).text d ∧
      q.BindsValues d source ∧ q'.BindsValues d source := by
  have htext : (q.statement d source).text d = (q'.statement d source).text d := by
    rw [Select.text, Select.text, ← Select.textFrom_blank, h.blank_pieces, Select.textFrom_blank]
  exact ⟨htext, bindsValues d source q, bindsValues d source q'⟩

end ListQuery

/-! ### A text that would rather be a statement -/

namespace Courses

/-- The courses of a page whose title contains the first text or that have few seats, unless they
are called like the second text. -/
def search (contains equals : String) (lessThan : Int64) (page : Count) : ListQuery shape where
  filter := some
    { leaves (some { contains := some contains }) none with
      or := [leaves none (some { lessThan := some lessThan })]
      not := some (leaves (some { equals := some equals, ignoreCase := true }) none) }
  sort := ⟨["seats", "title"], [.desc]⟩
  page := some ⟨page, 10⟩

end Courses

/-- Whether a plain word is searched for or a text full of quotation marks, the statement is the
same, and the latter is bound as it is. -/
theorem ListQuery.text_statement_search :
    SameForm (Courses.search "b" "abc" 3 0) (Courses.search "\" OR ? = ?" "$1?" (-5) 7) ∧
      ((Courses.search "b" "abc" 3 0).statement .sqlite ⟨"item", "id"⟩).text .sqlite =
        ((Courses.search "\" OR ? = ?" "$1?" (-5) 7).statement .sqlite ⟨"item", "id"⟩).text
          .sqlite ∧
      (Courses.search "\" OR ? = ?" "$1?" (-5) 7).BindsValues .sqlite ⟨"item", "id"⟩ := by
  have hform : SameForm (Courses.search "b" "abc" 3 0)
      (Courses.search "\" OR ? = ?" "$1?" (-5) 7) := ⟨rfl, rfl, rfl⟩
  have hstatement := text_statement_eq .sqlite ⟨"item", "id"⟩ hform
  exact ⟨hform, hstatement.1, hstatement.2.2⟩

end Listing
