import Listing.Proofs.Filter.Composition
import Listing.Proofs.Sql.Reading

/-!
# What a WHERE clause says

The statement for a predicate has a condition unless the predicate holds always. Reading the text of
that condition by precedence gives an expression that has the value of the predicate, whatever the
values of the comparisons are; if the predicate holds never, that is `no`.

`Composition.where_means` says so for all predicates that can be built of constraints, constants and
connectives in any order, among which are those of all filters.
-/

set_option autoImplicit false
set_option relaxedAutoImplicit false

namespace Listing

open Sql (Atom Clause Condition Dialect Select Source Truth)

/-- The statement that selects what a predicate matches. -/
def Predicate.statement (source : Source) (p : Predicate Condition) : Select :=
  { source, condition := p.toCondition? }

/-- The truth value of a composition from those of the comparisons that its constraints are. -/
def Composition.truthBy (d : Dialect) (leaf : Atom → Truth) (p : Composition) : Truth :=
  p.truth fun c ↦ leaf (Condition.atomOf d c)

/-- The text of the statement says what the composition means. -/
structure Composition.MeansWhere (d : Dialect) (source : Source) (p : Composition) : Prop where
  /-- There is no condition exactly if the predicate holds always. -/
  bare_iff : ((p.build (Condition.backend d)).statement source).text d =
    (Predicate.always.statement source).text d ↔ p.build (Condition.backend d) = .always
  /-- The two constants have their values whatever the comparisons are. -/
  always : p.build (Condition.backend d) = .always → ∀ leaf, p.truthBy d leaf = .yes
  never : p.build (Condition.backend d) = .never → ∀ leaf, p.truthBy d leaf = .no
  /-- Otherwise the condition is read as a clause with the value of the composition. -/
  read : p.build (Condition.backend d) ≠ .always → ∃ condition c,
    ((p.build (Condition.backend d)).statement source).text d =
        (Predicate.always.statement source).text d ++ " WHERE " ++ condition ∧
      Clause.read? d (((p.build (Condition.backend d)).statement source).values d) condition =
        some c ∧
      ∀ leaf : Atom → Truth, c.value (Atom.valueWith leaf) = p.truthBy d leaf

/-- The text of two rows of pieces; the placeholders of the second one are numbered on. -/
theorem Sql.Select.textFrom_append (d : Dialect) (n : Nat) (ps qs : List Sql.Piece) :
    textFrom d n (ps ++ qs) = textFrom d n ps ++ textFrom d (n + (boundValues ps).length) qs := by
  induction ps generalizing n with
  | nil => exact String.empty_append.symm
  | cons p ps ih =>
    cases p with
    | verbatim s => rw [List.cons_append, textFrom, textFrom, ih, String.append_assoc]; rfl
    | name s => rw [List.cons_append, textFrom, textFrom, ih, String.append_assoc]; rfl
    | bound v =>
      have hcount : n + (boundValues (.bound v :: ps)).length = n + 1 + (boundValues ps).length :=
        Nat.add_right_comm n (boundValues ps).length 1
      rw [List.cons_append, textFrom, textFrom, ih, String.append_assoc, hcount]

namespace Predicate

variable {d : Dialect} {source : Source} {p : Predicate Condition}

/-- The statement of a predicate that does not hold always ends with its condition. -/
theorem pieces_statement (hp : p ≠ .always) :
    (p.statement source).pieces d = (always.statement source).pieces d ++
      .verbatim " WHERE " :: p.toCondition.clause.pieces d := by
  have hcondition : Select.conditionPieces d p.toCondition? =
      .verbatim " WHERE " :: p.toCondition.clause.pieces d := by
    cases p with
    | always => exact absurd rfl hp
    | _ => rfl
  rw [Select.pieces, statement, hcondition]
  rw [Select.pieces, statement]
  simp [Select.conditionPieces, Select.orderPieces, Select.rangePieces, toCondition?]

/-- Its text ends with the text of the condition. -/
theorem text_statement (hp : p ≠ .always) :
    (p.statement source).text d = (always.statement source).text d ++ " WHERE " ++
      Select.textFrom d 1 (p.toCondition.clause.pieces d) := by
  rw [Select.text, Select.text, pieces_statement hp, Select.textFrom_append, String.append_assoc]
  rfl

/-- It binds the values of the condition. -/
theorem values_statement (hp : p ≠ .always) :
    (p.statement source).values d = Select.boundValues (p.toCondition.clause.pieces d) := by
  rw [Select.values, pieces_statement hp]
  rfl

/-- A text with a condition is another one. -/
theorem text_statement_eq_iff :
    (p.statement source).text d = (always.statement source).text d ↔ p = .always := by
  constructor
  · intro htext
    by_contra hp
    -- The text with a condition is longer.
    rw [text_statement hp] at htext
    have hlength := congrArg String.length htext
    rw [String.length_append, String.length_append] at hlength
    have hwhere : 0 < " WHERE ".length := by decide
    omega
  · rintro rfl
    rfl

/-- The condition of a predicate that does not hold always has the value of the predicate. -/
theorem value_toCondition (leaf : Atom → Truth) (hp : p ≠ .always) :
    p.toCondition.value (Atom.valueWith leaf) = p.truth (Atom.valueWith leaf) := by
  cases p with
  | always => exact absurd rfl hp
  | _ => rfl

end Predicate

namespace Composition

variable (d : Dialect) (source : Source) (p : Composition)

/-- The value of what is built is that of the composition. -/
theorem truth_build_valueWith (leaf : Atom → Truth) :
    (p.build (Condition.backend d)).truth (Atom.valueWith leaf) = p.truthBy d leaf := by
  rw [truth_build, truthBy]
  exact congrArg p.truth (funext fun c ↦ Atom.valueWith_atomOf leaf d c)

/-- The text of the statement says what the composition means. -/
theorem meansWhere : p.MeansWhere d source where
  bare_iff := Predicate.text_statement_eq_iff
  always h leaf := by rw [← truth_build_valueWith, h, Predicate.truth]
  never h leaf := by rw [← truth_build_valueWith, h, Predicate.truth]
  read h := by
    refine ⟨_, (p.build (Condition.backend d)).toCondition.clause, Predicate.text_statement h,
      ?_, ?_⟩
    · rw [Predicate.values_statement h, Clause.read?_textFrom]
    · intro leaf
      rw [Condition.value_clause, Predicate.value_toCondition leaf h, truth_build_valueWith]

end Composition

/-- Every composition of constraints, constants and connectives is written as a condition that is
read with its meaning, and what a filter compiles to is such a composition. -/
theorem Composition.where_means (d : Dialect) (source : Source) :
    (∀ p : Composition, p.MeansWhere d source) ∧
      ∀ {shape : Shape} (f : Option (Filter shape)), ∃ p : Composition,
        p.build (Condition.backend d) = Filter.compileOption (Condition.backend d) f := by
  refine ⟨fun p ↦ p.meansWhere d source, ?_⟩
  intro shape f
  cases f with
  | none => exact ⟨.always, rfl⟩
  | some f => exact ⟨f.composition, f.build_composition (Condition.backend d)⟩

end Listing
