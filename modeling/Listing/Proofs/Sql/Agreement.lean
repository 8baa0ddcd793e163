import Listing.Proofs.Filter.Meaning
import Listing.Proofs.Filter.Simulation
import Listing.Proofs.Sort.Kinds
import Listing.Proofs.Sql.Evaluation
import Listing.Proofs.Text.Uppercase

/-!
# Databases and memory agree

The same filter decides over the rows of a table and over records in memory. On a row that has the
field of a constraint, with a value of the kind that is tested, the comparison written for the
constraint is what the check in memory says, in each dialect (`Condition.value_atomOf_of_present`);
without the field the comparison is unknown while the check fails
(`Condition.value_atomOf_of_missing`).

So a comparison never contradicts the check, and neither does what is built from them: a condition
that is known has the answer of the check (`Truth.Approximates`). A selected row is therefore
matched. The converse fails only where an unknown comparison is negated: it holds where no field of
the filter is missing, and where nothing is negated
(`Filter.selects_compile_iff_accepts`).
-/

set_option autoImplicit false
set_option relaxedAutoImplicit false

namespace Listing

/-! ### Well-kinded rows -/

/-- Each declared field that the record has holds a value of its kind. -/
def Shape.Fits {R : Type} [Record R] (shape : Shape) (r : R) : Prop :=
  ∀ f ∈ shape.fields, ∀ v ∈ Record.field r f.name, v.kind = f.kind

instance {R : Type} [Record R] (shape : Shape) (r : R) : Decidable (shape.Fits r) :=
  inferInstanceAs (Decidable (∀ f ∈ shape.fields, ∀ v ∈ Record.field r f.name, v.kind = f.kind))

namespace Sql

/-! ### Comparisons -/

/-- Capital letters count as the same only if they are, in every dialect. -/
theorem Dialect.sameChar_iff (d : Dialect) {a b : Char} (ha : a.toUpper = a) (hb : b.toUpper = b) :
    d.sameChar a b = true ↔ a = b := by
  cases d <;> simp [sameChar, ha, hb]

/-- Comparing texts by code point finds exactly equal texts equal. -/
theorem isEq_compare_toList (s t : String) : (compare s.toList t.toList).isEq = (s == t) := by
  rw [Bool.eq_iff_iff, Ordering.isEq_iff_eq_eq, Std.compare_eq_iff_eq, String.toList_inj,
    beq_iff_eq]

/-- Comparing truth values finds exactly equal ones equal. -/
theorem isEq_compare_bool (a b : Bool) : (compare a b).isEq = (a == b) := by
  cases a <;> cases b <;> rfl

/-- Assumes: the database takes characters of the two texts for the same only if they are. A text
matches the pattern made for another one if that one occurs in it. -/
theorem like_likePattern (d : Dialect) (s value : String)
    (hsame : ∀ a ∈ value.toList, ∀ b ∈ s.toList, d.sameChar a b = true ↔ a = b) :
    (Engine.standard d).like (Condition.likePattern value) s = Text.contains s value := by
  rw [Bool.eq_iff_iff, Text.contains_iff, Engine.standard_like]
  exact LikeItem.fits_likePattern_iff value s.toList hsame

/-- Upper-cased texts are matched in every dialect as they occur. -/
theorem like_uppercase (d : Dialect) (s value : String) :
    (Engine.standard d).like (Condition.likePattern (Text.uppercase value)) (Text.uppercase s) =
      Text.contains (Text.uppercase s) (Text.uppercase value) :=
  like_likePattern d (Text.uppercase s) (Text.uppercase value) fun _ ha _ hb ↦
    d.sameChar_iff (Text.toUpper_of_mem_uppercase ha) (Text.toUpper_of_mem_uppercase hb)

/-- Where patterns distinguish cases, all texts are matched as they occur. -/
theorem like_postgres (s value : String) :
    (Engine.standard .postgres).like (Condition.likePattern value) s = Text.contains s value :=
  like_likePattern .postgres s value fun _ _ _ _ ↦ beq_iff_eq

/-- A text occurs in another one if its position is greater than zero. -/
theorem isGT_compare_position (d : Dialect) (s value : String) :
    (compare ((Engine.standard d).position value s : Int) 0).isGT = Text.contains s value := by
  rw [Bool.eq_iff_iff, Ordering.isGT_iff_eq_gt, Int.compare_eq_gt, Text.contains_iff]
  exact Int.natCast_pos.trans (position_pos_iff value.toList s.toList)

namespace Condition

variable {R : Type} [Record R] {r : R} {c : Constraint}

/-- The comparison written for a constraint is unknown on a row without the field. -/
theorem value_atomOf_of_missing (d : Dialect) (hmissing : Record.field r c.field = none) :
    (atomOf d c).value (Engine.standard d) r = .unknown := by
  have hcolumn : (Operand.column c.field).datum (Engine.standard d) r = none :=
    Operand.datum_foldedColumn_of_missing hmissing false
  obtain ⟨field, test⟩ := c
  cases test with
  | equals value ignoreCase =>
    exact Atom.value_compare_of_missing
      (Operand.datum_foldedColumn_of_missing hmissing ignoreCase)
  | contains value ignoreCase =>
    rw [atomOf]
    dsimp only
    split
    · exact Atom.value_like_of_missing (Operand.datum_foldedColumn_of_missing hmissing ignoreCase)
    · exact Atom.value_compare_of_missing (Operand.datum_position_of_missing hmissing _)
  | integer comparison value => exact Atom.value_compare_of_missing hcolumn
  | moment comparison value => exact Atom.value_compare_of_missing hcolumn
  | flag value => exact Atom.value_compare_of_missing hcolumn

/-- The comparison written for the search of a text is what the check says: by pattern where the
case is ignored or patterns distinguish cases, and by position elsewhere. -/
theorem value_atomOf_contains (d : Dialect) {field s : String}
    (hs : Record.field r field = some (.text s)) (value : String) (ignoreCase : Bool) :
    (atomOf d ⟨field, .contains value ignoreCase⟩).value (Engine.standard d) r =
      .ofBool ((Test.contains value ignoreCase).accepts (.text s)) := by
  rw [atomOf, Test.accepts]
  dsimp only
  by_cases hpattern : ignoreCase ∨ d = .postgres
  · rw [if_pos hpattern, Atom.value_like (Operand.datum_foldedColumn d hs ignoreCase)]
    rcases hpattern with rfl | rfl
    · exact congrArg Truth.ofBool (like_uppercase d s value)
    · exact congrArg Truth.ofBool (like_postgres (Text.fold ignoreCase s)
        (Text.fold ignoreCase value))
  · have hcase : ignoreCase = false := by
      rw [not_or, Bool.not_eq_true] at hpattern
      exact hpattern.1
    rw [if_neg hpattern, Atom.value_compare (Operand.datum_position hs value) rfl, hcase]
    exact congrArg Truth.ofBool (isGT_compare_position d s value)

/-- The comparison written for a constraint is what the check says on a row whose field has a value
of the kind that is tested. -/
theorem value_atomOf_of_present (d : Dialect) {v : Value} (hv : Record.field r c.field = some v)
    (hkind : v.kind = c.test.kind) :
    (atomOf d c).value (Engine.standard d) r = .ofBool (c.test.accepts v) := by
  obtain ⟨field, test⟩ := c
  cases test with
  | equals value ignoreCase =>
    cases v with
    | text s =>
      rw [atomOf, Atom.value_compare (Operand.datum_foldedColumn d hv ignoreCase) rfl]
      exact congrArg Truth.ofBool (isEq_compare_toList _ _)
    | _ => exact nomatch hkind
  | contains value ignoreCase =>
    cases v with
    | text s => exact value_atomOf_contains d hv value ignoreCase
    | _ => exact nomatch hkind
  | integer comparison value =>
    cases v with
    | integer n => exact Atom.value_compare (Operand.datum_column hv) rfl
    | _ => exact nomatch hkind
  | moment comparison value =>
    cases v with
    | moment t => exact Atom.value_compare (Operand.datum_column hv) rfl
    | _ => exact nomatch hkind
  | flag value =>
    cases v with
    | flag b =>
      rw [atomOf, Atom.value_compare (Operand.datum_column hv) rfl]
      exact congrArg Truth.ofBool (isEq_compare_bool b value)
    | _ => exact nomatch hkind

end Condition

/-! ### Known values -/

/-- The truth value is the answer, unless it is unknown. -/
def Truth.Approximates (t : Truth) (a : Bool) : Prop := t = .unknown ∨ t = ofBool a

namespace Truth.Approximates

variable {s t : Truth} {a b : Bool}

/-- A conjunction is known if both sides are, or one side is known not to hold. -/
theorem and (hs : s.Approximates a) (ht : t.Approximates b) :
    (s.and t).Approximates (a && b) := by
  unfold Approximates
  rcases hs with rfl | rfl <;> rcases ht with rfl | rfl <;> cases a <;> cases b <;> decide

/-- A disjunction is known if both sides are, or one side is known to hold. -/
theorem or (hs : s.Approximates a) (ht : t.Approximates b) :
    (s.or t).Approximates (a || b) := by
  unfold Approximates
  rcases hs with rfl | rfl <;> rcases ht with rfl | rfl <;> cases a <;> cases b <;> decide

/-- A negation is known if what it negates is. -/
theorem not (hs : s.Approximates a) : s.not.Approximates (!a) := by
  unfold Approximates
  rcases hs with rfl | rfl <;> cases a <;> decide

end Truth.Approximates

/-! ### Conditions and checks -/

section Relations

variable {R : Type} [Record R] (d : Dialect) (atom : Atom → Truth) (r : R)

/-- Joining keeps a known condition in agreement with the check. -/
theorem joins_approximates : (Condition.backend d).Joins (Matcher.backend R)
    fun c check ↦ (c.value atom).Approximates (check r) where
  and hl hr := by
    rw [Condition.backend, Condition.value_join]
    exact hl.and hr
  or hl hr := by
    rw [Condition.backend, Condition.value_join]
    exact hl.or hr

/-- Negating keeps a known condition in agreement with the check. -/
theorem negates_approximates : (Condition.backend d).Negates (Matcher.backend R)
    fun c check ↦ (c.value atom).Approximates (check r) := by
  intro c check h
  rw [Condition.backend, Condition.value_negate]
  exact h.not

/-- Joining keeps the value of a condition the answer of the check. -/
theorem joins_eq_ofBool : (Condition.backend d).Joins (Matcher.backend R)
    fun c check ↦ c.value atom = .ofBool (check r) where
  and hl hr := by
    rw [Condition.backend, Condition.value_join, hl, hr]
    exact Truth.ofBool_and _ _
  or hl hr := by
    rw [Condition.backend, Condition.value_join, hl, hr]
    exact Truth.ofBool_or _ _

/-- Negating keeps the value of a condition the answer of the check. -/
theorem negates_eq_ofBool : (Condition.backend d).Negates (Matcher.backend R)
    fun c check ↦ c.value atom = .ofBool (check r) := by
  intro c check h
  rw [Condition.backend, Condition.value_negate, h]
  exact Truth.ofBool_not _

/-- Joining keeps a condition true exactly where the check succeeds. -/
theorem joins_eq_yes_iff : (Condition.backend d).Joins (Matcher.backend R)
    fun c check ↦ c.value atom = .yes ↔ check r = true where
  and hl hr := by
    rw [Condition.backend, Condition.value_join]
    exact Truth.and_eq_yes_iff.trans ((and_congr hl hr).trans Bool.and_eq_true_iff.symm)
  or hl hr := by
    rw [Condition.backend, Condition.value_join]
    exact Truth.or_eq_yes_iff.trans ((or_congr hl hr).trans Bool.or_eq_true_iff.symm)

end Relations

end Sql

/-! ### Selected rows and matched records -/

namespace Predicate

open Sql (Condition Atom Truth Engine)

variable {R : Type} [Record R] {e : Engine} {r : R} {S : Condition → Matcher R → Prop}
  {p : Predicate Condition} {q : Predicate (Matcher R)}

/-- A row is selected by an expression if it is true. -/
theorem selects_expr_iff {atom : Atom → Truth} {c : Condition} :
    (expr c).Selects atom ↔ c.value atom = .yes := by
  simp [Selects, toCondition?, toCondition]

/-- No row is selected by the predicate that holds never. -/
theorem not_selects_never : ¬(never : Predicate Condition).Selects (Atom.value e r) := fun h ↦
  nomatch h _ rfl

/-- Assumes: the check succeeds wherever the condition is true. Then selected rows are matched. -/
theorem Related.accepts_of_selects
    (hS : ∀ c check, S c check → c.value (Atom.value e r) = .yes → check r = true)
    (h : Related S p q) (hselects : p.Selects (Atom.value e r)) : q.accepts r = true := by
  cases h with
  | always => rfl
  | never => exact absurd hselects not_selects_never
  | expr hd => exact hS _ _ hd (selects_expr_iff.mp hselects)

/-- Assumes: the check succeeds exactly where the condition is true. Then exactly the matched rows
are selected. -/
theorem Related.selects_iff_accepts
    (hS : ∀ c check, S c check → (c.value (Atom.value e r) = .yes ↔ check r = true))
    (h : Related S p q) : p.Selects (Atom.value e r) ↔ q.accepts r = true := by
  constructor
  · exact h.accepts_of_selects fun c check hc ↦ (hS c check hc).mp
  · intro haccepts
    cases h with
    | always => exact fun _ hc ↦ nomatch hc
    | never => exact absurd haccepts Bool.false_ne_true
    | expr hd => exact selects_expr_iff.mpr ((hS _ _ hd).mpr haccepts)

end Predicate

namespace Filter

open Sql

variable {R : Type} [Record R] {shape : Shape} {r : R} {f : Filter shape} {c : Constraint}

/-- The field of a constraint of a filter holds a value of the kind that is tested. -/
theorem kind_eq_of_mem_constraints (hfits : shape.Fits r) (hc : c ∈ f.constraints) {v : Value}
    (hv : Record.field r c.field = some v) : v.kind = c.test.kind := by
  obtain ⟨spec, hspec, hname, hkind⟩ := f.declared_of_mem_constraints hc
  rw [hkind]
  exact hfits spec hspec v (hname ▸ hv)

/-- On a row with the field the comparison written for a constraint of a filter is the check. -/
theorem value_atomOf_eq_holds (d : Dialect) (hfits : shape.Fits r) (hc : c ∈ f.constraints)
    {v : Value} (hv : Record.field r c.field = some v) :
    (Condition.atomOf d c).value (Engine.standard d) r = .ofBool (c.holds r) := by
  rw [Condition.value_atomOf_of_present d hv (kind_eq_of_mem_constraints hfits hc hv),
    Constraint.holds, hv]

/-- Where a field is missing the comparison is unknown and the check fails; where it is not, the two
agree. -/
theorem value_atomOf_cases (d : Dialect) (hfits : shape.Fits r) (hc : c ∈ f.constraints) :
    (Condition.atomOf d c).value (Engine.standard d) r = .unknown ∧ c.holds r = false ∨
      (Condition.atomOf d c).value (Engine.standard d) r = .ofBool (c.holds r) := by
  rcases hv : Record.field r c.field with _ | v
  · refine .inl ⟨Condition.value_atomOf_of_missing d hv, ?_⟩
    rw [Constraint.holds, hv]
  · exact .inr (value_atomOf_eq_holds d hfits hc hv)

/-- Every selected row is matched. Assumes: a row on which every declared field is missing or holds
a value of its kind. -/
theorem accepts_of_selects_compile (d : Dialect) (hfits : shape.Fits r)
    (hselects : (f.compile (Condition.backend d)).Selects (Atom.value (Engine.standard d) r)) :
    (f.compile (Matcher.backend R)).accepts r = true := by
  have hrelated := compile_related (joins_approximates d (Atom.value (Engine.standard d) r) r) f
    (.inl (negates_approximates d (Atom.value (Engine.standard d) r) r)) fun c hc ↦
      (value_atomOf_cases d hfits hc).imp_left And.left
  refine hrelated.accepts_of_selects ?_ hselects
  intro c check happroximates hyes
  rcases happroximates with hunknown | hanswer
  · simp [hunknown] at hyes
  · exact Truth.ofBool_eq_yes_iff.mp (hanswer.symm.trans hyes)

/-- Exactly the matched rows are selected. Assumes: a row on which every declared field is missing
or holds a value of its kind, and no field that the filter constrains is missing. -/
theorem selects_compile_iff_of_present (d : Dialect) (hfits : shape.Fits r)
    (hpresent : ∀ c ∈ f.constraints, (Record.field r c.field).isSome) :
    (f.compile (Condition.backend d)).Selects (Atom.value (Engine.standard d) r) ↔
      (f.compile (Matcher.backend R)).accepts r = true := by
  have hleaf : ∀ c ∈ f.constraints,
      (Condition.atomOf d c).value (Engine.standard d) r = .ofBool (c.holds r) := by
    intro c hc
    obtain ⟨v, hv⟩ := Option.isSome_iff_exists.mp (hpresent c hc)
    exact value_atomOf_eq_holds d hfits hc hv
  have hrelated := compile_related (joins_eq_ofBool d (Atom.value (Engine.standard d) r) r) f
    (.inl (negates_eq_ofBool d (Atom.value (Engine.standard d) r) r)) hleaf
  refine hrelated.selects_iff_accepts fun c check hvalue ↦ ?_
  rw [hvalue, Truth.ofBool_eq_yes_iff]

/-- Exactly the matched rows are selected. Assumes: a row on which every declared field is missing
or holds a value of its kind, and a filter that negates nothing. -/
theorem selects_compile_iff_of_notFree (d : Dialect) (hfits : shape.Fits r) (hfree : f.NotFree) :
    (f.compile (Condition.backend d)).Selects (Atom.value (Engine.standard d) r) ↔
      (f.compile (Matcher.backend R)).accepts r = true := by
  have hleaf : ∀ c ∈ f.constraints,
      ((Condition.atomOf d c).value (Engine.standard d) r = .yes ↔ c.holds r = true) := by
    intro c hc
    rcases value_atomOf_cases d hfits hc with ⟨hunknown, hfails⟩ | hknown
    · rw [hunknown, hfails]
      decide
    · rw [hknown, Truth.ofBool_eq_yes_iff]
  have hrelated := compile_related (joins_eq_yes_iff d (Atom.value (Engine.standard d) r) r) f
    (.inr hfree) hleaf
  exact hrelated.selects_iff_accepts fun _ _ ↦ id

/-- Databases and memory agree, in each dialect and for each filter. Assumes: a row on which every
declared field is missing or holds a value of its kind. Every selected row is matched in memory; and
if no field that the filter constrains is missing, or the filter negates nothing, then exactly the
matched rows are selected. -/
theorem selects_compile_iff_accepts (d : Dialect) (f : Filter shape) (r : R)
    (hfits : shape.Fits r) :
    ((f.compile (Condition.backend d)).Selects (Atom.value (Engine.standard d) r) →
        (f.compile (Matcher.backend R)).accepts r = true) ∧
      ((∀ c ∈ f.constraints, (Record.field r c.field).isSome) ∨ f.NotFree →
        ((f.compile (Condition.backend d)).Selects (Atom.value (Engine.standard d) r) ↔
          (f.compile (Matcher.backend R)).accepts r = true)) := by
  constructor
  · exact accepts_of_selects_compile d hfits
  · rintro (hpresent | hfree)
    · exact selects_compile_iff_of_present d hfits hpresent
    · exact selects_compile_iff_of_notFree d hfits hfree

/-- The course called `bac` with 2 seats is selected as a popular one, with the case of its title
distinguished by position. -/
theorem selects_compile_popular :
    Courses.shape.Fits (Courses.row "bac" (some 2)) ∧
      (∀ c ∈ Courses.popular.constraints,
        (Record.field (Courses.row "bac" (some 2)) c.field).isSome) ∧
      (Courses.popular.compile (Condition.backend .sqlite)).Selects
        (Atom.value (Engine.standard .sqlite) (Courses.row "bac" (some 2))) := by
  have hfits : Courses.shape.Fits (Courses.row "bac" (some 2)) := by decide
  have hpresent : ∀ c ∈ Courses.popular.constraints,
      (Record.field (Courses.row "bac" (some 2)) c.field).isSome := by decide
  exact ⟨hfits, hpresent, ((selects_compile_iff_accepts .sqlite Courses.popular
    (Courses.row "bac" (some 2)) hfits).2 (.inl hpresent)).mpr (by decide)⟩

end Filter

end Listing
