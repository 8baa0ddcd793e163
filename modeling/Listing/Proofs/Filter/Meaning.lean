import Listing.Filter.Compile
import Listing.Memory
import Listing.Proofs.Filter.Tree

/-!
# The meaning of a filter

`Filter.Holds` says what a filter asks for when it is known which constraints are met: the bounds
that the node sets, the `and` children and the opposite of the `not` child together, or one of the
`or` children. It is defined on the tree alone, from the bounds that each leaf filter sets
(`Kind.Sets`), and knows neither predicates nor backends.

A valuation gives each expression of a backend a truth value. It is lawful if the connectives of the
backend are those of truth values (`Backend.Lawful`); a predicate then has a value in which the two
constants count as true and false (`Predicate.value`), and joining and negating predicates joins and
negates their values, constants or not (`Predicate.value_all_iff`, `Predicate.value_any_iff`,
`Predicate.value_negate_iff`). `Filter.value_compile_iff` follows by induction over the tree: the
value of a compiled filter is the meaning of the filter.

In memory a constraint is met by a record if the field has a value of the right kind that lies in
the bound (`Constraint.Meets`), where instants are ordered digit by digit (`Instant.Before`).
`Constraint.holds_iff_meets` says that the matcher of a constraint checks exactly that.
-/

set_option autoImplicit false
set_option relaxedAutoImplicit false

namespace Listing

/-! ### The bounds that are set -/

/-- The leaf filter on a text sets the bound. -/
def TextFilter.Sets (f : TextFilter) (t : Test) : Prop :=
  (∃ value, f.equals = some value ∧ t = .equals value f.ignoreCase) ∨
    ∃ value, f.contains = some value ∧ t = .contains value f.ignoreCase

/-- The leaf filter on an integer sets the bound. -/
def IntegerFilter.Sets (f : IntegerFilter) (t : Test) : Prop :=
  (∃ value, f.equals = some value ∧ t = .integer .equal value) ∨
    (∃ value, f.lessThan = some value ∧ t = .integer .lessThan value) ∨
      ∃ value, f.greaterThan = some value ∧ t = .integer .greaterThan value

/-- The leaf filter on a point of time sets the bound. -/
def MomentFilter.Sets (f : MomentFilter) (t : Test) : Prop :=
  (∃ value, f.equals = some value ∧ t = .moment .equal value) ∨
    (∃ value, f.before = some value ∧ t = .moment .lessThan value) ∨
      ∃ value, f.after = some value ∧ t = .moment .greaterThan value

/-- The leaf filter sets the bound; the filter of a flag is its only bound. -/
def Kind.Sets : (k : Kind) → k.Leaf → Test → Prop
  | .text, f, t => TextFilter.Sets f t
  | .integer, f, t => IntegerFilter.Sets f t
  | .moment, f, t => MomentFilter.Sets f t
  | .flag, b, t => t = .flag b

/-- One of the slots holds a leaf filter that sets the bound on its field. -/
def Slots.Sets : (fs : List FieldSpec) → Slots fs → Constraint → Prop
  | [], _, _ => False
  | f :: fs, (leaf, rest), c =>
    (∃ l, leaf = some l ∧ c.field = f.name ∧ f.kind.Sets l c.test) ∨ Sets fs rest c

/-- The tests of a leaf filter are the bounds that it sets. -/
theorem Kind.mem_tests_iff {k : Kind} {leaf : k.Leaf} {t : Test} :
    t ∈ k.tests leaf ↔ k.Sets leaf t := by
  cases k with
  | text =>
    simp only [Kind.tests, TextFilter.tests, Kind.Sets, TextFilter.Sets, List.mem_append,
      Option.mem_toList, Option.map_eq_some_iff, eq_comm (a := t)]
  | integer =>
    simp only [Kind.tests, IntegerFilter.tests, Kind.Sets, IntegerFilter.Sets, List.mem_append,
      Option.mem_toList, Option.map_eq_some_iff, eq_comm (a := t), or_assoc]
  | moment =>
    simp only [Kind.tests, MomentFilter.tests, Kind.Sets, MomentFilter.Sets, List.mem_append,
      Option.mem_toList, Option.map_eq_some_iff, eq_comm (a := t), or_assoc]
  | flag => exact List.mem_singleton

/-- The constraints of the slots are the bounds that their leaf filters set. -/
theorem Slots.mem_constraints_iff (fs : List FieldSpec) (s : Slots fs) {c : Constraint} :
    c ∈ (s.constraints fs).flatten ↔ s.Sets fs c := by
  induction fs with
  | nil => simp [Slots.constraints, Slots.Sets]
  | cons f fs ih =>
    obtain ⟨leaf, rest⟩ := s
    rw [Slots.constraints, List.flatten_cons, List.mem_append, ih, Slots.Sets]
    refine or_congr_left ?_
    cases leaf with
    | none => simp [Slots.constraintsOf]
    | some leaf =>
      obtain ⟨field, test⟩ := c
      simp only [Slots.constraintsOf, List.mem_map, Kind.mem_tests_iff, Constraint.mk.injEq,
        Option.some.injEq, exists_eq_left']
      constructor
      · rintro ⟨t, ht, rfl, rfl⟩
        exact ⟨rfl, ht⟩
      · rintro ⟨rfl, ht⟩
        exact ⟨test, ht, rfl, rfl⟩

/-! ### What a filter asks for -/

namespace Filter

variable {shape : Shape}

/-- The filter is satisfied, if `met` says which constraints are met: all bounds of the node are
met, all its `and` children are satisfied and its `not` child is not, or one of its `or` children
is. -/
def Holds (met : Constraint → Prop) : Filter shape → Prop := fold fun own and or not ↦
  ((∀ c, own.Sets shape.fields c → met c) ∧ (∀ p ∈ and, p) ∧ ∀ p ∈ not, ¬p) ∨ ∃ p ∈ or, p

/-- The meaning of a node from the meanings of its children. -/
theorem holds_iff (met : Constraint → Prop) (f : Filter shape) :
    f.Holds met ↔
      ((∀ c, f.own.Sets shape.fields c → met c) ∧ (∀ g ∈ f.and, g.Holds met) ∧
          ∀ g ∈ f.not, ¬g.Holds met) ∨
        ∃ g ∈ f.or, g.Holds met := by
  rw [Holds, fold_eq, ← Holds]
  simp only [List.mem_map, forall_exists_index, and_imp, forall_apply_eq_imp_iff₂,
    exists_exists_and_eq_and, Option.forall_mem_map]

end Filter

/-! ### Valuations -/

variable {E : Type}

/-- The connectives of the backend are those of truth values. -/
structure Backend.Lawful (b : Backend E) (ev : E → Bool) : Prop where
  and : ∀ d e, ev (b.and d e) = (ev d && ev e)
  or : ∀ d e, ev (b.or d e) = (ev d || ev e)
  not : ∀ e, ev (b.not e) = !ev e

/-- The checks of records are joined and negated as their outcomes on a record are. -/
theorem Matcher.lawful {R : Type} [Record R] (r : R) : (Matcher.backend R).Lawful (· r) where
  and _ _ := rfl
  or _ _ := rfl
  not _ := rfl

namespace Predicate

/-- The value of a predicate; the constants are true and false. -/
def value (ev : E → Bool) : Predicate E → Bool
  | always => true
  | never => false
  | expr e => ev e

/-- A record meets a predicate if the predicate is true under its outcomes. -/
theorem accepts_eq_value {R : Type} (p : Predicate (Matcher R)) (r : R) :
    p.accepts r = p.value (· r) := by
  cases p <;> rfl

/-- Assumes: every record that meets the first predicate meets the second one. Then the first one
selects no record that the second one does not select. -/
theorem select_sublist {R : Type} {p q : Predicate (Matcher R)}
    (h : ∀ r, p.accepts r = true → q.accepts r = true) (rs : List R) :
    (p.select rs).Sublist (q.select rs) :=
  List.monotone_filter_right rs h

section Laws

variable {b : Backend E} {ev : E → Bool} (h : b.Lawful ev)

include h

theorem value_and (p q : Predicate E) : (and b p q).value ev = (p.value ev && q.value ev) := by
  cases p <;> cases q <;> simp [and, value, h.and]

theorem value_or (p q : Predicate E) : (or b p q).value ev = (p.value ev || q.value ev) := by
  cases p <;> cases q <;> simp [or, value, h.or]

theorem value_not (p : Predicate E) : (p.not b).value ev = !p.value ev := by
  cases p <;> simp [Predicate.not, value, h.not]

/-- The negation of an absent predicate is true. -/
theorem value_negate_iff (p : Option (Predicate E)) :
    (negate b p).value ev = true ↔ ∀ q ∈ p, ¬q.value ev = true := by
  cases p with
  | none => simp [negate, value]
  | some p => simp [negate, value_not h]

/-- The fold of a conjunction, from any predicate on. -/
theorem value_foldl_and (p : Predicate E) (ps : List (Predicate E)) :
    (ps.foldl (and b) p).value ev = true ↔ p.value ev = true ∧ ∀ q ∈ ps, q.value ev = true := by
  induction ps generalizing p with
  | nil => simp
  | cons q ps ih =>
    rw [List.foldl_cons, ih, value_and h, Bool.and_eq_true, and_assoc, List.forall_mem_cons]

/-- The fold of a disjunction, from any predicate on. -/
theorem value_foldl_or (p : Predicate E) (ps : List (Predicate E)) :
    (ps.foldl (or b) p).value ev = true ↔ p.value ev = true ∨ ∃ q ∈ ps, q.value ev = true := by
  induction ps generalizing p with
  | nil => simp
  | cons q ps ih =>
    rw [List.foldl_cons, ih, value_or h, Bool.or_eq_true, or_assoc, List.exists_mem_cons_iff]

/-- A conjunction is true if all its members are. -/
theorem value_all_iff (ps : List (Predicate E)) :
    (all b ps).value ev = true ↔ ∀ p ∈ ps, p.value ev = true := by
  rw [all, value_foldl_and h]
  exact and_iff_right rfl

/-- A disjunction is true if one of its members is. -/
theorem value_any_iff (ps : List (Predicate E)) :
    (any b ps).value ev = true ↔ ∃ p ∈ ps, p.value ev = true := by
  rw [any, value_foldl_or h]
  exact or_iff_right Bool.false_ne_true

/-- A conjunction of constraints is true if all their expressions are. -/
theorem value_ofConstraints_iff (cs : List Constraint) :
    (ofConstraints b cs).value ev = true ↔ ∀ c ∈ cs, ev (b.constraint c) = true := by
  rw [ofConstraints, value_all_iff h]
  exact List.forall_mem_map

end Laws

end Predicate

/-- The leaf filters of a node are true if the expressions of all bounds that they set are. -/
theorem Slots.value_predicate_iff {b : Backend E} {ev : E → Bool} (h : b.Lawful ev) {shape : Shape}
    (own : Slots shape.fields) :
    (own.predicate b).value ev = true ↔
      ∀ c, own.Sets shape.fields c → ev (b.constraint c) = true := by
  rw [Slots.predicate, Predicate.value_all_iff h, List.forall_mem_map]
  simp only [Predicate.value_ofConstraints_iff h, ← Slots.mem_constraints_iff, List.mem_flatten]
  constructor
  · rintro hall c ⟨cs, hcs, hc⟩
    exact hall cs hcs c hc
  · intro hall cs hcs c hc
    exact hall c ⟨cs, hcs, hc⟩

/-- Under a lawful valuation the value of a compiled filter is the meaning of the filter, if a
constraint is met whenever its expression is true. -/
theorem Filter.value_compile_iff {b : Backend E} {ev : E → Bool} (h : b.Lawful ev) {shape : Shape}
    (f : Filter shape) :
    (f.compile b).value ev = true ↔ f.Holds fun c ↦ ev (b.constraint c) = true := by
  induction f using Filter.induct with
  | node f hand hor hnot =>
    have hclause : (Predicate.all b [f.own.predicate b, .all b (f.and.map (compile b)),
        .negate b (f.not.map (compile b))]).value ev = true ↔
        (∀ c, f.own.Sets shape.fields c → ev (b.constraint c) = true) ∧
          (∀ g ∈ f.and, (g.compile b).value ev = true) ∧
            ∀ g ∈ f.not, ¬(g.compile b).value ev = true := by
      rw [Predicate.value_all_iff h]
      simp only [List.forall_mem_cons, List.not_mem_nil, false_implies, implies_true, and_true,
        Slots.value_predicate_iff h, Predicate.value_all_iff h, Predicate.value_negate_iff h,
        List.forall_mem_map, Option.forall_mem_map]
    have halternatives : (Predicate.any b (f.or.map (compile b))).value ev = true ↔
        ∃ g ∈ f.or, (g.compile b).value ev = true := by
      simp only [Predicate.value_any_iff h, List.mem_map, exists_exists_and_eq_and]
    rw [compile_eq, compileNode, Predicate.value_or h, Bool.or_eq_true, hclause, halternatives,
      holds_iff]
    refine or_congr (and_congr_right fun _ ↦ and_congr ?_ ?_) ?_
    · exact forall₂_congr hand
    · exact forall₂_congr fun g hg ↦ not_congr (hnot g hg)
    · exact exists_congr fun g ↦ and_congr_right (hor g)

/-! ### The order of instants -/

/-- Comparing days is a total preorder. -/
instance : Std.TransOrd Date :=
  inferInstanceAs (Std.TransCmp (compareLex (compareOn Date.year)
    (compareLex (compareOn Date.month) (compareOn Date.day))))

/-- Comparing instants is a total preorder. -/
instance : Std.TransOrd Instant :=
  inferInstanceAs (Std.TransCmp (compareLex (compareOn Instant.date)
    (compareLex (compareOn Instant.minute)
      (compareLex (compareOn Instant.second) (compareOn Instant.nanosecond)))))

namespace Instant

/-- The parts of an instant, from the year down to the nanosecond. -/
def parts (t : Instant) : List Int :=
  [t.date.year, t.date.month, t.date.day, t.minute, t.second, t.nanosecond]

/-- The first instant lies before the second one: it is smaller in the first part in which the two
differ. -/
def Before (t u : Instant) : Prop := t.parts < u.parts

/-- Instants are compared part by part. -/
theorem compare_eq_then (t u : Instant) :
    compare t u =
      ((compare t.date.year u.date.year).then
          ((compare t.date.month u.date.month).then (compare t.date.day u.date.day))).then
        ((compare t.minute u.minute).then
          ((compare t.second u.second).then (compare t.nanosecond u.nanosecond))) :=
  rfl

theorem compare_eq_lt_iff {t u : Instant} : compare t u = .lt ↔ t.Before u := by
  simp only [compare_eq_then, Ordering.then_eq_lt, Ordering.then_eq_eq, Int.compare_eq_lt,
    Int.compare_eq_eq, Nat.compare_eq_lt, Nat.compare_eq_eq, Before, parts, List.cons_lt_cons_iff,
    List.not_lt_nil, Int.ofNat_lt, Int.natCast_inj, or_assoc, and_assoc, and_or_left, and_false,
    or_false]

theorem compare_eq_gt_iff {t u : Instant} : compare t u = .gt ↔ u.Before t :=
  Std.OrientedCmp.gt_iff_lt.trans compare_eq_lt_iff

/-- Only equal instants compare equal. -/
theorem compare_eq_eq_iff {t u : Instant} : compare t u = .eq ↔ t = u := by
  obtain ⟨⟨year, month, day, _, _⟩, minute, second, nanosecond, _, _, _⟩ := t
  obtain ⟨⟨year', month', day', _, _⟩, minute', second', nanosecond', _, _, _⟩ := u
  simp only [compare_eq_then, Ordering.then_eq_eq, Int.compare_eq_eq, Nat.compare_eq_eq, mk.injEq,
    Date.mk.injEq]

end Instant

/-! ### Records in memory -/

/-- The value lies in the bound. Texts are upper-cased if the bound ignores case. -/
def Test.Admits : Test → Value → Prop
  | .equals value false, .text s => s = value
  | .equals value true, .text s => Text.uppercase s = Text.uppercase value
  | .contains value false, .text s => value.toList <:+: s.toList
  | .contains value true, .text s =>
    (Text.uppercase value).toList <:+: (Text.uppercase s).toList
  | .integer .equal value, .integer n => n = value
  | .integer .lessThan value, .integer n => n < value
  | .integer .greaterThan value, .integer n => value < n
  | .moment .equal value, .moment t => t = value
  | .moment .lessThan value, .moment t => t.Before value
  | .moment .greaterThan value, .moment t => value.Before t
  | .flag value, .flag b => b = value
  | _, _ => False

/-- The record has a value in the field, and the value lies in the bound. -/
def Constraint.Meets {R : Type} [Record R] (r : R) (c : Constraint) : Prop :=
  ∃ v, Record.field r c.field = some v ∧ c.test.Admits v

/-- A text occurs in a text if it is a block of neighbouring characters of it. -/
theorem Text.contains_iff (s needle : String) :
    Text.contains s needle = true ↔ needle.toList <:+: s.toList :=
  Text.occurs_iff needle.toList s.toList

/-- A value passes a test if it lies in the bound. -/
theorem Test.accepts_iff_admits (t : Test) (v : Value) : t.accepts v = true ↔ t.Admits v := by
  cases t with
  | equals value ignoreCase =>
    cases v with
    | text s => cases ignoreCase <;> exact beq_iff_eq
    | _ => simp [Test.accepts, Test.Admits]
  | contains value ignoreCase =>
    cases v with
    | text s => cases ignoreCase <;> exact Text.contains_iff _ _
    | _ => simp [Test.accepts, Test.Admits]
  | integer comparison value =>
    cases v with
    | integer n =>
      cases comparison with
      | equal =>
        rw [Test.accepts, Comparison.accepts, Ordering.isEq_iff_eq_eq, Int.compare_eq_eq,
          Int64.toInt_inj, Test.Admits]
      | lessThan =>
        rw [Test.accepts, Comparison.accepts, Ordering.isLT_iff_eq_lt, Int.compare_eq_lt,
          ← Int64.lt_iff_toInt_lt, Test.Admits]
      | greaterThan =>
        rw [Test.accepts, Comparison.accepts, Ordering.isGT_iff_eq_gt, Int.compare_eq_gt,
          ← Int64.lt_iff_toInt_lt, Test.Admits]
    | _ => simp [Test.accepts, Test.Admits]
  | moment comparison value =>
    cases v with
    | moment t =>
      cases comparison with
      | equal =>
        rw [Test.accepts, Comparison.holds, Comparison.accepts, Ordering.isEq_iff_eq_eq,
          Instant.compare_eq_eq_iff, Test.Admits]
      | lessThan =>
        rw [Test.accepts, Comparison.holds, Comparison.accepts, Ordering.isLT_iff_eq_lt,
          Instant.compare_eq_lt_iff, Test.Admits]
      | greaterThan =>
        rw [Test.accepts, Comparison.holds, Comparison.accepts, Ordering.isGT_iff_eq_gt,
          Instant.compare_eq_gt_iff, Test.Admits]
    | _ => simp [Test.accepts, Test.Admits]
  | flag value =>
    cases v with
    | flag b => exact beq_iff_eq
    | _ => simp [Test.accepts, Test.Admits]

/-- The check of a constraint succeeds on the records that meet it. -/
theorem Constraint.holds_iff_meets {R : Type} [Record R] (c : Constraint) (r : R) :
    c.holds r = true ↔ c.Meets r := by
  unfold Constraint.holds Constraint.Meets
  cases Record.field r c.field with
  | none => simp
  | some v => simp [Test.accepts_iff_admits]

/-- A record meets a compiled filter if the filter is satisfied by the constraints that the record
meets. -/
theorem Filter.accepts_compile_iff {R : Type} [Record R] {shape : Shape} (f : Filter shape)
    (r : R) : (f.compile (Matcher.backend R)).accepts r = true ↔ f.Holds (Constraint.Meets r) := by
  have hmet : (fun c ↦ (Matcher.backend R).constraint c r = true) = Constraint.Meets r :=
    funext fun c ↦ propext (c.holds_iff_meets r)
  rw [Predicate.accepts_eq_value, Filter.value_compile_iff (Matcher.lawful r), hmet]

/-! ### Compiling is correct -/

/-- A filter compiles to its meaning. Assumes: a valuation of the expressions of a backend under
which its connectives are those of truth values. The value of the compiled filter is the meaning of
the filter when a constraint is met whenever its expression is true; without a filter the predicate
is the one that holds always; and in memory a record meets the compiled filter if the filter is
satisfied by the constraints that the record meets. -/
theorem Filter.value_compileOption {b : Backend E} {ev : E → Bool} (h : b.Lawful ev) {shape : Shape}
    (f : Filter shape) :
    ((compileOption b (some f)).value ev = true ↔ f.Holds fun c ↦ ev (b.constraint c) = true) ∧
      compileOption b (none : Option (Filter shape)) = .always ∧
        ∀ {R : Type} [Record R] (r : R),
          (compileOption (Matcher.backend R) (some f)).accepts r = true ↔
            f.Holds (Constraint.Meets r) :=
  ⟨value_compile_iff h f, rfl, fun r ↦ accepts_compile_iff f r⟩

/-! ### A small table -/

/-- A record that is nothing but its cells. -/
structure Row where
  /-- The value of a field, if there is one. -/
  cell : String → Option Value

instance : Record Row where
  field r := r.cell

namespace Courses

/-- The courses have a title and a number of seats. -/
def shape : Shape := ⟨[⟨"title", "title", .text⟩, ⟨"seats", "seats", .integer⟩]⟩

/-- A node with leaf filters and no children. -/
def leaves (title : Option TextFilter) (seats : Option IntegerFilter) : Filter shape :=
  ⟨(title, seats, ()), [], [], none⟩

/-- Courses with `b` in their title that are not called `abc`, and those with less than 3 seats. -/
def popular : Filter shape :=
  { leaves (some { contains := some "b" }) none with
    or := [leaves none (some { lessThan := some 3 })]
    not := some (leaves (some { equals := some "abc" }) none) }

/-- A course with a title and, if it is known, a number of seats. -/
def row (title : String) (seats : Option Int64) : Row where
  cell name :=
    if name = "title" then some (.text title)
    else if name = "seats" then seats.map .integer
    else none

end Courses

/-- A course called `bac` of unknown size is a popular one. -/
theorem Filter.value_compileOption_popular :
    (Matcher.backend Row).Lawful (· (Courses.row "bac" none)) ∧
      Courses.popular.Holds (Constraint.Meets (Courses.row "bac" none)) :=
  ⟨Matcher.lawful _, ((value_compileOption (Matcher.lawful (Courses.row "bac" none))
    Courses.popular).2.2 (Courses.row "bac" none)).mp (by decide)⟩

end Listing
