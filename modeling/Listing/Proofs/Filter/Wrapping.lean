import Listing.Proofs.Predicate.Folds
import Mathlib.Algebra.Group.Nat.Even
import Mathlib.Data.List.DropRight

/-!
# Filters in wrappers

A filter can be wrapped again and again, each time as the only child of an otherwise empty node.
Each wrapper adds one node and one level.

What a wrapper does to the predicate depends on the clause alone (`Filter.compile_wrap`): `and`
leaves it as it is, `not` negates it, and `or` makes it hold always, since the node itself asks for
nothing and its child is no more than an alternative. Of the wrappers inside the last `or` nothing
is left, and those around it negate the constant `always` (`Predicate.foldl_wrap_of_mem`); without
`or` the wrappers negate the predicate of the filter (`Predicate.foldl_wrap_of_not_mem`).
-/

set_option autoImplicit false
set_option relaxedAutoImplicit false

namespace Listing

variable {E : Type} (b : Backend E)

/-! ### One wrapper -/

section Wrapper

variable {shape : Shape}

/-- Slots without leaf filters ask for nothing. -/
theorem Slots.predicate_empty : (Slots.empty shape.fields).predicate b = .always := by
  have hempty : ∀ fs : List FieldSpec, ∀ cs ∈ (Slots.empty fs).constraints fs, cs = [] := by
    intro fs
    induction fs with
    | nil => exact nofun
    | cons f fs ih => exact List.forall_mem_cons.mpr ⟨rfl, ih⟩
  rw [predicate, Predicate.all_eq_always_iff, List.forall_mem_map]
  intro cs hcs
  rw [hempty shape.fields cs hcs]
  rfl

/-- The predicate of a wrapped filter from that of the filter. -/
def Predicate.wrap (p : Predicate E) : Filter.Clause → Predicate E
  | .and => p
  | .or => .always
  | .not => p.not b

namespace Filter

/-- A wrapper does to the predicate what its clause says. -/
theorem compile_wrap (f : Filter shape) (clause : Clause) :
    (f.wrap clause).compile b = (f.compile b).wrap b clause := by
  rw [compile_eq]
  cases clause <;>
    simp [Filter.wrap, empty, compileNode, Slots.predicate_empty, Predicate.wrap, Predicate.all,
      Predicate.any, Predicate.negate]

/-- A wrapper is one more node. -/
theorem nodeCount_wrap (f : Filter shape) (clause : Clause) :
    (f.wrap clause).nodeCount = f.nodeCount + 1 := by
  rw [nodeCount, fold_eq, ← nodeCount, Nat.add_comm]
  cases clause <;> rfl

/-- A wrapper is one more level. -/
theorem depth_wrap (f : Filter shape) (clause : Clause) :
    (f.wrap clause).depth = f.depth + 1 := by
  rw [depth, fold_eq, ← depth, Nat.add_comm]
  refine congrArg (· + 1) ?_
  cases clause <;> exact Nat.max_zero f.depth

end Filter

end Wrapper

/-! ### Many wrappers -/

namespace Filter

variable {shape : Shape} (f : Filter shape) (clauses : List Clause)

/-- What grows by one with each wrapper grows by the number of wrappers. -/
theorem foldl_wrap_eq_add {size : Filter shape → Nat}
    (h : ∀ f clause, size (f.wrap clause) = size f + 1) :
    size (clauses.foldl wrap f) = size f + clauses.length := by
  induction clauses generalizing f with
  | nil => rfl
  | cons clause clauses ih =>
    rw [List.foldl_cons, ih, h, List.length_cons, Nat.add_assoc, Nat.add_comm 1]

/-- Wrapping a filter wraps its predicate. -/
theorem compile_foldl_wrap :
    (clauses.foldl wrap f).compile b = clauses.foldl (Predicate.wrap b) (f.compile b) :=
  (List.foldl_hom (compile b) fun f clause ↦ (compile_wrap b f clause).symm).symm

/-- How many of the wrappers around the last `or` are a `not`. -/
def negationsSinceOr (clauses : List Clause) : Nat :=
  (clauses.rtakeWhile (· ≠ .or)).count .not

theorem negationsSinceOr_concat_or : negationsSinceOr (clauses ++ [.or]) = 0 := by
  rw [negationsSinceOr, List.rtakeWhile_concat_neg _ _ _ (by decide)]
  rfl

theorem negationsSinceOr_concat {clause : Clause} (h : clause ≠ .or) :
    negationsSinceOr (clauses ++ [clause]) = negationsSinceOr clauses + [clause].count .not := by
  rw [negationsSinceOr, List.rtakeWhile_concat_pos _ _ _ (by simpa using h),
    List.count_append]
  rfl

end Filter

namespace Predicate

variable {clauses : List Filter.Clause} (p : Predicate E)

/-- Wrappers without `or` negate a predicate as often as there is a `not`. -/
theorem foldl_wrap_of_not_mem (h : .or ∉ clauses) :
    clauses.foldl (wrap b) p = (Predicate.not b)^[clauses.count .not] p := by
  induction clauses generalizing p with
  | nil => rfl
  | cons clause clauses ih =>
    obtain ⟨hclause, hclauses⟩ := not_or.mp (mt List.mem_cons.mpr h)
    rw [List.foldl_cons, ih _ hclauses]
    cases clause with
    | and => rfl
    | or => exact absurd rfl hclause
    | not => rw [List.count_cons_self, Function.iterate_succ_apply, wrap]

/-- Wrappers with an `or` make a constant of every predicate, by the wrappers around the last
`or`. -/
theorem foldl_wrap_of_mem (h : .or ∈ clauses) :
    clauses.foldl (wrap b) p =
      if Even (Filter.negationsSinceOr clauses) then always else never := by
  -- The last wrapper is the outermost one, so the induction goes from the right.
  induction clauses using List.reverseRecOn with
  | nil => exact nomatch h
  | append_singleton clauses clause ih =>
    have hclauses (hlast : clause ≠ .or) : .or ∈ clauses :=
      (List.mem_append.mp h).resolve_right fun hor ↦ hlast (List.mem_singleton.mp hor).symm
    rw [List.foldl_append, List.foldl_cons, List.foldl_nil]
    cases clause with
    | or => rw [Filter.negationsSinceOr_concat_or, if_pos Even.zero, wrap]
    | and =>
      have hcount : Filter.negationsSinceOr (clauses ++ [.and]) =
          Filter.negationsSinceOr clauses := Filter.negationsSinceOr_concat clauses nofun
      rw [hcount, wrap, ih (hclauses nofun)]
    | not =>
      have hcount : Filter.negationsSinceOr (clauses ++ [.not]) =
          Filter.negationsSinceOr clauses + 1 := Filter.negationsSinceOr_concat clauses nofun
      rw [hcount, wrap, ih (hclauses nofun)]
      by_cases heven : Even (Filter.negationsSinceOr clauses)
      · rw [if_pos heven, if_neg fun hodd ↦ Nat.even_add_one.mp hodd heven]
        rfl
      · rw [if_neg heven, if_pos (Nat.even_add_one.mpr heven)]
        rfl

variable {b}

/-- Negating many times negates the value as often. -/
theorem value_iterate_not {ev : E → Bool} (hev : b.Lawful ev) (n : Nat) :
    ((Predicate.not b)^[n] p).value ev = (!·)^[n] (p.value ev) := by
  have hsemiconj : Function.Semiconj (value ev) (Predicate.not b) (!·) := value_not hev
  exact hsemiconj.iterate_right n p

/-- Negating makes constants of constants, and of nothing else. -/
theorem isSome_constant?_iterate_not (n : Nat) :
    ((Predicate.not b)^[n] p).constant?.isSome = p.constant?.isSome := by
  have hnot : ∀ p : Predicate E, (p.not b).constant?.isSome = p.constant?.isSome := by
    intro p
    cases p <;> rfl
  induction n with
  | zero => rfl
  | succ n ih => rw [Function.iterate_succ_apply', hnot, ih]

end Predicate

namespace Filter

variable {shape : Shape}

/-- A filter in wrappers has a node and a level more for each of them. If one of the wrappers is an
`or`, then it is compiled to a constant, whatever the filter is: the one that holds always, unless
the number of negations around the last `or` is odd. Otherwise its value under every lawful
valuation is that of the filter, negated for each `not`, and it is compiled to a constant exactly if
the filter is. -/
theorem compile_in_wrappers (f : Filter shape) (clauses : List Clause) :
    (clauses.foldl wrap f).nodeCount = f.nodeCount + clauses.length ∧
      (clauses.foldl wrap f).depth = f.depth + clauses.length ∧
      (.or ∈ clauses → (clauses.foldl wrap f).compile b =
        if Even (negationsSinceOr clauses) then .always else .never) ∧
      (.or ∉ clauses →
        (∀ ev, b.Lawful ev → ((clauses.foldl wrap f).compile b).value ev =
          (!·)^[clauses.count .not] ((f.compile b).value ev)) ∧
        ((clauses.foldl wrap f).compile b).constant?.isSome =
          (f.compile b).constant?.isSome) := by
  refine ⟨foldl_wrap_eq_add f clauses nodeCount_wrap, foldl_wrap_eq_add f clauses depth_wrap,
    ?_, ?_⟩
  · intro h
    rw [compile_foldl_wrap, Predicate.foldl_wrap_of_mem b _ h]
  · intro h
    rw [compile_foldl_wrap, Predicate.foldl_wrap_of_not_mem b _ h]
    exact ⟨fun ev hev ↦ Predicate.value_iterate_not _ hev _,
      Predicate.isSome_constant?_iterate_not _ _⟩

/-- A course called `bac` is a popular one, so it is none that is not, in however many wrappers; and
no course is left if an alternative to nothing is negated an odd number of times. -/
theorem compile_in_wrappers_popular :
    (Matcher.backend Row).Lawful (· (Courses.row "bac" none)) ∧
      .or ∉ [Clause.not, .and, .not, .not] ∧
      (([Clause.not, .and, .not, .not].foldl wrap Courses.popular).compile
        (Matcher.backend Row)).value (· (Courses.row "bac" none)) = false ∧
      .or ∈ [Clause.not, .or, .not, .and, .not, .not] ∧
      ([Clause.not, .or, .not, .and, .not, .not].foldl wrap Courses.popular).compile
        (Matcher.backend Row) = .never := by
  have hlawful := Matcher.lawful (Courses.row "bac" none)
  have hpopular : (Courses.popular.compile (Matcher.backend Row)).value
      (· (Courses.row "bac" none)) = true := by decide
  obtain ⟨-, -, -, hnegated⟩ := compile_in_wrappers (Matcher.backend Row) Courses.popular
    [Clause.not, .and, .not, .not]
  obtain ⟨-, -, hconstant, -⟩ := compile_in_wrappers (Matcher.backend Row) Courses.popular
    [Clause.not, .or, .not, .and, .not, .not]
  refine ⟨hlawful, by decide, ?_, by decide, hconstant (by decide)⟩
  rw [(hnegated (by decide)).1 _ hlawful, hpopular]
  rfl

end Filter

end Listing
