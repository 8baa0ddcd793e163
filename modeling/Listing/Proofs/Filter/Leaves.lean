import Listing.Proofs.Filter.Tree
import Listing.Proofs.Predicate.Folds
import Listing.Proofs.Sql.Binding
import Mathlib.Data.List.Flatten
import Mathlib.Data.List.ReduceOption

/-!
# The constraints of a compiled filter

`Filter.setBounds` lists the bounds that a filter sets, depth first: those of the node in the order
in which they are declared, then those of the `and` children, of the `not` child and of the `or`
children. It is read off the tree, without looking at how a filter is compiled.

A compiled filter is made of these bounds and of nothing else. Where a constant absorbs a fold,
bounds get lost, but the ones that are left keep their order and none occurs more often than it is
set. A fold that no constant absorbs keeps all the constraints of its members
(`Predicate.IsFold.constraints_eq`), so none is lost if every node sets a bound itself
(`Filter.Bounded`): then no node compiles to a constant.
-/

set_option autoImplicit false
set_option relaxedAutoImplicit false

namespace Listing

variable {E : Type} {shape : Shape}

/-! ### The bounds of a filter -/

/-- The bounds that a leaf filter has, in the order of their declaration, each with its test if it
is set. -/
def Kind.bounds : (k : Kind) → k.Leaf → List (Option Test)
  | .text, (f : TextFilter) =>
    [f.equals.map (.equals · f.ignoreCase), f.contains.map (.contains · f.ignoreCase)]
  | .integer, (f : IntegerFilter) =>
    [f.equals.map (.integer .equal), f.lessThan.map (.integer .lessThan),
      f.greaterThan.map (.integer .greaterThan)]
  | .moment, (f : MomentFilter) =>
    [f.equals.map (.moment .equal), f.before.map (.moment .lessThan),
      f.after.map (.moment .greaterThan)]
  | .flag, b => [some (.flag b)]

/-- The bounds that the slots set, field by field. -/
def Slots.setBounds : (fs : List FieldSpec) → Slots fs → List Constraint
  | [], _ => []
  | f :: fs, (leaf, rest) =>
    leaf.elim [] (fun l ↦ (f.kind.bounds l).reduceOption.map (Constraint.mk f.name)) ++
      setBounds fs rest

namespace Filter

/-- The bounds that the whole tree sets, depth first: those of the node, of its `and` children, of
its `not` child and of its `or` children. -/
def setBounds : Filter shape → List Constraint := fold fun own and or not ↦
  own.setBounds shape.fields ++ and.flatten ++ not.getD [] ++ or.flatten

/-- The bounds of a node and those of its children. -/
theorem setBounds_eq (f : Filter shape) :
    f.setBounds = f.own.setBounds shape.fields ++ f.and.flatMap setBounds ++
      (f.not.map setBounds).getD [] ++ f.or.flatMap setBounds :=
  fold_eq _ f

/-- Every node of the tree sets a bound itself. -/
def Bounded : Filter shape → Prop := fold fun own and or not ↦
  own.setBounds shape.fields ≠ [] ∧ (∀ p ∈ and, p) ∧ (∀ p ∈ or, p) ∧ ∀ p ∈ not, p

/-- Every node sets a bound if the node does and all nodes below its children do. -/
theorem bounded_iff {f : Filter shape} :
    f.Bounded ↔ f.own.setBounds shape.fields ≠ [] ∧ (∀ g ∈ f.and, g.Bounded) ∧
      (∀ g ∈ f.or, g.Bounded) ∧ ∀ g ∈ f.not, g.Bounded := by
  rw [Bounded, fold_eq, ← Bounded]
  simp only [List.forall_mem_map, Option.forall_mem_map]

end Filter

/-- The tests of a leaf filter are its bounds that are set. -/
theorem Kind.tests_eq (k : Kind) (leaf : k.Leaf) : k.tests leaf = (k.bounds leaf).reduceOption := by
  cases k with
  | text =>
    obtain ⟨equals, contains, ignoreCase⟩ := (leaf : TextFilter)
    cases equals <;> cases contains <;> rfl
  | integer =>
    obtain ⟨equals, lessThan, greaterThan⟩ := (leaf : IntegerFilter)
    cases equals <;> cases lessThan <;> cases greaterThan <;> rfl
  | moment =>
    obtain ⟨equals, before, after⟩ := (leaf : MomentFilter)
    cases equals <;> cases before <;> cases after <;> rfl
  | flag => rfl

/-- The constraints of the slots are the bounds that they set. -/
theorem Slots.flatten_constraints (fs : List FieldSpec) (s : Slots fs) :
    (s.constraints fs).flatten = s.setBounds fs := by
  induction fs with
  | nil => rfl
  | cons f fs ih =>
    obtain ⟨leaf, rest⟩ := s
    rw [constraints, List.flatten_cons, ih rest, setBounds]
    refine congrArg (· ++ setBounds fs rest) ?_
    cases leaf with
    | none => rfl
    | some leaf => rw [constraintsOf, Kind.tests_eq, Option.elim]

/-! ### The constraints of a fold -/

namespace Predicate

/-- The constraints of a predicate, from left to right; the constants have none. -/
def constraints : Predicate Formula → List Constraint
  | always => []
  | never => []
  | expr f => f.constraints

section Fold

variable {join : Formula → Formula → Formula} {neutral absorbing p : Predicate Formula}
  {ps : List (Predicate Formula)}

/-- Assumes: joining two formulas puts their constraints side by side, and the neutral constant has
none. Then joining formulas from the left does so with the constraints of all of them. -/
theorem constraints_joinLeft
    (hjoin : ∀ f g, (join f g).constraints = f.constraints ++ g.constraints)
    (hneutral : neutral.constraints = []) (fs : List Formula) :
    (joinLeft join neutral fs).constraints = fs.flatMap Formula.constraints := by
  have hfoldl : ∀ (f : Formula) (gs : List Formula),
      (gs.foldl join f).constraints = f.constraints ++ gs.flatMap Formula.constraints := by
    intro f gs
    induction gs generalizing f with
    | nil => exact (List.append_nil _).symm
    | cons g gs ih => rw [List.foldl_cons, ih, hjoin, List.append_assoc, List.flatMap_cons]
  cases fs with
  | nil => exact hneutral
  | cons f fs => exact hfoldl f fs

/-- The constraints of predicates are those of their expressions. -/
theorem flatMap_filterMap_expr? (ps : List (Predicate Formula)) :
    (ps.filterMap expr?).flatMap Formula.constraints = ps.flatMap constraints := by
  induction ps with
  | nil => rfl
  | cons p ps ih =>
    rw [List.flatMap_cons, ← ih]
    cases p <;> rfl

/-- Assumes: a fold that joins formulas with all their constraints, and that is not absorbed. It has
the constraints of its members, one member after the other. -/
theorem IsFold.constraints_eq (h : IsFold join neutral absorbing ps p)
    (hjoin : ∀ f g, (join f g).constraints = f.constraints ++ g.constraints)
    (hneutral : neutral.constraints = []) (habsorbing : absorbing ∉ ps) :
    p.constraints = ps.flatMap constraints := by
  rw [h.eq_joinLeft habsorbing, constraints_joinLeft hjoin hneutral, flatMap_filterMap_expr?]

/-- Assumes: a fold that joins formulas with all their constraints, and two constants without any.
Absorbed or not, the fold has no others than its members have, and in their order. -/
theorem IsFold.constraints_sublist (h : IsFold join neutral absorbing ps p)
    (hjoin : ∀ f g, (join f g).constraints = f.constraints ++ g.constraints)
    (hneutral : neutral.constraints = []) (habsorbing : absorbing.constraints = []) :
    p.constraints.Sublist (ps.flatMap constraints) := by
  by_cases hmem : absorbing ∈ ps
  · rw [h.eq_absorbing_iff.mpr hmem, habsorbing]
    exact List.nil_sublist _
  · rw [h.constraints_eq hjoin hneutral hmem]

end Fold

/-- A conjunction has no other constraints than its members, and in their order. -/
theorem constraints_all_sublist (ps : List (Predicate Formula)) :
    (all Formula.backend ps).constraints.Sublist (ps.flatMap constraints) :=
  (isFold_all Formula.backend ps).constraints_sublist (fun _ _ ↦ rfl) rfl rfl

/-- A disjunction has no other constraints than its members, and in their order. -/
theorem constraints_any_sublist (ps : List (Predicate Formula)) :
    (any Formula.backend ps).constraints.Sublist (ps.flatMap constraints) :=
  (isFold_any Formula.backend ps).constraints_sublist (fun _ _ ↦ rfl) rfl rfl

/-- A conjunction without `never` keeps all the constraints. -/
theorem constraints_all {ps : List (Predicate Formula)} (h : never ∉ ps) :
    (all Formula.backend ps).constraints = ps.flatMap constraints :=
  (isFold_all Formula.backend ps).constraints_eq (fun _ _ ↦ rfl) rfl h

/-- A disjunction without `always` keeps all the constraints. -/
theorem constraints_any {ps : List (Predicate Formula)} (h : always ∉ ps) :
    (any Formula.backend ps).constraints = ps.flatMap constraints :=
  (isFold_any Formula.backend ps).constraints_eq (fun _ _ ↦ rfl) rfl h

/-- A negation keeps the constraints. -/
theorem constraints_negate (p : Option (Predicate Formula)) :
    (negate Formula.backend p).constraints = (p.map constraints).getD [] := by
  cases p with
  | none => rfl
  | some p => cases p <;> rfl

/-- The disjunction of two predicates as that of a list. -/
theorem any_pair (b : Backend E) (p q : Predicate E) : any b [p, q] = or b p q := by
  rw [any, List.foldl_cons, List.foldl_cons, List.foldl_nil, never_or]

/-- A conjunction of constraints is not the constant `never`. -/
theorem ofConstraints_ne_never (b : Backend E) (cs : List Constraint) :
    ofConstraints b cs ≠ never := by
  intro h
  obtain ⟨c, -, hc⟩ := List.mem_map.mp ((all_eq_never_iff b).mp h)
  exact nomatch hc

/-- A conjunction of constraints has these constraints. -/
theorem constraints_ofConstraints (cs : List Constraint) :
    (ofConstraints Formula.backend cs).constraints = cs := by
  have hnever : never ∉ cs.map fun c ↦ expr (Formula.backend.constraint c) := by simp
  rw [ofConstraints, constraints_all hnever, List.flatMap_map]
  exact List.flatMap_singleton' cs

end Predicate

/-! ### The constraints of a compiled filter -/

namespace Slots

variable (b : Backend E) (own : Slots shape.fields)

theorem predicate_ne_never : own.predicate b ≠ .never := by
  intro h
  obtain ⟨cs, -, hcs⟩ := List.mem_map.mp ((Predicate.all_eq_never_iff b).mp h)
  exact Predicate.ofConstraints_ne_never b cs hcs

/-- Slots that set a bound do not hold always. -/
theorem predicate_ne_always (h : own.setBounds shape.fields ≠ []) : own.predicate b ≠ .always := by
  intro hpredicate
  refine h ?_
  rw [← flatten_constraints, List.flatten_eq_nil_iff]
  intro cs hcs
  have hall := (Predicate.all_eq_always_iff b).mp hpredicate _ (List.mem_map_of_mem hcs)
  have hnone := (Predicate.all_eq_always_iff b).mp hall
  cases cs with
  | nil => rfl
  | cons c cs => exact nomatch hnone _ (List.mem_map_of_mem List.mem_cons_self)

/-- The predicate of the slots has the bounds that they set. -/
theorem constraints_predicate :
    (own.predicate Formula.backend).constraints = own.setBounds shape.fields := by
  have hnever : .never ∉ (own.constraints shape.fields).map
      (Predicate.ofConstraints Formula.backend) := by
    intro h
    obtain ⟨cs, -, hcs⟩ := List.mem_map.mp h
    exact Predicate.ofConstraints_ne_never _ cs hcs
  rw [predicate, Predicate.constraints_all hnever, List.flatMap_map, ← flatten_constraints]
  simp only [Predicate.constraints_ofConstraints, List.flatMap_id']

end Slots

namespace Filter

section Bounded

variable (b : Backend E)

/-- What a node asks for besides its alternatives. -/
def demand (f : Filter shape) : Predicate E :=
  .all b [f.own.predicate b, .all b (f.and.map (compile b)), .negate b (f.not.map (compile b))]

/-- A filter asks for what its node demands, or for one of the alternatives. -/
theorem compile_eq_any (f : Filter shape) :
    f.compile b = .any b [f.demand b, .any b (f.or.map (compile b))] := by
  rw [Predicate.any_pair]
  exact f.compile_eq b

/-- No constant absorbs a fold at the node. -/
structure Unabsorbed (f : Filter shape) : Prop where
  and : .never ∉ f.and.map (compile b)
  demand : .never ∉ [f.own.predicate b, .all b (f.and.map (compile b)),
    .negate b (f.not.map (compile b))]
  or : .always ∉ f.or.map (compile b)
  whole : .always ∉ [f.demand b, .any b (f.or.map (compile b))]

variable {f : Filter shape}

/-- Assumes: a node that sets a bound itself and children that are not compiled to constants. Then
no constant absorbs a fold at the node. -/
theorem unabsorbed (hown : f.own.setBounds shape.fields ≠ [])
    (hand : ∀ g ∈ f.and, g.compile b ≠ .always ∧ g.compile b ≠ .never)
    (hor : ∀ g ∈ f.or, g.compile b ≠ .always ∧ g.compile b ≠ .never)
    (hnot : ∀ g ∈ f.not, g.compile b ≠ .always ∧ g.compile b ≠ .never) : f.Unabsorbed b := by
  have handList : .never ∉ f.and.map (compile b) := by
    intro h
    obtain ⟨g, hg, hnever⟩ := List.mem_map.mp h
    exact (hand g hg).2 hnever
  have horList : .always ∉ f.or.map (compile b) := by
    intro h
    obtain ⟨g, hg, halways⟩ := List.mem_map.mp h
    exact (hor g hg).1 halways
  have hnotChild : Predicate.negate b (f.not.map (compile b)) ≠ .never := by
    rcases hchild : f.not with _ | g
    · exact nofun
    · exact fun h ↦ (hnot g hchild).1 (Predicate.not_eq_never_iff.mp h)
  refine ⟨handList, ?_, horList, ?_⟩
  · rw [List.mem_cons, List.mem_cons, List.mem_singleton]
    rintro (hnever | hnever | hnever)
    · exact f.own.predicate_ne_never b hnever.symm
    · exact handList ((Predicate.all_eq_never_iff b).mp hnever.symm)
    · exact hnotChild hnever.symm
  · rw [List.mem_cons, List.mem_singleton]
    rintro (halways | halways)
    · -- The bounds of the node are among what it demands.
      exact f.own.predicate_ne_always b hown
        ((Predicate.all_eq_always_iff b).mp halways.symm _ List.mem_cons_self)
    · exact horList ((Predicate.any_eq_always_iff b).mp halways.symm)

/-- A node at which nothing is absorbed is not compiled to a constant. -/
theorem Unabsorbed.compile_ne (h : f.Unabsorbed b) :
    f.compile b ≠ .always ∧ f.compile b ≠ .never := by
  rw [compile_eq_any]
  constructor
  · exact fun halways ↦ h.whole ((Predicate.any_eq_always_iff b).mp halways)
  · intro hnever
    have hdemand := (Predicate.any_eq_never_iff b).mp hnever _ List.mem_cons_self
    exact h.demand ((Predicate.all_eq_never_iff b).mp hdemand)

/-- If every node sets a bound, then no constant absorbs a fold at the root. -/
theorem Bounded.unabsorbed (h : f.Bounded) : f.Unabsorbed b := by
  induction f using Filter.induct with
  | node f hand hor hnot =>
    obtain ⟨hown, handBounded, horBounded, hnotBounded⟩ := bounded_iff.mp h
    exact Filter.unabsorbed b hown (fun g hg ↦ (hand g hg (handBounded g hg)).compile_ne)
      (fun g hg ↦ (hor g hg (horBounded g hg)).compile_ne)
      (fun g hg ↦ (hnot g hg (hnotBounded g hg)).compile_ne)

end Bounded

/-- The constraints that are kept when a filter is compiled, from left to right. -/
def kept (f : Filter shape) : List Constraint := (f.compile Formula.backend).constraints

/-- The bounds of the node, and what its children keep. -/
def nodeBounds (f : Filter shape) : List Constraint :=
  f.own.setBounds shape.fields ++ f.and.flatMap kept ++ (f.not.map kept).getD [] ++
    f.or.flatMap kept

theorem flatMap_constraints_map_compile (fs : List (Filter shape)) :
    (fs.map (compile Formula.backend)).flatMap Predicate.constraints = fs.flatMap kept :=
  List.flatMap_map (compile Formula.backend) Predicate.constraints fs

theorem constraints_negate_compile (f : Option (Filter shape)) :
    (Predicate.negate Formula.backend (f.map (compile Formula.backend))).constraints =
      (f.map kept).getD [] := by
  rw [Predicate.constraints_negate, Option.map_map]
  rfl

/-- Whatever is absorbed at a node, its constraints keep their order. -/
theorem kept_sublist_nodeBounds (f : Filter shape) : f.kept.Sublist f.nodeBounds := by
  have hand := Predicate.constraints_all_sublist (f.and.map (compile Formula.backend))
  have hor := Predicate.constraints_any_sublist (f.or.map (compile Formula.backend))
  rw [flatMap_constraints_map_compile] at hand hor
  have hdemand : (f.demand Formula.backend).constraints.Sublist
      (f.own.setBounds shape.fields ++ f.and.flatMap kept ++ (f.not.map kept).getD []) := by
    refine (Predicate.constraints_all_sublist _).trans ?_
    simp only [List.flatMap_cons, List.flatMap_nil, List.append_nil, List.append_assoc,
      Slots.constraints_predicate, constraints_negate_compile]
    exact (List.Sublist.refl _).append (hand.append_right _)
  rw [kept, compile_eq_any]
  refine (Predicate.constraints_any_sublist _).trans ?_
  simp only [List.flatMap_cons, List.flatMap_nil, List.append_nil]
  exact hdemand.append hor

/-- A node at which nothing is absorbed keeps all its constraints. -/
theorem Unabsorbed.kept_eq {f : Filter shape} (h : f.Unabsorbed Formula.backend) :
    f.kept = f.nodeBounds := by
  have hdemand : (f.demand Formula.backend).constraints =
      f.own.setBounds shape.fields ++ f.and.flatMap kept ++ (f.not.map kept).getD [] := by
    rw [Filter.demand, Predicate.constraints_all h.demand]
    simp only [List.flatMap_cons, List.flatMap_nil, List.append_nil, List.append_assoc,
      Predicate.constraints_all h.and, Slots.constraints_predicate, constraints_negate_compile,
      flatMap_constraints_map_compile]
  rw [kept, compile_eq_any, Predicate.constraints_any h.whole]
  simp only [List.flatMap_cons, List.flatMap_nil, List.append_nil, hdemand,
    Predicate.constraints_any h.or, flatMap_constraints_map_compile, nodeBounds]

/-- A compiled filter has no other constraints than the bounds that the filter sets, in their
order. -/
theorem kept_sublist_setBounds (f : Filter shape) : f.kept.Sublist f.setBounds := by
  induction f using Filter.induct with
  | node f hand hor hnot =>
    have hnotChild : ((f.not.map kept).getD []).Sublist ((f.not.map setBounds).getD []) := by
      rcases hchild : f.not with _ | g
      · exact List.Sublist.refl []
      · exact hnot g hchild
    refine f.kept_sublist_nodeBounds.trans ?_
    rw [setBounds_eq, nodeBounds]
    exact (((List.Sublist.refl _).append (.flatMap_right f.and hand)).append hnotChild).append
      (.flatMap_right f.or hor)

/-- A filter whose nodes all set a bound is compiled to all of these bounds, in their order. -/
theorem Bounded.kept_eq_setBounds {f : Filter shape} (h : f.Bounded) :
    f.kept = f.setBounds := by
  induction f using Filter.induct with
  | node f hand hor hnot =>
    obtain ⟨-, handBounded, horBounded, hnotBounded⟩ := bounded_iff.mp h
    have hnotChild : f.not.map kept = f.not.map setBounds :=
      Option.map_congr fun g hg ↦ hnot g hg (hnotBounded g hg)
    rw [(h.unabsorbed Formula.backend).kept_eq, setBounds_eq, nodeBounds, hnotChild,
      List.flatMap_congr fun g hg ↦ hand g hg (handBounded g hg),
      List.flatMap_congr fun g hg ↦ hor g hg (horBounded g hg)]

/-- Compiling keeps bounds in their order. What a filter compiles to has no other constraints than
the bounds that the filter sets, none more often than it is set; and if every node sets a bound, it
is an expression with exactly these constraints. -/
theorem constraints_of_compile (f : Filter shape) :
    (f.compile Formula.backend).constraints.Sublist f.setBounds ∧
      (f.Bounded → ∃ formula, f.compile Formula.backend = .expr formula ∧
        formula.constraints = f.setBounds) := by
  refine ⟨f.kept_sublist_setBounds, fun h ↦ ?_⟩
  obtain ⟨halways, hnever⟩ := (h.unabsorbed Formula.backend).compile_ne
  have hconstraints : (f.compile Formula.backend).constraints = f.setBounds :=
    h.kept_eq_setBounds
  rcases hcompile : f.compile Formula.backend with _ | _ | formula
  · exact absurd hcompile halways
  · exact absurd hcompile hnever
  · rw [hcompile] at hconstraints
    exact ⟨formula, rfl, hconstraints⟩

end Filter

namespace Courses

/-- Popular courses with 5 seats, or those that the title alone speaks for. -/
def favourites : Filter Courses.shape :=
  { leaves none (some { equals := some 5 }) with
    and := [popular]
    or := [leaves (some { equals := some "abc", contains := some "b" }) none] }

end Courses

/-- The favourites are compiled to their bounds, one by one, though two of them are set twice. -/
theorem Filter.constraints_of_compile_favourites :
    Courses.favourites.Bounded ∧
      ∃ formula, Courses.favourites.compile Formula.backend = .expr formula ∧
        formula.constraints =
          [⟨"seats", .integer .equal 5⟩, ⟨"title", .contains "b" false⟩,
            ⟨"title", .equals "abc" false⟩, ⟨"seats", .integer .lessThan 3⟩,
            ⟨"title", .equals "abc" false⟩, ⟨"title", .contains "b" false⟩] := by
  have hleaves : ∀ {title seats}, Slots.setBounds Courses.shape.fields (title, seats, ()) ≠ [] →
      (Courses.leaves title seats).Bounded :=
    fun h ↦ bounded_iff.mpr ⟨h, nofun, nofun, nofun⟩
  have hpopular : Courses.popular.Bounded := by
    refine bounded_iff.mpr ⟨by decide, nofun, List.forall_mem_singleton.mpr ?_, ?_⟩
    · exact hleaves (by decide)
    · rintro _ ⟨⟩
      exact hleaves (by decide)
  have hbounded : Courses.favourites.Bounded :=
    bounded_iff.mpr ⟨by decide, List.forall_mem_singleton.mpr hpopular,
      List.forall_mem_singleton.mpr (hleaves (by decide)), nofun⟩
  exact ⟨hbounded, (constraints_of_compile Courses.favourites).2 hbounded⟩

end Listing
