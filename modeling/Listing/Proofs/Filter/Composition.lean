import Listing.Proofs.Filter.Simulation
import Listing.Proofs.Filter.Tree
import Listing.Proofs.Sql.Evaluation
import Listing.Filter.Compile

/-!
# Compositions of predicates

What can be built of constraints, the two constants and the connectives of predicates, as a tree:
`Composition.build` is the predicate of a backend and `Composition.truth` the truth value that it
should have for given values of the constraints. The filters are among the compositions
(`Filter.build_composition`).

A relation between the expressions of two backends that joining and negating keep relates what a
composition is built to for them (`Composition.build_related`). As conditions of a database,
compositions have the values that they should have (`Composition.truth_build`).
-/

set_option autoImplicit false
set_option relaxedAutoImplicit false

namespace Listing

open Sql (Atom Condition Dialect Truth)

/-! ### Constants as truth values -/

namespace Sql.Truth

theorem yes_and (t : Truth) : and yes t = t := by cases t <;> rfl

theorem and_yes (t : Truth) : and t yes = t := by cases t <;> rfl

theorem and_no (t : Truth) : and t no = no := by cases t <;> rfl

theorem no_or (t : Truth) : or no t = t := by cases t <;> rfl

theorem or_no (t : Truth) : or t no = t := by cases t <;> rfl

theorem or_yes (t : Truth) : or t yes = yes := by cases t <;> rfl

end Sql.Truth

/-! ### Compositions -/

/-- A tree of constraints, constants and connectives of predicates. -/
inductive Composition where
  | constraint (c : Constraint)
  | always
  | never
  | and (l r : Composition)
  | or (l r : Composition)
  | negate (p : Option Composition)
  | all (ps : List Composition)
  | any (ps : List Composition)

namespace Composition

section Build

variable {E : Type} (b : Backend E)

mutual

/-- The predicate of a composition. -/
def build : Composition → Predicate E
  | .constraint c => .expr (b.constraint c)
  | .always => .always
  | .never => .never
  | .and l r => .and b l.build r.build
  | .or l r => .or b l.build r.build
  | .negate p => .negate b (buildOption p)
  | .all ps => .all b (buildList ps)
  | .any ps => .any b (buildList ps)

/-- The predicates of a list. -/
def buildList : List Composition → List (Predicate E)
  | [] => []
  | p :: ps => p.build :: buildList ps

/-- The predicate of an optional composition. -/
def buildOption : Option Composition → Option (Predicate E)
  | none => none
  | some p => some p.build

end

theorem buildList_eq (ps : List Composition) : buildList b ps = ps.map (build b) := by
  induction ps with
  | nil => rfl
  | cons p ps ih => rw [buildList, ih, List.map_cons]

theorem buildOption_eq (p : Option Composition) : buildOption b p = p.map (build b) := by
  cases p <;> rfl

end Build

section Truth

variable (leaf : Constraint → Truth)

mutual

/-- The value of a composition from those of its constraints. -/
def truth : Composition → Truth
  | .constraint c => leaf c
  | .always => .yes
  | .never => .no
  | .and l r => l.truth.and r.truth
  | .or l r => l.truth.or r.truth
  | .negate none => .yes
  | .negate (some p) => p.truth.not
  | .all ps => (truths ps).foldl .and .yes
  | .any ps => (truths ps).foldl .or .no

/-- The values of a list. -/
def truths : List Composition → List Truth
  | [] => []
  | p :: ps => p.truth :: truths ps

end

end Truth

end Composition

/-! ### Two backends side by side -/

namespace Composition

variable {E F : Type} {b : Backend E} {b' : Backend F} {S : E → F → Prop}

mutual

/-- Assumes: a relation that joining and negating keep, and that relates the expressions of every
constraint. Then it relates what a composition is built to. -/
theorem build_related (hjoin : b.Joins b' S) (hnegate : b.Negates b' S)
    (hleaf : ∀ c, S (b.constraint c) (b'.constraint c)) :
    ∀ p : Composition, Predicate.Related S (p.build b) (p.build b')
  | .constraint c => .expr (hleaf c)
  | .always => .always
  | .never => .never
  | .and l r => (build_related hjoin hnegate hleaf l).and hjoin (build_related hjoin hnegate hleaf r)
  | .or l r => (build_related hjoin hnegate hleaf l).or hjoin (build_related hjoin hnegate hleaf r)
  | .negate none => .always
  | .negate (some p) => (build_related hjoin hnegate hleaf p).not hnegate
  | .all ps => .all hjoin (buildList_related hjoin hnegate hleaf ps)
  | .any ps => .any hjoin (buildList_related hjoin hnegate hleaf ps)

/-- The same for the compositions of a list. -/
theorem buildList_related (hjoin : b.Joins b' S) (hnegate : b.Negates b' S)
    (hleaf : ∀ c, S (b.constraint c) (b'.constraint c)) :
    ∀ ps : List Composition, List.Forall₂ (Predicate.Related S) (buildList b ps) (buildList b' ps)
  | [] => .nil
  | p :: ps =>
    .cons (build_related hjoin hnegate hleaf p) (buildList_related hjoin hnegate hleaf ps)

end

end Composition

/-! ### Values of conditions -/

namespace Predicate

variable (atom : Atom → Truth) (d : Dialect)

/-- The value of a predicate from those of the comparisons of its condition. -/
def truth : Predicate Condition → Truth
  | always => .yes
  | never => .no
  | expr c => c.value atom

/-- Both predicates hold as far as both values do. -/
theorem truth_and (p q : Predicate Condition) :
    (p.and (Condition.backend d) q).truth atom = (p.truth atom).and (q.truth atom) := by
  cases p with
  | never => rw [never_and]; rfl
  | always => rw [always_and, truth, Truth.yes_and]
  | expr c =>
    cases q with
    | never => exact (Truth.and_no _).symm
    | always => exact (Truth.and_yes _).symm
    | expr c' => exact Condition.value_join atom .all c c'

/-- One of the predicates holds as far as one of the values does. -/
theorem truth_or (p q : Predicate Condition) :
    (p.or (Condition.backend d) q).truth atom = (p.truth atom).or (q.truth atom) := by
  cases p with
  | always => rw [always_or]; rfl
  | never => rw [never_or, truth, Truth.no_or]
  | expr c =>
    cases q with
    | never => exact (Truth.or_no _).symm
    | always => exact (Truth.or_yes _).symm
    | expr c' => exact Condition.value_join atom .any c c'

/-- The negation of a predicate has the negated value. -/
theorem truth_not (p : Predicate Condition) :
    (p.not (Condition.backend d)).truth atom = (p.truth atom).not := by
  cases p with
  | always => rfl
  | never => rfl
  | expr c => exact Condition.value_negate atom c

/-- All the predicates hold as far as all the values do. -/
theorem truth_all (ps : List (Predicate Condition)) :
    (all (Condition.backend d) ps).truth atom = (ps.map (truth atom)).foldl .and .yes := by
  rw [all, List.foldl_map]
  exact (List.foldl_hom (truth atom) fun p q ↦ (truth_and atom d p q).symm).symm

/-- One of the predicates holds as far as one of the values does. -/
theorem truth_any (ps : List (Predicate Condition)) :
    (any (Condition.backend d) ps).truth atom = (ps.map (truth atom)).foldl .or .no := by
  rw [any, List.foldl_map]
  exact (List.foldl_hom (truth atom) fun p q ↦ (truth_or atom d p q).symm).symm

end Predicate

namespace Composition

variable (atom : Atom → Truth) (d : Dialect)

mutual

/-- The condition of a composition has the value of the composition. -/
theorem truth_build : ∀ p : Composition, (p.build (Condition.backend d)).truth atom =
    p.truth fun c ↦ atom (Condition.atomOf d c)
  | .constraint _ => rfl
  | .always => rfl
  | .never => rfl
  | .and l r => by rw [build, Predicate.truth_and, truth_build l, truth_build r, truth]
  | .or l r => by rw [build, Predicate.truth_or, truth_build l, truth_build r, truth]
  | .negate none => rfl
  | .negate (some p) => by
    change (Predicate.not _ _).truth atom = (p.truth _).not
    rw [Predicate.truth_not, truth_build p]
  | .all ps => by rw [build, Predicate.truth_all, map_truth_buildList ps, truth]
  | .any ps => by rw [build, Predicate.truth_any, map_truth_buildList ps, truth]

/-- The conditions of a list have the values of the compositions. -/
theorem map_truth_buildList : ∀ ps : List Composition,
    (buildList (Condition.backend d) ps).map (Predicate.truth atom) =
      truths (fun c ↦ atom (Condition.atomOf d c)) ps
  | [] => rfl
  | p :: ps => by rw [buildList, truths, List.map_cons, truth_build p, map_truth_buildList ps]

end

end Composition

/-! ### Filters -/

variable {shape : Shape}

/-- The slots of a node as a composition. -/
def Slots.composition (own : Slots shape.fields) : Composition :=
  .all ((own.constraints shape.fields).map fun cs ↦ .all (cs.map .constraint))

/-- A filter as a composition. -/
def Filter.composition : Filter shape → Composition := fold fun own and or not ↦
  .or (.all [own.composition, .all and, .negate not]) (.any or)

theorem Slots.build_composition {E : Type} (b : Backend E) (own : Slots shape.fields) :
    own.composition.build b = own.predicate b := by
  have hconstraints : ∀ cs : List Constraint,
      (Composition.all (cs.map .constraint)).build b = Predicate.ofConstraints b cs := by
    intro cs
    rw [Composition.build, Composition.buildList_eq, List.map_map]
    rfl
  rw [composition, Composition.build, Composition.buildList_eq, List.map_map]
  exact congrArg (Predicate.all b) (List.map_congr_left fun cs _ ↦ hconstraints cs)

/-- A filter compiles as the composition that it is. -/
theorem Filter.build_composition {E : Type} (b : Backend E) (f : Filter shape) :
    f.composition.build b = f.compile b := by
  induction f using Filter.induct with
  | node f hand hor hnot =>
    have hlist : ∀ {gs : List (Filter shape)},
        (∀ g ∈ gs, g.composition.build b = g.compile b) →
          Composition.buildList b (gs.map composition) = gs.map (compile b) := by
      intro gs hgs
      rw [Composition.buildList_eq, List.map_map]
      exact List.map_congr_left hgs
    have hoption : Composition.buildOption b (f.not.map composition) = f.not.map (compile b) := by
      rw [Composition.buildOption_eq, Option.map_map]
      exact Option.map_congr hnot
    rw [compile_eq, compileNode, composition, fold_eq, ← composition, ← hlist hand, ← hlist hor,
      ← hoption, ← Slots.build_composition]
    rfl

end Listing
