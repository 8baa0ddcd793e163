import Listing.Proofs.Filter.Exchange
import Mathlib.Logic.Relation

/-!
# Regrouping children

The `and` children and the `or` children of a node form two sets: neither their order nor how often
one is listed matters. A child that has nothing but `and` children only groups them, so they may
stand in its place. An `or` child is satisfied if it is so without its own alternatives or one of
these is, so they may stand beside it.

`Filter.Regrouped` are these changes of a node, and none of them changes when the node is satisfied
(`Filter.Regrouped.holds_iff`). So a record that meets a filter meets it after any number of
regroupings, in either direction and at any nodes (`Filter.accepts_of_regroupings`).
-/

set_option autoImplicit false
set_option relaxedAutoImplicit false

namespace Listing

namespace Filter

variable {shape : Shape}

/-! ### Regrouping the children of a node -/

/-- The second node is the first one with its children in another grouping. -/
inductive Regrouped : Filter shape → Filter shape → Prop
  /-- The `and` children in another order, or another number of times. -/
  | and {own : Slots shape.fields} {cs ds or : List (Filter shape)} {not : Option (Filter shape)}
      (hsame : ∀ c, c ∈ cs ↔ c ∈ ds) : Regrouped ⟨own, cs, or, not⟩ ⟨own, ds, or, not⟩
  /-- The `or` children in another order, or another number of times. -/
  | or {own : Slots shape.fields} {and cs ds : List (Filter shape)} {not : Option (Filter shape)}
      (hsame : ∀ c, c ∈ cs ↔ c ∈ ds) : Regrouped ⟨own, and, cs, not⟩ ⟨own, and, ds, not⟩
  /-- The `and` children of an `and` child that has nothing else, in its place. -/
  | flatten {own : Slots shape.fields} (before after : List (Filter shape))
      {or : List (Filter shape)} {not : Option (Filter shape)} {c : Filter shape}
      (hown : ∀ b, ¬c.own.Sets shape.fields b) (hor : c.or = []) (hnot : c.not = none) :
      Regrouped ⟨own, before ++ c :: after, or, not⟩ ⟨own, before ++ (c.and ++ after), or, not⟩
  /-- The `or` children of an `or` child, behind what it is without them. -/
  | lift {own : Slots shape.fields} {and : List (Filter shape)} (before after : List (Filter shape))
      {not : Option (Filter shape)} {c : Filter shape} :
      Regrouped ⟨own, and, before ++ c :: after, not⟩
        ⟨own, and, before ++ { c with or := [] } :: (c.or ++ after), not⟩

/-- Regrouping the children of a node does not change when it is satisfied. -/
theorem Regrouped.holds_iff {met : Constraint → Prop} {g g' : Filter shape}
    (h : g.Regrouped g') : g.Holds met ↔ g'.Holds met := by
  rw [Filter.holds_iff, Filter.holds_iff]
  cases h with
  | and hsame =>
    refine or_congr_left (and_congr_right fun _ ↦ and_congr_left fun _ ↦ ?_)
    exact forall_congr' fun c ↦ imp_congr_left (hsame c)
  | or hsame => exact or_congr_right (exists_congr fun c ↦ and_congr_left fun _ ↦ hsame c)
  | @flatten _ before after _ _ c hown hor hnot =>
    have hchild : c.Holds met ↔ ∀ d ∈ c.and, d.Holds met := by
      rw [Filter.holds_iff, hor, hnot]
      simp [hown]
    refine or_congr_left (and_congr_right fun _ ↦ and_congr_left fun _ ↦ ?_)
    rw [List.forall_mem_append, List.forall_mem_append, List.forall_mem_append,
      List.forall_mem_cons, hchild]
  | @lift _ _ before after _ c =>
    have hchild : c.Holds met ↔
        ({ c with or := [] } : Filter shape).Holds met ∨ ∃ d ∈ c.or, d.Holds met := by
      rw [Filter.holds_iff, Filter.holds_iff met { c with or := [] }]
      simp
    refine or_congr_right ?_
    simp only [List.mem_append, List.mem_cons, or_and_right, exists_or, exists_eq_left, hchild,
      or_assoc]

/-! ### Regrouping inside a filter -/

/-- The children of one node of the filter, wherever it stands, are regrouped. -/
def RegroupedInside (f f' : Filter shape) : Prop :=
  ∃ clauses g g', Exchanged g g' clauses f f' ∧ g.Regrouped g'

/-- Regrouping does not change which records meet a filter. Assumes: two filters of which one
becomes the other by regrouping the children of nodes, any number of them one after the other and at
any depth, where a regrouping may also be undone. -/
theorem accepts_of_regroupings {R : Type} [Record R] {f f' : Filter shape}
    (h : Relation.EqvGen RegroupedInside f f') (r : R) :
    (f.compile (Matcher.backend R)).accepts r = (f'.compile (Matcher.backend R)).accepts r := by
  induction h with
  | rel f f' hstep =>
    obtain ⟨clauses, g, g', hexchanged, hnode⟩ := hstep
    rw [Bool.eq_iff_iff, accepts_compile_iff, accepts_compile_iff]
    exact hexchanged.holds_congr hnode.holds_iff
  | refl f => rfl
  | symm f f' _ ih => exact ih.symm
  | trans f f' f'' _ _ ihleft ihright => exact ihleft.trans ihright

end Filter

namespace Courses

/-- The courses called `abc`. -/
def called : Filter shape := leaves (some { equals := some "abc" }) none

/-- The courses with `b` in their title. -/
def lettered : Filter shape := leaves (some { contains := some "b" }) none

/-- The courses of 5 seats that are called `abc` and have `b` in their title, and popular ones. -/
def grouped : Filter shape :=
  { leaves none (some { equals := some 5 }) with
    and := [{ leaves none none with and := [called, lettered] }]
    or := [popular] }

/-- The same courses, without a list in a list. -/
def listed : Filter shape :=
  { grouped with
    and := [lettered, called, lettered]
    or := [{ popular with or := [] }, leaves none (some { lessThan := some 3 })] }

end Courses

/-- The nested lists become the plain ones by regrouping the node below a `not` three times. Either
way the course called `bac` is not one of those that remain. -/
theorem Filter.accepts_of_regroupings_courses :
    Relation.EqvGen RegroupedInside (Courses.grouped.wrap .not) (Courses.listed.wrap .not) ∧
      ((Courses.listed.wrap .not).compile (Matcher.backend Row)).accepts
        (Courses.row "bac" (some 7)) = false := by
  have hstep {g g' : Filter Courses.shape} (h : g.Regrouped g') :
      Relation.EqvGen RegroupedInside (g.wrap .not) (g'.wrap .not) :=
    .rel _ _ ⟨[.not], g, g', .not .here, h⟩
  have hgroup (b : Constraint) : ¬(Courses.leaves none none).own.Sets Courses.shape.fields b := by
    rintro (⟨_, ⟨⟩, _⟩ | ⟨_, ⟨⟩, _⟩ | hnone)
    exact hnone
  have hflat : Courses.grouped.Regrouped
      { Courses.grouped with and := [Courses.called, Courses.lettered] } :=
    .flatten [] [] hgroup rfl rfl
  have hlist : Regrouped { Courses.grouped with and := [Courses.called, Courses.lettered] }
      { Courses.grouped with and := [Courses.lettered, Courses.called, Courses.lettered] } := by
    refine .and fun c ↦ ?_
    simp only [List.mem_cons, List.not_mem_nil, or_false]
    tauto
  have hlift : Regrouped
      { Courses.grouped with and := [Courses.lettered, Courses.called, Courses.lettered] }
      Courses.listed := .lift [] []
  have hregrouped : Relation.EqvGen RegroupedInside (Courses.grouped.wrap .not)
      (Courses.listed.wrap .not) :=
    .trans _ _ _ (hstep hflat) (.trans _ _ _ (hstep hlist) (hstep hlift))
  refine ⟨hregrouped, ?_⟩
  rw [← accepts_of_regroupings hregrouped]
  decide

end Listing
