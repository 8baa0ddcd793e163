import Listing.Proofs.Filter.Exchange
import Listing.Proofs.Filter.Leaves

/-!
# Edits and their polarity

`Filter.Widening` lists the edits of a node after which it is satisfied at least where it was: one
`or` child more, one `and` child less, no `not` child any more, a leaf filter or one of its bounds
less. The opposite edits are these, read from the other side.

An edit of a node inside a filter widens or narrows what the filter selects by the number of `not`
steps on the way to the node: as the edit itself does if the number is even, and the other way round
if it is odd (`Filter.polarity_of_edits`). This is so although the compiled predicates may differ in
more than the edited node: without its last bound a node becomes a constant that absorbs others.
-/

set_option autoImplicit false
set_option relaxedAutoImplicit false

namespace Listing

/-! ### Fewer bounds -/

/-- The second leaf filter has the bounds of the first one, but for one that is no longer set. -/
def Kind.DropsBound (k : Kind) (l l' : k.Leaf) : Prop :=
  ∃ i, k.bounds l' = (k.bounds l).set i none

/-- A leaf filter is removed, or one of its bounds. -/
inductive Kind.Loosens (k : Kind) : Option k.Leaf → Option k.Leaf → Prop
  | leaf (l : k.Leaf) : Loosens k (some l) none
  | bound {l l' : k.Leaf} (h : k.DropsBound l l') : Loosens k (some l) (some l')

/-- In one of the slots a leaf filter is removed, or one of its bounds. -/
def Slots.Loosens : (fs : List FieldSpec) → Slots fs → Slots fs → Prop
  | [], _, _ => False
  | f :: fs, (leaf, rest), (leaf', rest') =>
    f.kind.Loosens leaf leaf' ∧ rest' = rest ∨ leaf' = leaf ∧ Loosens fs rest rest'

/-- The bounds that are left were set before. -/
theorem Kind.sets_of_dropsBound {k : Kind} {l l' : k.Leaf} (h : k.DropsBound l l') {t : Test}
    (ht : k.Sets l' t) : k.Sets l t := by
  obtain ⟨i, hbounds⟩ := h
  rw [← Kind.mem_tests_iff, Kind.tests_eq, List.reduceOption_mem_iff] at ht ⊢
  rw [hbounds] at ht
  exact (List.mem_or_eq_of_mem_set ht).resolve_right nofun

/-- The bounds that are left in the slots were set before. -/
theorem Slots.sets_of_loosens {fs : List FieldSpec} {s s' : Slots fs} (h : Slots.Loosens fs s s')
    {c : Constraint} (hc : s'.Sets fs c) : s.Sets fs c := by
  induction fs with
  | nil => exact h.elim
  | cons f fs ih =>
    obtain ⟨leaf, rest⟩ := s
    obtain ⟨leaf', rest'⟩ := s'
    rcases h with ⟨hleaf, rfl⟩ | ⟨rfl, hrest⟩
    · refine Or.imp_left ?_ hc
      rintro ⟨l', rfl, hfield, hsets⟩
      cases hleaf with
      | @bound l _ hdrops => exact ⟨l, rfl, hfield, Kind.sets_of_dropsBound hdrops hsets⟩
    · exact Or.imp_right (ih hrest) hc

namespace Filter

variable {shape : Shape}

/-! ### Edits of a node -/

/-- The second node is the first one with an `or` child more, or with an `and` child, the `not`
child, a leaf filter or a bound less. -/
inductive Widening : Filter shape → Filter shape → Prop
  | addOr {own : Slots shape.fields} {and before after : List (Filter shape)}
      {not : Option (Filter shape)} (c : Filter shape) :
      Widening ⟨own, and, before ++ after, not⟩ ⟨own, and, before ++ c :: after, not⟩
  | dropAnd {own : Slots shape.fields} {before after or : List (Filter shape)}
      {not : Option (Filter shape)} (c : Filter shape) :
      Widening ⟨own, before ++ c :: after, or, not⟩ ⟨own, before ++ after, or, not⟩
  | dropNot {own : Slots shape.fields} {and or : List (Filter shape)} (c : Filter shape) :
      Widening ⟨own, and, or, some c⟩ ⟨own, and, or, none⟩
  | loosen {own own' : Slots shape.fields} {and or : List (Filter shape)}
      {not : Option (Filter shape)} (h : own.Loosens shape.fields own') :
      Widening ⟨own, and, or, not⟩ ⟨own', and, or, not⟩

/-- A widened node is satisfied at least where it was. -/
theorem Widening.holds {met : Constraint → Prop} {g g' : Filter shape} (h : g.Widening g') :
    g.Holds met → g'.Holds met := by
  have hmore : ∀ (before after : List (Filter shape)) (c : Filter shape),
      before ++ after ⊆ before ++ c :: after := fun before after c ↦
    ((List.sublist_cons_self c after).append_left before).subset
  rw [holds_iff, holds_iff]
  cases h with
  | addOr c => exact Or.imp_right fun ⟨d, hd, hholds⟩ ↦ ⟨d, hmore _ _ c hd, hholds⟩
  | dropAnd c =>
    exact Or.imp_left fun ⟨hown, hand, hnot⟩ ↦ ⟨hown, fun d hd ↦ hand d (hmore _ _ c hd), hnot⟩
  | dropNot c => exact Or.imp_left fun ⟨hown, hand, _⟩ ↦ ⟨hown, hand, nofun⟩
  | loosen hloosens =>
    exact Or.imp_left fun ⟨hown, hand, hnot⟩ ↦
      ⟨fun c hc ↦ hown c (Slots.sets_of_loosens hloosens hc), hand, hnot⟩

/-! ### Edits inside a filter -/

/-- What the first filter selects from a list of records is part of what the second one selects, in
the same order. -/
def SelectsWithin (R : Type) [Record R] (f f' : Filter shape) : Prop :=
  ∀ rs : List R, ((f.compile (Matcher.backend R)).select rs).Sublist
    ((f'.compile (Matcher.backend R)).select rs)

/-- A filter selects no more than one that is satisfied at least in the same cases. -/
theorem selectsWithin_of_holds {R : Type} [Record R] {f f' : Filter shape}
    (h : ∀ r : R, f.Holds (Constraint.Meets r) → f'.Holds (Constraint.Meets r)) :
    f.SelectsWithin R f' := by
  refine Predicate.select_sublist fun r hr ↦ ?_
  exact (accepts_compile_iff f' r).mpr (h r ((accepts_compile_iff f r).mp hr))

/-- Assumes: a widening edit of a node. The filter around it selects more if the way to the node
takes an even number of `not` steps, and less if their number is odd. -/
theorem Exchanged.selectsWithin {R : Type} [Record R] {f f' g g' : Filter shape}
    {clauses : List Clause} (h : Exchanged g g' clauses f f') (hedit : g.Widening g') :
    (Even (clauses.count .not) → f.SelectsWithin R f') ∧
      (Odd (clauses.count .not) → f'.SelectsWithin R f) :=
  ⟨fun heven ↦ selectsWithin_of_holds fun _ ↦ (h.holds_mono hedit.holds).1 heven,
    fun hodd ↦ selectsWithin_of_holds fun _ ↦ (h.holds_mono hedit.holds).2 hodd⟩

/-- Edits act by their polarity. Assumes: a way through these clauses to a node of a filter. The
node can be exchanged for any other one. If that is a widening of it, then the filter selects at
least what it did if the number of `not` steps on the way is even, and at most what it did if it is
odd. If the old node is a widening of the new one, it is the other way round. -/
theorem polarity_of_edits (R : Type) [Record R] {f g : Filter shape} {clauses : List Clause}
    (hpath : f.Path clauses g) (g' : Filter shape) :
    (∃ f', Exchanged g g' clauses f f') ∧
      ∀ f', Exchanged g g' clauses f f' →
        (g.Widening g' →
          (Even (clauses.count .not) → f.SelectsWithin R f') ∧
            (Odd (clauses.count .not) → f'.SelectsWithin R f)) ∧
          (g'.Widening g →
            (Even (clauses.count .not) → f'.SelectsWithin R f) ∧
              (Odd (clauses.count .not) → f.SelectsWithin R f')) :=
  ⟨(path_iff_exists_exchanged g').mp hpath, fun _ h ↦
    ⟨h.selectsWithin, h.symm.selectsWithin⟩⟩

/-- If the popular courses may also be called `abc`, then fewer courses are not popular: the course
called `abc` with 5 seats is no longer one of them. -/
theorem polarity_of_edits_unpopular :
    (Courses.popular.wrap .not).Path [.not] Courses.popular ∧
      Courses.popular.Widening { Courses.popular with not := none } ∧
      Odd ([Clause.not].count .not) ∧
      ({ Courses.popular with not := none }.wrap .not).SelectsWithin Row
        (Courses.popular.wrap .not) ∧
      ((Courses.popular.wrap .not).compile (Matcher.backend Row)).accepts
        (Courses.row "abc" (some 5)) = true ∧
      (({ Courses.popular with not := none }.wrap .not).compile (Matcher.backend Row)).accepts
        (Courses.row "abc" (some 5)) = false := by
  have hpath : (Courses.popular.wrap .not).Path [.not] Courses.popular :=
    .down (Option.mem_toList.mpr rfl) (.here _)
  have hwidening : Courses.popular.Widening { Courses.popular with not := none } := .dropNot _
  have hodd : Odd ([Clause.not].count .not) := by decide
  obtain ⟨-, hedited⟩ := polarity_of_edits Row hpath { Courses.popular with not := none }
  exact ⟨hpath, hwidening, hodd, ((hedited _ (.not .here)).1 hwidening).2 hodd, by decide,
    by decide⟩

end Filter

end Listing
