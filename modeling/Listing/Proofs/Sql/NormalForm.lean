import Listing.Proofs.Filter.Composition
import Listing.Proofs.Filter.Meaning

/-!
# The normal form of conditions

Conditions that are built of comparisons by joining and negating are in normal form
(`Condition.IsNormal`): every junction has two members, or it is a conjunction of one comparison,
and one that stands inside another junction is then negated. So no junction is empty, and none
inside could be left out.

What may stand inside is given by `Condition.Member`, and what may stand at the root by
`Condition.Normal`; building keeps both (`Condition.Normal.join`, `Condition.Normal.negate`). So the
normal form holds for every composition of constraints, constants and connectives
(`Composition.normal_of_build`), and of these only the predicate that holds always becomes a
condition without members.
-/

set_option autoImplicit false
set_option relaxedAutoImplicit false

namespace Listing

namespace Sql.Condition

/-! ### Conditions inside a condition -/

/-- The condition stands inside the other one, at any depth. -/
inductive Inside (c : Condition) : Condition → Prop
  | member {kind : Junction} {negated : Bool} {members : List Condition} (h : c ∈ members) :
      Inside c (.junction kind negated members)
  | deeper {kind : Junction} {negated : Bool} {members : List Condition} {m : Condition}
      (hm : m ∈ members) (h : Inside c m) : Inside c (.junction kind negated members)

/-- Every junction has two members or is a conjunction of one comparison, and inside of the
condition the latter only if it is negated. -/
structure IsNormal (c : Condition) : Prop where
  isJunction : ∃ kind negated members, c = .junction kind negated members
  /-- The junction at the root and those inside have one comparison or two members. -/
  members {kind : Junction} {negated : Bool} {members : List Condition}
    (h : c = .junction kind negated members ∨ Inside (.junction kind negated members) c) :
    (kind = .all ∧ ∃ a, members = [.atom a]) ∨ ∃ l r, members = [l, r]
  /-- Those inside that have one member are negated. -/
  negated {kind : Junction} {negated : Bool} {m : Condition}
    (h : Inside (.junction kind negated [m]) c) : negated = true

/-- A condition that stands inside another one in normal form. -/
inductive Member : Condition → Prop
  | atom (a : Atom) : Member (.atom a)
  | negated (a : Atom) : Member (.junction .all true [.atom a])
  | pair (kind : Junction) (negated : Bool) {l r : Condition} (hl : Member l) (hr : Member r) :
      Member (.junction kind negated [l, r])

/-- A condition that is built of comparisons by joining and negating. -/
inductive Normal : Condition → Prop
  | single (negated : Bool) (a : Atom) : Normal (.junction .all negated [.atom a])
  | pair (kind : Junction) (negated : Bool) {l r : Condition} (hl : Member l) (hr : Member r) :
      Normal (.junction kind negated [l, r])

/-- Whatever stands inside a member may stand inside. -/
theorem Member.of_inside {c x : Condition} (hc : Member c) (h : Inside x c) : Member x := by
  induction hc with
  | atom a => exact nomatch h
  | negated a =>
    cases h with
    | member hx =>
      obtain rfl := List.mem_singleton.mp hx
      exact .atom a
    | deeper hm hx =>
      obtain rfl := List.mem_singleton.mp hm
      exact nomatch hx
  | pair kind negated hl hr ihl ihr =>
    cases h with
    | member hx =>
      rcases List.mem_pair.mp hx with rfl | rfl
      · exact hl
      · exact hr
    | deeper hm hx =>
      rcases List.mem_pair.mp hm with rfl | rfl
      · exact ihl hx
      · exact ihr hx

namespace Normal

variable {c x : Condition}

/-- Whatever stands inside a condition in normal form is a member. -/
theorem member_of_inside (hc : Normal c) (h : Inside x c) : Member x := by
  cases hc with
  | single negated a =>
    -- The mark of the root plays no part for what stands inside.
    have hinside : Inside x (.junction .all true [.atom a]) := by
      cases h with
      | member hx => exact .member hx
      | deeper hm hx => exact .deeper hm hx
    exact (Member.negated a).of_inside hinside
  | pair kind negated hl hr => exact (Member.pair kind negated hl hr).of_inside h

/-- The normal form in terms of junctions. -/
theorem isNormal (hc : Normal c) : c.IsNormal where
  isJunction := by
    cases hc with
    | single negated a => exact ⟨_, _, _, rfl⟩
    | pair kind negated hl hr => exact ⟨_, _, _, rfl⟩
  members h := by
    rcases h with rfl | hinside
    · cases hc with
      | single negated a => exact .inl ⟨rfl, a, rfl⟩
      | pair kind negated hl hr => exact .inr ⟨_, _, rfl⟩
    · cases hc.member_of_inside hinside with
      | negated a => exact .inl ⟨rfl, a, rfl⟩
      | pair kind negated hl hr => exact .inr ⟨_, _, rfl⟩
  negated hinside := by
    cases hc.member_of_inside hinside with
    | negated a => rfl

/-- A condition in normal form has members. -/
theorem isEmpty_eq_false (hc : Normal c) : c.isEmpty = false := by
  cases hc <;> rfl

/-- What is added to a junction for a condition in normal form may stand there. -/
theorem asMember (hc : Normal c) : Member c.asMember := by
  cases hc with
  | single negated a =>
    cases negated with
    | false => exact .atom a
    | true => exact .negated a
  | pair kind negated hl hr =>
    -- Two members are not taken out of their junction, negated or not.
    cases negated with
    | false => exact .pair kind false hl hr
    | true => exact .pair kind true hl hr

/-- Joining keeps the normal form. -/
theorem join (kind : Junction) {l r : Condition} (hl : Normal l) (hr : Normal r) :
    Normal (Condition.join kind l r) :=
  .pair kind false hl.asMember hr.asMember

/-- Negating keeps the normal form. -/
theorem negate (hc : Normal c) : Normal c.negate := by
  cases hc with
  | single negated a => exact .single (!negated) a
  | pair kind negated hl hr => exact .pair kind (!negated) hl hr

/-- Negating twice gives back the condition. -/
theorem negate_negate (hc : Normal c) : c.negate.negate = c := by
  obtain ⟨kind, negated, members, rfl⟩ := hc.isNormal.isJunction
  rw [Condition.negate, Condition.negate, Bool.not_not]

end Normal

end Sql.Condition

/-! ### Conditions of predicates -/

open Sql (Condition Dialect)

/-- The condition of the predicate is empty only if the predicate holds always. Otherwise it is in
normal form, and stays what it is if it is negated twice. -/
structure Predicate.InNormalForm (d : Dialect) (p : Predicate Condition) : Prop where
  isEmpty_iff : p.toCondition.isEmpty = true ↔ p = .always
  isNormal {c : Condition} (h : p = .expr c) : c.IsNormal
  negate_negate {c : Condition} (h : p = .expr c) :
    negate (Condition.backend d) (some (negate (Condition.backend d) (some p))) = p

namespace Composition

variable (d : Dialect) (p : Composition)

/-- An expression that is built as a condition is in normal form. -/
theorem normal_of_build {c : Condition} (h : p.build (Condition.backend d) = .expr c) :
    c.Normal := by
  have hjoin : (Condition.backend d).Joins (Condition.backend d) fun c _ ↦ c.Normal :=
    ⟨fun hl hr ↦ hl.join .all hr, fun hl hr ↦ hl.join .any hr⟩
  have hrelated := build_related hjoin (fun hc ↦ hc.negate)
    (fun leaf ↦ .single false (Condition.atomOf d leaf)) p
  rw [h] at hrelated
  cases hrelated with
  | expr hc => exact hc

/-- What is built of constraints, constants and connectives is in normal form. -/
theorem inNormalForm : (p.build (Condition.backend d)).InNormalForm d where
  isEmpty_iff := by
    rcases hbuild : p.build (Condition.backend d) with _ | _ | c
    · exact iff_of_true rfl rfl
    · exact iff_of_false nofun nofun
    · refine iff_of_false ?_ nofun
      rw [Predicate.toCondition, (p.normal_of_build d hbuild).isEmpty_eq_false]
      exact nofun
  isNormal h := (p.normal_of_build d h).isNormal
  negate_negate h := by
    rw [h]
    exact congrArg Predicate.expr (p.normal_of_build d h).negate_negate

/-- Every predicate that is built of constraints, constants and connectives has a condition in
normal form, empty only for the one that holds always; and so has every compiled filter. -/
theorem conditions_in_normal_form :
    (∀ p : Composition, (p.build (Condition.backend d)).InNormalForm d) ∧
      ∀ {shape : Shape} (f : Option (Filter shape)),
        (Filter.compileOption (Condition.backend d) f).InNormalForm d := by
  refine ⟨inNormalForm d, ?_⟩
  intro shape f
  cases f with
  | none => exact inNormalForm d .always
  | some f =>
    rw [Filter.compileOption, ← f.build_composition]
    exact inNormalForm d f.composition

end Composition

/-- The condition of the popular courses has members, is in normal form, and is the negation of its
negation. -/
theorem Composition.conditions_in_normal_form_popular :
    ∃ c, Filter.compileOption (Condition.backend .sqlite) (some Courses.popular) = .expr c ∧
      c.IsNormal ∧ c.isEmpty = false ∧
      Predicate.negate (Condition.backend .sqlite)
        (some (Predicate.negate (Condition.backend .sqlite) (some (.expr c)))) = .expr c := by
  have hpopular := (conditions_in_normal_form .sqlite).2 (some Courses.popular)
  exact ⟨_, rfl, hpopular.isNormal rfl, rfl, hpopular.negate_negate rfl⟩

end Listing
