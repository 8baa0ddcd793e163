import Listing.Formula
import Listing.Proofs.Filter.Meaning
import Mathlib.Data.List.Basic

/-!
# Folds of predicates

What a conjunction or a disjunction of a list of predicates is. One constant absorbs: a fold is that
constant exactly if the constant is a member, wherever it stands. Otherwise the other constant drops
out, and the expressions that are left are joined from the left in their order
(`Predicate.IsFold`).

Conjunction and disjunction are the same up to exchanging the two constants and the two connectives
of the backend (`Predicate.dual`), so what is proved of `Predicate.all` carries over to
`Predicate.any` (`Predicate.any_eq_dual_all`).

Two predicates are equivalent if they are of one kind, the same constant or both expressions, and
have the same value under every lawful valuation (`Predicate.Equivalent`). A conjunction may be cut
in two, and its negation is the disjunction of the negated members.
-/

set_option autoImplicit false
set_option relaxedAutoImplicit false

namespace Listing

variable {E F : Type}

/-- The backend with conjunction and disjunction exchanged. -/
def Backend.dual (b : Backend E) : Backend E := { b with and := b.or, or := b.and }

namespace Predicate

/-! ### Constants -/

/-- The truth value of the constant that a predicate is, if it is one. -/
def constant? : Predicate E → Option Bool
  | always => some true
  | never => some false
  | expr _ => none

/-- Two predicates are of one kind if each constant is both of them or none. -/
theorem constant?_eq_iff {p : Predicate E} {q : Predicate F} :
    p.constant? = q.constant? ↔ (p = always ↔ q = always) ∧ (p = never ↔ q = never) := by
  cases p <;> cases q <;> simp [constant?]

section Connectives

variable {b : Backend E} {p q : Predicate E}

theorem and_eq_never_iff : and b p q = never ↔ p = never ∨ q = never := by
  cases p <;> cases q <;> simp [and]

theorem and_eq_always_iff : and b p q = always ↔ p = always ∧ q = always := by
  cases p <;> cases q <;> simp [and]

theorem not_eq_always_iff : p.not b = always ↔ p = never := by
  cases p <;> simp [Predicate.not]

theorem not_eq_never_iff : p.not b = never ↔ p = always := by
  cases p <;> simp [Predicate.not]

end Connectives

/-! ### Conjunctions -/

/-- Expressions joined from the left; without any, the given predicate. -/
def joinLeft (join : E → E → E) (neutral : Predicate E) : List E → Predicate E
  | [] => neutral
  | e :: es => expr (es.foldl join e)

/-- The predicate is the fold of a list: the absorbing constant if that is a member, and otherwise
the expressions of the list joined from the left, or the neutral constant if there are none. -/
structure IsFold (join : E → E → E) (neutral absorbing : Predicate E) (ps : List (Predicate E))
    (p : Predicate E) : Prop where
  eq_absorbing_iff : p = absorbing ↔ absorbing ∈ ps
  eq_joinLeft : absorbing ∉ ps → p = joinLeft join neutral (ps.filterMap expr?)

section All

variable (b : Backend E)

/-- One more expression is joined to those on its left. -/
theorem and_joinLeft_expr (es : List E) (e : E) :
    and b (joinLeft b.and always es) (expr e) = joinLeft b.and always (es ++ [e]) := by
  cases es with
  | nil => exact always_and b (expr e)
  | cons d es => rw [List.cons_append, joinLeft, joinLeft, List.foldl_append]; rfl

/-- The fold of a conjunction, from the expressions on that have been joined so far. -/
theorem foldl_and_joinLeft (es : List E) {ps : List (Predicate E)} (h : never ∉ ps) :
    ps.foldl (and b) (joinLeft b.and always es) =
      joinLeft b.and always (es ++ ps.filterMap expr?) := by
  induction ps generalizing es with
  | nil => rw [List.foldl_nil, List.filterMap_nil, List.append_nil]
  | cons p ps ih =>
    obtain ⟨hp, hps⟩ := not_or.mp (mt List.mem_cons.mpr h)
    rw [List.foldl_cons]
    cases p with
    | always => rw [and_always, ih es hps]; rfl
    | never => exact absurd rfl hp
    | expr e =>
      -- The expressions joined so far become one more, at their end.
      rw [and_joinLeft_expr, ih (es ++ [e]) hps, List.append_assoc]
      rfl

/-- The fold of a conjunction holds never, from any predicate on, if that predicate or a member
does. -/
theorem foldl_and_eq_never_iff (p : Predicate E) (ps : List (Predicate E)) :
    ps.foldl (and b) p = never ↔ p = never ∨ never ∈ ps := by
  induction ps generalizing p with
  | nil => simp
  | cons q ps ih =>
    rw [List.foldl_cons, ih, and_eq_never_iff, or_assoc, List.mem_cons, eq_comm (a := never)]

/-- The fold of a conjunction holds always, from any predicate on, if that predicate and all members
do. -/
theorem foldl_and_eq_always_iff (p : Predicate E) (ps : List (Predicate E)) :
    ps.foldl (and b) p = always ↔ p = always ∧ ∀ q ∈ ps, q = always := by
  induction ps generalizing p with
  | nil => simp
  | cons q ps ih => rw [List.foldl_cons, ih, and_eq_always_iff, and_assoc, List.forall_mem_cons]

/-- A conjunction holds never if one of its members does. -/
theorem all_eq_never_iff {ps : List (Predicate E)} : all b ps = never ↔ never ∈ ps := by
  have hseed : (always : Predicate E) ≠ never := by simp
  rw [all, foldl_and_eq_never_iff]
  exact or_iff_right hseed

/-- A conjunction holds always if all its members do. -/
theorem all_eq_always_iff {ps : List (Predicate E)} :
    all b ps = always ↔ ∀ p ∈ ps, p = always := by
  rw [all, foldl_and_eq_always_iff]
  exact and_iff_right rfl

/-- A conjunction is a fold that `never` absorbs. -/
theorem isFold_all (ps : List (Predicate E)) : IsFold b.and always never ps (all b ps) where
  eq_absorbing_iff := all_eq_never_iff b
  eq_joinLeft h := foldl_and_joinLeft b [] h

end All

/-! ### Disjunctions -/

/-- The predicate with the two constants exchanged. -/
def dual : Predicate E → Predicate E
  | always => never
  | never => always
  | expr e => expr e

@[simp]
theorem dual_dual (p : Predicate E) : p.dual.dual = p := by
  cases p <;> rfl

theorem dual_eq_iff {p q : Predicate E} : p.dual = q ↔ p = q.dual :=
  ⟨fun h ↦ h ▸ (dual_dual p).symm, fun h ↦ h ▸ dual_dual q⟩

theorem mem_map_dual {p : Predicate E} {ps : List (Predicate E)} :
    p ∈ ps.map dual ↔ p.dual ∈ ps :=
  List.mem_map_of_involutive dual_dual

theorem expr?_dual (p : Predicate E) : p.dual.expr? = p.expr? := by
  cases p <;> rfl

section Any

variable (b : Backend E)

/-- A disjunction is a conjunction under the exchange. -/
theorem dual_and (p q : Predicate E) : (and b.dual p q).dual = or b p.dual q.dual := by
  cases p <;> cases q <;> rfl

/-- The fold of a conjunction is one of a disjunction under the exchange. -/
theorem dual_foldl_and (p : Predicate E) (ps : List (Predicate E)) :
    (ps.foldl (and b.dual) p).dual = (ps.map dual).foldl (or b) p.dual := by
  rw [List.foldl_map]
  exact (List.foldl_hom dual fun p q ↦ (dual_and b p q).symm).symm

/-- The disjunction of a list is a conjunction under the exchange. -/
theorem any_eq_dual_all (ps : List (Predicate E)) : any b ps = (all b.dual (ps.map dual)).dual := by
  have hid : (ps.map dual).map dual = ps := by
    rw [List.map_map]
    exact List.map_id'' dual_dual ps
  rw [all, dual_foldl_and, hid]
  rfl

/-- A disjunction holds always if one of its members does. -/
theorem any_eq_always_iff {ps : List (Predicate E)} : any b ps = always ↔ always ∈ ps := by
  rw [any_eq_dual_all, dual_eq_iff]
  exact (all_eq_never_iff b.dual).trans mem_map_dual

/-- A disjunction holds never if all its members do. -/
theorem any_eq_never_iff {ps : List (Predicate E)} :
    any b ps = never ↔ ∀ p ∈ ps, p = never := by
  rw [any_eq_dual_all, dual_eq_iff]
  refine (all_eq_always_iff b.dual).trans (List.forall_mem_map.trans ?_)
  exact forall₂_congr fun p _ ↦ dual_eq_iff

/-- A disjunction is a fold that `always` absorbs. -/
theorem isFold_any (ps : List (Predicate E)) : IsFold b.or never always ps (any b ps) where
  eq_absorbing_iff := any_eq_always_iff b
  eq_joinLeft h := by
    have hnever : never ∉ ps.map dual := fun hmem ↦ h (mem_map_dual.mp hmem)
    have hexprs : (ps.map dual).filterMap expr? = ps.filterMap expr? := by
      rw [List.filterMap_map]
      exact List.filterMap_congr fun p _ ↦ expr?_dual p
    rw [any_eq_dual_all, (isFold_all b.dual (ps.map dual)).eq_joinLeft hnever, hexprs]
    cases ps.filterMap expr? <;> rfl

end Any

/-! ### Equivalent predicates -/

/-- Two predicates are of one kind and have the same value under every lawful valuation. -/
structure Equivalent (b : Backend E) (p q : Predicate E) : Prop where
  constant? : p.constant? = q.constant?
  value : ∀ ev, b.Lawful ev → p.value ev = q.value ev

section Equivalent

variable (b : Backend E)

/-- A conjunction may be cut in two. -/
theorem all_append_equivalent (xs ys : List (Predicate E)) :
    Equivalent b (all b (xs ++ ys)) (and b (all b xs) (all b ys)) where
  constant? := by
    refine constant?_eq_iff.mpr ⟨?_, ?_⟩
    · rw [and_eq_always_iff, all_eq_always_iff, all_eq_always_iff, all_eq_always_iff,
        List.forall_mem_append]
    · rw [and_eq_never_iff, all_eq_never_iff, all_eq_never_iff, all_eq_never_iff, List.mem_append]
  value ev hev := by
    rw [Bool.eq_iff_iff, value_and hev, Bool.and_eq_true, value_all_iff hev, value_all_iff hev,
      value_all_iff hev, List.forall_mem_append]

/-- The negation of a conjunction is the disjunction of the negated members. -/
theorem not_all_equivalent (ps : List (Predicate E)) :
    Equivalent b ((all b ps).not b) (any b (ps.map (Predicate.not b))) where
  constant? := by
    refine constant?_eq_iff.mpr ⟨?_, ?_⟩
    · rw [not_eq_always_iff, all_eq_never_iff, any_eq_always_iff, List.mem_map]
      simp only [not_eq_always_iff, exists_eq_right]
    · rw [not_eq_never_iff, all_eq_always_iff, any_eq_never_iff, List.forall_mem_map]
      simp only [not_eq_never_iff]
  value ev hev := by
    rw [Bool.eq_iff_iff, value_not hev, value_any_iff hev, Bool.not_eq_true', ← Bool.not_eq_true,
      value_all_iff hev]
    simp only [List.mem_map, exists_exists_and_eq_and, value_not hev, Bool.not_eq_true',
      not_forall, Bool.not_eq_true, exists_prop]

/-! ### Equivalence under the exchange -/

/-- What is lawful for a backend is lawful for its dual with true and false exchanged. -/
theorem lawful_dual {ev : E → Bool} (h : b.Lawful ev) : b.dual.Lawful fun e ↦ !ev e where
  and d e := by
    show (!ev (b.or d e)) = _
    rw [h.or, Bool.not_or]
  or d e := by
    show (!ev (b.and d e)) = _
    rw [h.and, Bool.not_and]
  not e := congrArg Bool.not (h.not e)

theorem value_dual (ev : E → Bool) (p : Predicate E) :
    p.dual.value ev = !p.value fun e ↦ !ev e := by
  cases p with
  | always => rfl
  | never => rfl
  | expr e => exact (Bool.not_not (ev e)).symm

/-- Predicates that are equivalent for the dual of a backend are equivalent under the exchange. -/
theorem Equivalent.dual {p q : Predicate E} (h : Equivalent b.dual p q) :
    Equivalent b p.dual q.dual where
  constant? := by
    obtain ⟨halways, hnever⟩ := constant?_eq_iff.mp h.constant?
    refine constant?_eq_iff.mpr ⟨?_, ?_⟩
    · rw [dual_eq_iff, dual_eq_iff]
      exact hnever
    · rw [dual_eq_iff, dual_eq_iff]
      exact halways
  value ev hev := by rw [value_dual, value_dual, h.value _ (lawful_dual b hev)]

/-- A disjunction may be cut in two. -/
theorem any_append_equivalent (xs ys : List (Predicate E)) :
    Equivalent b (any b (xs ++ ys)) (or b (any b xs) (any b ys)) := by
  have h := (all_append_equivalent b.dual (xs.map dual) (ys.map dual)).dual
  rw [dual_and, ← List.map_append, ← any_eq_dual_all, ← any_eq_dual_all, ← any_eq_dual_all] at h
  exact h

/-- The negation of a disjunction is the conjunction of the negated members. -/
theorem not_any_equivalent (ps : List (Predicate E)) :
    Equivalent b ((any b ps).not b) (all b (ps.map (Predicate.not b))) := by
  have hnot : ∀ p : Predicate E, (p.not b.dual).dual = p.dual.not b := by
    intro p
    cases p <;> rfl
  have hmembers : ((ps.map dual).map (Predicate.not b.dual)).map dual =
      ps.map (Predicate.not b) := by
    rw [List.map_map, List.map_map]
    refine List.map_congr_left fun p _ ↦ ?_
    show (p.dual.not b.dual).dual = p.not b
    rw [hnot, dual_dual]
  have h := (not_all_equivalent b.dual (ps.map dual)).dual
  rw [hnot, ← any_eq_dual_all, any_eq_dual_all b.dual, dual_dual, hmembers] at h
  exact h

end Equivalent

/-- Every conjunction and every disjunction of a list of predicates is a fold in normal form.
Cutting the list in two changes neither the kind nor any lawful value of the fold, and negating the
fold is folding the negated members with the other connective. -/
theorem folds_in_normal_form (b : Backend E) :
    (∀ ps, IsFold b.and always never ps (all b ps)) ∧
      (∀ ps, IsFold b.or never always ps (any b ps)) ∧
      (∀ xs ys, Equivalent b (all b (xs ++ ys)) (and b (all b xs) (all b ys)) ∧
        Equivalent b (any b (xs ++ ys)) (or b (any b xs) (any b ys))) ∧
      ∀ ps,
        Equivalent b (negate b (some (all b ps))) (any b (ps.map fun p ↦ negate b (some p))) ∧
        Equivalent b (negate b (some (any b ps))) (all b (ps.map fun p ↦ negate b (some p))) :=
  ⟨isFold_all b, isFold_any b, fun xs ys ↦ ⟨all_append_equivalent b xs ys,
    any_append_equivalent b xs ys⟩, fun ps ↦ ⟨not_all_equivalent b ps, not_any_equivalent b ps⟩⟩

end Predicate

namespace Courses

/-- A title with a `b` in it, and less than 3 seats, among conditions that always hold. -/
def wishes : List (Predicate Formula) :=
  [.always, .expr (.constraint ⟨"title", .contains "b" false⟩), .always,
    .expr (.constraint ⟨"seats", .integer .lessThan 3⟩), .always]

/-- Whether a course called `bac` of unknown size meets a formula. -/
def bacMeets (f : Formula) : Bool := f.interpret (Matcher.backend Row) (row "bac" none)

end Courses

/-- The two wishes are joined, and not to have both is to lack one of them. -/
theorem Predicate.folds_in_normal_form_wishes :
    never ∉ Courses.wishes ∧
      all Formula.backend Courses.wishes = .expr (.and
        (.constraint ⟨"title", .contains "b" false⟩)
        (.constraint ⟨"seats", .integer .lessThan 3⟩)) ∧
      Formula.backend.Lawful Courses.bacMeets ∧
      (negate Formula.backend (some (all Formula.backend Courses.wishes))).value Courses.bacMeets =
        (any Formula.backend (Courses.wishes.map fun p ↦ negate Formula.backend (some p))).value
          Courses.bacMeets := by
  obtain ⟨hall, -, -, hnegate⟩ := folds_in_normal_form Formula.backend
  have hnever : never ∉ Courses.wishes := by simp [Courses.wishes]
  have hlawful : Formula.backend.Lawful Courses.bacMeets :=
    ⟨fun _ _ ↦ rfl, fun _ _ ↦ rfl, fun _ ↦ rfl⟩
  exact ⟨hnever, (hall Courses.wishes).eq_joinLeft hnever, hlawful,
    (hnegate Courses.wishes).1.value Courses.bacMeets hlawful⟩

end Listing
