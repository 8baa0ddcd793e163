import Listing.Filter.Compile
import Listing.Proofs.Filter.Tree
import Mathlib.Data.List.Forall2

/-!
# Two backends side by side

The same filter compiled for two backends gives two predicates of one shape: both hold always, both
hold never, or both are expressions. Which of the three it is depends on the filter only.

Let a relation between the expressions of the two backends be kept when expressions are joined
(`Backend.Joins`) and when they are negated (`Backend.Negates`). If it relates the expressions of
every constraint of a filter, then it relates what the filter compiles to
(`Filter.compile_related`). A filter without `not` children never negates, so there the second
condition is not needed.
-/

set_option autoImplicit false
set_option relaxedAutoImplicit false

namespace Listing

variable {E F : Type}

/-! ### Relations between expressions -/

/-- Joining related expressions on both sides gives related expressions. -/
structure Backend.Joins (b : Backend E) (b' : Backend F) (S : E → F → Prop) : Prop where
  and : ∀ {d d' e e'}, S d d' → S e e' → S (b.and d e) (b'.and d' e')
  or : ∀ {d d' e e'}, S d d' → S e e' → S (b.or d e) (b'.or d' e')

/-- Negating related expressions gives related expressions. -/
def Backend.Negates (b : Backend E) (b' : Backend F) (S : E → F → Prop) : Prop :=
  ∀ {d d'}, S d d' → S (b.not d) (b'.not d')

namespace Predicate

/-- Two predicates are the same constant, or related expressions. -/
inductive Related (S : E → F → Prop) : Predicate E → Predicate F → Prop
  | always : Related S always always
  | never : Related S never never
  | expr {d : E} {d' : F} (h : S d d') : Related S (expr d) (expr d')

/-- Two predicates that are related for every item of a list give two lists of predicates that are
related item by item. -/
theorem related_map {α : Type} {S : E → F → Prop} {f : α → Predicate E} {g : α → Predicate F}
    {xs : List α} (h : ∀ x ∈ xs, Related S (f x) (g x)) :
    List.Forall₂ (Related S) (xs.map f) (xs.map g) := by
  rw [List.forall₂_map_left_iff, List.forall₂_map_right_iff, List.forall₂_same]
  exact h

section Connectives

variable {b : Backend E} {b' : Backend F} {S : E → F → Prop} {p q : Predicate E}
  {p' q' : Predicate F} {ps : List (Predicate E)} {ps' : List (Predicate F)}

theorem Related.and (h : b.Joins b' S) (hp : Related S p p') (hq : Related S q q') :
    Related S (p.and b q) (p'.and b' q') := by
  cases hp with
  | always => simpa using hq
  | never => simpa using Related.never
  | expr hd =>
    cases hq with
    | always => exact .expr hd
    | never => exact .never
    | expr he => exact .expr (h.and hd he)

theorem Related.or (h : b.Joins b' S) (hp : Related S p p') (hq : Related S q q') :
    Related S (p.or b q) (p'.or b' q') := by
  cases hp with
  | always => simpa using Related.always
  | never => simpa using hq
  | expr hd =>
    cases hq with
    | always => exact .always
    | never => exact .expr hd
    | expr he => exact .expr (h.or hd he)

theorem Related.not (h : b.Negates b' S) (hp : Related S p p') :
    Related S (p.not b) (p'.not b') := by
  cases hp with
  | always => exact .never
  | never => exact .always
  | expr hd => exact .expr (h hd)

/-- Assumes: two lists of predicates that are related item by item. So are their conjunctions. -/
theorem Related.all (h : b.Joins b' S) (hps : List.Forall₂ (Related S) ps ps') :
    Related S (Predicate.all b ps) (Predicate.all b' ps') := by
  have hfold : ∀ {p : Predicate E} {p' : Predicate F}, Related S p p' →
      Related S (ps.foldl (Predicate.and b) p) (ps'.foldl (Predicate.and b') p') := by
    induction hps with
    | nil => exact id
    | cons hq _ ih => exact fun hp ↦ ih (hp.and h hq)
  exact hfold .always

/-- Assumes: two lists of predicates that are related item by item. So are their disjunctions. -/
theorem Related.any (h : b.Joins b' S) (hps : List.Forall₂ (Related S) ps ps') :
    Related S (Predicate.any b ps) (Predicate.any b' ps') := by
  have hfold : ∀ {p : Predicate E} {p' : Predicate F}, Related S p p' →
      Related S (ps.foldl (Predicate.or b) p) (ps'.foldl (Predicate.or b') p') := by
    induction hps with
    | nil => exact id
    | cons hq _ ih => exact fun hp ↦ ih (hp.or h hq)
  exact hfold .never

/-- Related expressions for each constraint of a list give related conjunctions. -/
theorem Related.ofConstraints (h : b.Joins b' S) {cs : List Constraint}
    (hleaf : ∀ c ∈ cs, S (b.constraint c) (b'.constraint c)) :
    Related S (Predicate.ofConstraints b cs) (Predicate.ofConstraints b' cs) :=
  Related.all h (related_map fun c hc ↦ .expr (hleaf c hc))

end Connectives

end Predicate

/-! ### Compiled filters -/

section Compile

variable {b : Backend E} {b' : Backend F} {S : E → F → Prop} {shape : Shape}

/-- Related expressions for the constraints of the slots give related predicates of the slots. -/
theorem Slots.predicate_related (h : b.Joins b' S) (own : Slots shape.fields)
    (hleaf : ∀ c ∈ (own.constraints shape.fields).flatten, S (b.constraint c) (b'.constraint c)) :
    Predicate.Related S (own.predicate b) (own.predicate b') :=
  Predicate.Related.all h <| Predicate.related_map fun cs hcs ↦
    .ofConstraints h fun c hc ↦ hleaf c (List.mem_flatten.mpr ⟨cs, hcs, hc⟩)

/-- Assumes: a relation that joining keeps, and negating too unless the filter has no `not` child,
and that relates the expressions of every constraint of the filter. Then it relates what the filter
compiles to. -/
theorem Filter.compile_related (hjoin : b.Joins b' S) (f : Filter shape)
    (hnegate : b.Negates b' S ∨ f.NotFree)
    (hleaf : ∀ c ∈ f.constraints, S (b.constraint c) (b'.constraint c)) :
    Predicate.Related S (f.compile b) (f.compile b') := by
  induction f using Filter.induct with
  | node f hand hor hnot =>
    have hown : Predicate.Related S (f.own.predicate b) (f.own.predicate b') :=
      Slots.predicate_related hjoin f.own fun c hc ↦ hleaf c (mem_constraints_iff.mpr (.inl hc))
    have handAll := Predicate.Related.all hjoin <| Predicate.related_map fun g hg ↦
      hand g hg (hnegate.imp_right fun h ↦ (notFree_iff.mp h).1 g hg) fun c hc ↦
        hleaf c (mem_constraints_iff.mpr (.inr (.inl ⟨g, hg, hc⟩)))
    have horAny := Predicate.Related.any hjoin <| Predicate.related_map fun g hg ↦
      hor g hg (hnegate.imp_right fun h ↦ (notFree_iff.mp h).2.1 g hg) fun c hc ↦
        hleaf c (mem_constraints_iff.mpr (.inr (.inr (.inr ⟨g, hg, hc⟩))))
    have hnotChild : Predicate.Related S (.negate b (f.not.map (compile b)))
        (.negate b' (f.not.map (compile b'))) := by
      -- Expressions are negated for this child only, so a filter without it needs no negation.
      rcases hchild : f.not with _ | g
      · exact .always
      · have hnegates : b.Negates b' S := by
          refine hnegate.resolve_right ?_
          intro hfree
          rw [(notFree_iff.mp hfree).2.2] at hchild
          exact nomatch hchild
        exact (hnot g hchild (.inl hnegates) fun c hc ↦
          hleaf c (mem_constraints_iff.mpr (.inr (.inr (.inl ⟨g, hchild, hc⟩))))).not hnegates
    rw [compile_eq, compile_eq]
    exact (Predicate.Related.all hjoin (.cons hown (.cons handAll (.cons hnotChild .nil)))).or
      hjoin horAny

end Compile

end Listing
