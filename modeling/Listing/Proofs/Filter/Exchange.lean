import Listing.Proofs.Filter.Meaning
import Listing.Proofs.Filter.Paths
import Mathlib.Algebra.Ring.Parity

/-!
# Exchanging a node of a filter

`Filter.Exchanged` says that two filters are the same but for one node, which a way through given
clauses leads to in both. Every node can be exchanged for every filter
(`Filter.path_iff_exists_exchanged`), and an exchange can be undone (`Filter.Exchanged.symm`).

What an exchange does to the meaning of the whole filter is known from what it does to the meaning
of the node. A node asks for more if an `and` or `or` child does, and for less if its `not` child
does. So along a way the direction is kept if the number of `not` steps is even and turned round if
it is odd (`Filter.Exchanged.holds_mono`). A node that is exchanged for one of the same meaning
leaves the meaning of the whole filter as it is (`Filter.Exchanged.holds_congr`).
-/

set_option autoImplicit false
set_option relaxedAutoImplicit false

namespace Listing

namespace Filter

variable {shape : Shape}

/-! ### Two filters that differ in a node -/

/-- The second filter is the first one with the node `g` at the end of a way through these clauses
exchanged for `g'`. -/
inductive Exchanged (g g' : Filter shape) : List Clause → Filter shape → Filter shape → Prop
  | here : Exchanged g g' [] g g'
  | and {own : Slots shape.fields} {before after or : List (Filter shape)}
      {not : Option (Filter shape)} {clauses : List Clause} {c c' : Filter shape}
      (hchild : Exchanged g g' clauses c c') :
      Exchanged g g' (.and :: clauses) ⟨own, before ++ c :: after, or, not⟩
        ⟨own, before ++ c' :: after, or, not⟩
  | or {own : Slots shape.fields} {and before after : List (Filter shape)}
      {not : Option (Filter shape)} {clauses : List Clause} {c c' : Filter shape}
      (hchild : Exchanged g g' clauses c c') :
      Exchanged g g' (.or :: clauses) ⟨own, and, before ++ c :: after, not⟩
        ⟨own, and, before ++ c' :: after, not⟩
  | not {own : Slots shape.fields} {and or : List (Filter shape)} {clauses : List Clause}
      {c c' : Filter shape} (hchild : Exchanged g g' clauses c c') :
      Exchanged g g' (.not :: clauses) ⟨own, and, or, some c⟩ ⟨own, and, or, some c'⟩

variable {g g' f f' : Filter shape} {clauses : List Clause}

/-- An exchange can be undone. -/
theorem Exchanged.symm (h : Exchanged g g' clauses f f') : Exchanged g' g clauses f' f := by
  induction h with
  | here => exact .here
  | and _ ih => exact .and ih
  | or _ ih => exact .or ih
  | not _ ih => exact .not ih

/-- The exchanged node stands at the end of a way through the clauses. -/
theorem Exchanged.path (h : Exchanged g g' clauses f f') : f.Path clauses g := by
  induction h with
  | here => exact .here g
  | and _ ih => exact .down (List.mem_append_right _ List.mem_cons_self) ih
  | or _ ih => exact .down (List.mem_append_right _ List.mem_cons_self) ih
  | not _ ih => exact .down (Option.mem_toList.mpr rfl) ih

/-- Every node of a filter can be exchanged for every other filter. -/
theorem Path.exists_exchanged (h : f.Path clauses g) (g' : Filter shape) :
    ∃ f', Exchanged g g' clauses f f' := by
  induction h with
  | here g => exact ⟨g', .here⟩
  | @down f c g clause clauses hchild hrest ih =>
    obtain ⟨c', hc⟩ := ih
    obtain ⟨own, and, or, not⟩ := f
    cases clause with
    | and =>
      obtain ⟨before, after, rfl⟩ := List.append_of_mem hchild
      exact ⟨_, .and hc⟩
    | or =>
      obtain ⟨before, after, rfl⟩ := List.append_of_mem hchild
      exact ⟨_, .or hc⟩
    | not =>
      obtain rfl : not = some c := Option.mem_toList.mp hchild
      exact ⟨_, .not hc⟩

/-- A way leads to a node exactly if the node can be exchanged at its end. -/
theorem path_iff_exists_exchanged (g' : Filter shape) :
    f.Path clauses g ↔ ∃ f', Exchanged g g' clauses f f' :=
  ⟨fun h ↦ h.exists_exchanged g', fun ⟨_, h⟩ ↦ h.path⟩

/-! ### The meaning of the whole filter -/

section Meaning

variable {met : Constraint → Prop} {own : Slots shape.fields}
  {and or before after : List (Filter shape)} {not : Option (Filter shape)} {c c' : Filter shape}

/-- A node is satisfied with an `and` child that asks for less. -/
theorem holds_mono_and (h : c.Holds met → c'.Holds met) :
    Holds met ⟨own, before ++ c :: after, or, not⟩ →
      Holds met ⟨own, before ++ c' :: after, or, not⟩ := by
  rw [holds_iff, holds_iff]
  rintro (⟨hown, hand, hnot⟩ | hor)
  · refine .inl ⟨hown, ?_, hnot⟩
    rw [List.forall_mem_append, List.forall_mem_cons] at hand ⊢
    exact ⟨hand.1, h hand.2.1, hand.2.2⟩
  · exact .inr hor

/-- A node is satisfied with an `or` child that asks for less. -/
theorem holds_mono_or (h : c.Holds met → c'.Holds met) :
    Holds met ⟨own, and, before ++ c :: after, not⟩ →
      Holds met ⟨own, and, before ++ c' :: after, not⟩ := by
  rw [holds_iff, holds_iff]
  refine Or.imp_right ?_
  rintro ⟨d, hd, hholds⟩
  rcases List.mem_append.mp hd with hbefore | hrest
  · exact ⟨d, List.mem_append_left _ hbefore, hholds⟩
  · rcases List.mem_cons.mp hrest with rfl | hafter
    · exact ⟨c', List.mem_append_right _ List.mem_cons_self, h hholds⟩
    · exact ⟨d, List.mem_append_right _ (List.mem_cons_of_mem _ hafter), hholds⟩

/-- A node is satisfied with a `not` child that asks for more. -/
theorem holds_anti_not (h : c.Holds met → c'.Holds met) :
    Holds met ⟨own, and, or, some c'⟩ → Holds met ⟨own, and, or, some c⟩ := by
  rw [holds_iff, holds_iff]
  refine Or.imp_left ?_
  rintro ⟨hown, hand, hnot⟩
  refine ⟨hown, hand, ?_⟩
  rintro _ ⟨⟩ hholds
  exact hnot c' rfl (h hholds)

/-- Assumes: the new node is satisfied where the old one is. So is the new filter if the way to the
node takes an even number of `not` steps, and it is the other way round if their number is odd. -/
theorem Exchanged.holds_mono (hnode : g.Holds met → g'.Holds met)
    (h : Exchanged g g' clauses f f') :
    (Even (clauses.count .not) → f.Holds met → f'.Holds met) ∧
      (Odd (clauses.count .not) → f'.Holds met → f.Holds met) := by
  induction h with
  | here => exact ⟨fun _ ↦ hnode, fun hodd ↦ absurd hodd Nat.not_odd_zero⟩
  | and _ ih =>
    exact ⟨fun heven ↦ holds_mono_and (ih.1 heven), fun hodd ↦ holds_mono_and (ih.2 hodd)⟩
  | or _ ih =>
    exact ⟨fun heven ↦ holds_mono_or (ih.1 heven), fun hodd ↦ holds_mono_or (ih.2 hodd)⟩
  | not _ ih =>
    -- The step turns the direction round, and the number of `not` steps changes its parity.
    rw [List.count_cons_self, Nat.even_add_one, Nat.not_even_iff_odd, Nat.odd_add_one,
      Nat.not_odd_iff_even]
    exact ⟨fun hodd ↦ holds_anti_not (ih.2 hodd), fun heven ↦ holds_anti_not (ih.1 heven)⟩

/-- A node may be exchanged for one that is satisfied in the same cases. -/
theorem Exchanged.holds_congr (hnode : g.Holds met ↔ g'.Holds met)
    (h : Exchanged g g' clauses f f') : f.Holds met ↔ f'.Holds met := by
  rcases Nat.even_or_odd (clauses.count .not) with heven | hodd
  · exact ⟨(h.holds_mono hnode.mp).1 heven, (h.symm.holds_mono hnode.mpr).1 heven⟩
  · exact ⟨(h.symm.holds_mono hnode.mpr).2 hodd, (h.holds_mono hnode.mp).2 hodd⟩

end Meaning

end Filter

end Listing
