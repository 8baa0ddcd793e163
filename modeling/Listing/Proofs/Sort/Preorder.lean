import Listing.Proofs.Sort.Kinds
import Listing.Sort.Basic

/-!
# The order of a sort request is a preorder

Comparing two records the other way round turns the outcome around, whatever the records hold
(`SortOrder.compare_swap`). Values of different kinds compare equal, so a value of another kind can
stand between two values that differ: the comparison is transitive only among records whose values
in the field of each key are of one kind (`SortOrder.compare_preorder`), and
`SortOrder.not_isLE_trans_of_kinds` shows three records for which it is not.

A missing value comes before all others and does no harm. Among records that are uniform in this
sense the order is one of a comparison that is a total preorder everywhere
(`SortOrder.exists_transCmp`).
-/

set_option autoImplicit false
set_option relaxedAutoImplicit false

namespace Listing

variable {R : Type} [Record R]

/-! ### Turning a comparison around -/

/-- Values that are compared the other way round have the opposite outcome, or none. -/
theorem Value.compare?_swap (v w : Value) : w.compare? v = (v.compare? w).map Ordering.swap := by
  cases v with
  | text s =>
    cases w with
    | text t => exact congrArg some Std.OrientedCmp.eq_swap
    | _ => rfl
  | integer m =>
    cases w with
    | integer n => exact congrArg some Std.OrientedCmp.eq_swap
    | _ => rfl
  | moment t =>
    cases w with
    | moment u => exact congrArg some Std.OrientedCmp.eq_swap
    | _ => rfl
  | flag b =>
    cases w with
    | flag c => exact congrArg some Std.OrientedCmp.eq_swap
    | _ => rfl

theorem compareOptional_swap (v w : Option Value) :
    compareOptional w v = (compareOptional v w).swap := by
  cases v with
  | none => cases w <;> rfl
  | some v =>
    cases w with
    | none => rfl
    | some w =>
      rw [compareOptional, compareOptional, v.compare?_swap w]
      cases v.compare? w <;> rfl

/-- Turning the outcome around and comparing the other way round commute. -/
theorem Direction.apply_swap (d : Direction) (o : Ordering) :
    d.apply o.swap = (d.apply o).swap := by
  cases d <;> rfl

theorem SortKey.compare_swap (k : SortKey) (a b : R) : k.compare b a = (k.compare a b).swap := by
  rw [compare, compareOptional_swap (Record.field a k.field), Direction.apply_swap]
  rfl

/-- Records that are compared the other way round have the opposite outcome. -/
theorem SortOrder.compare_swap (o : SortOrder) (a b : R) :
    o.compare b a = (o.compare a b).swap := by
  obtain ⟨keys⟩ := o
  induction keys with
  | nil => rfl
  | cons k keys ih =>
    change (k.compare b a).then (compare ⟨keys⟩ b a) =
      ((k.compare a b).then (compare ⟨keys⟩ a b)).swap
    rw [k.compare_swap a b, ih, Ordering.swap_then]

/-! ### Values of one kind -/

namespace Kind

/-- Compares values as those of a kind; no value comes before a value. -/
def compareOptional (kind : Kind) : Option Value → Option Value → Ordering :=
  compareLex (compareOn Option.isSome) kind.compare

instance transCmp_compareOptional (kind : Kind) : Std.TransCmp kind.compareOptional :=
  inferInstanceAs (Std.TransCmp (compareLex (compareOn Option.isSome) kind.compare))

/-- Values of a kind, which may be missing, are compared as those of the kind. -/
theorem compareOptional_eq {kind : Kind} {v w : Option Value} (hv : ∀ x ∈ v, x.kind = kind)
    (hw : ∀ x ∈ w, x.kind = kind) : Listing.compareOptional v w = kind.compareOptional v w := by
  have hself : kind.compare none none = .eq := Std.ReflCmp.compare_self
  cases v with
  | none =>
    cases w with
    | none => exact hself.symm
    | some w => rfl
  | some v =>
    cases w with
    | none => rfl
    | some w =>
      obtain rfl := hv v rfl
      rw [Listing.compareOptional, compare?_eq (hw w rfl)]
      rfl

/-- Compares records by the field of a key as by values of a kind. The records change places if the
direction is descending. -/
def compareBy (kind : Kind) (k : SortKey) (a b : R) : Ordering :=
  match k.direction with
  | .asc => kind.compareOptional (Record.field a k.field) (Record.field b k.field)
  | .desc => kind.compareOptional (Record.field b k.field) (Record.field a k.field)

instance transCmp_compareBy (kind : Kind) (k : SortKey) :
    Std.TransCmp (kind.compareBy (R := R) k) := by
  obtain ⟨field, direction⟩ := k
  have hfield : Std.TransCmp fun a b : R ↦
      kind.compareOptional (Record.field a field) (Record.field b field) :=
    transCmp_comap kind.compareOptional (Record.field · field)
  cases direction with
  | asc => exact hfield
  | desc => exact @Std.TransCmp.opposite _ _ hfield

/-- Assumes: two records with values of the kind, if any, in the field of a key. The key compares
them as values of the kind. -/
theorem compare_eq_compareBy {kind : Kind} {k : SortKey} {a b : R}
    (ha : ∀ v ∈ Record.field a k.field, v.kind = kind)
    (hb : ∀ v ∈ Record.field b k.field, v.kind = kind) : k.compare a b = kind.compareBy k a b := by
  obtain ⟨field, direction⟩ := k
  cases direction with
  | asc => exact compareOptional_eq ha hb
  | desc =>
    rw [SortKey.compare, compareOptional_swap (Record.field b field), compareOptional_eq hb ha]
    exact Ordering.swap_swap

end Kind

/-! ### Uniform records -/

namespace SortOrder

/-- The values of the records in the field of each key are of one kind. They may be missing. -/
def Uniform (o : SortOrder) (rs : List R) : Prop :=
  ∀ k ∈ o.keys, ∃ kind : Kind, ∀ r ∈ rs, ∀ v ∈ Record.field r k.field, v.kind = kind

/-- Uniform records are compared as by a total preorder. -/
theorem exists_transCmp {o : SortOrder} {rs : List R} (h : o.Uniform rs) :
    ∃ cmp : R → R → Ordering, Std.TransCmp cmp ∧
      ∀ a ∈ rs, ∀ b ∈ rs, o.compare a b = cmp a b := by
  obtain ⟨keys⟩ := o
  induction keys with
  | nil =>
    have hequal : Std.TransCmp fun _ _ : R ↦ Ordering.eq :=
      { eq_swap := rfl, isLE_trans := fun _ h ↦ h }
    exact ⟨fun _ _ ↦ .eq, hequal, fun _ _ _ _ ↦ rfl⟩
  | cons k keys ih =>
    obtain ⟨kind, hkind⟩ := h k List.mem_cons_self
    obtain ⟨rest, hrest, hkeys⟩ := ih fun k hk ↦ h k (List.mem_cons_of_mem _ hk)
    refine ⟨compareLex (kind.compareBy k) rest, inferInstance, fun a ha b hb ↦ ?_⟩
    exact congrArg₂ Ordering.then (Kind.compare_eq_compareBy (hkind a ha) (hkind b hb))
      (hkeys a ha b hb)

/-- Comparing records the other way round turns the outcome around, and among three records that
are uniform the comparison is transitive. -/
theorem compare_preorder (o : SortOrder) :
    (∀ a b : R, o.compare b a = (o.compare a b).swap) ∧
      ∀ a b c : R, o.Uniform [a, b, c] → (o.compare a b).isLE → (o.compare b c).isLE →
        (o.compare a c).isLE := by
  refine ⟨o.compare_swap, fun a b c huniform hab hbc ↦ ?_⟩
  obtain ⟨cmp, htrans, hcmp⟩ := exists_transCmp huniform
  have ha : a ∈ [a, b, c] := List.mem_cons_self
  have hb : b ∈ [a, b, c] := List.mem_cons_of_mem _ List.mem_cons_self
  have hc : c ∈ [a, b, c] := List.mem_cons_of_mem _ (List.mem_cons_of_mem _ List.mem_cons_self)
  rw [hcmp a ha b hb] at hab
  rw [hcmp b hb c hc] at hbc
  rw [hcmp a ha c hc]
  exact Std.TransCmp.isLE_trans hab hbc

/-- Many seats first, then by title: a course of unknown size comes last, behind courses that are
alike but for the title. -/
theorem compare_preorder_seats :
    let o : SortOrder := ⟨[⟨"seats", .desc⟩, ⟨"title", .asc⟩]⟩
    let a := Courses.row "a" (some 7)
    let b := Courses.row "b" (some 7)
    let c := Courses.row "a" none
    o.Uniform [a, b, c] ∧ (o.compare a b).isLE ∧ (o.compare b c).isLE ∧ (o.compare a c).isLE := by
  intro o a b c
  have huniform : o.Uniform [a, b, c] :=
    List.forall_mem_cons.mpr ⟨⟨.integer, by decide⟩,
      List.forall_mem_cons.mpr ⟨⟨.text, by decide⟩, nofun⟩⟩
  have hab : (o.compare a b).isLE := by decide
  have hbc : (o.compare b c).isLE := by decide
  exact ⟨huniform, hab, hbc, o.compare_preorder.2 a b c huniform hab hbc⟩

/-- A text between two integers compares equal with both, though the first one is the greater. -/
theorem not_isLE_trans_of_kinds :
    let o : SortOrder := ⟨[⟨"x", .asc⟩]⟩
    let record (v : Value) : Row := ⟨fun name ↦ if name = "x" then some v else none⟩
    let a := record (.integer 1)
    let b := record (.text "a")
    let c := record (.integer 0)
    ¬((o.compare a b).isLE → (o.compare b c).isLE → (o.compare a c).isLE) := by
  decide

end SortOrder

end Listing
