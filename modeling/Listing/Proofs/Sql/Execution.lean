import Listing.Proofs.Filter.Skeleton
import Listing.Proofs.Sort.Stability
import Listing.Proofs.Sql.Agreement
import Listing.Plan

/-!
# What a database answers

`Select.run` is the answer of a database to a statement on a table: of the rows for which the
condition is true, sorted by the keys of the statement, those in the range. Rows that no key tells
apart keep the order of the table.

A complete record has a value of its kind in every declared field (`Shape.Complete`). On complete
records the keys of a request compare in memory as they do in a database, and both comparisons are a
total preorder there (`SortOrder.sameOrder_compare`). So the database sorts the rows of a table as
they are sorted in memory (`SortOrder.sort_eq_sortRows`).
-/

set_option autoImplicit false
set_option relaxedAutoImplicit false

namespace Listing

variable {R : Type} [Record R]

/-! ### Statements -/

namespace Sql

/-- Compares two data of a row. Missing data come last in PostgreSQL and first elsewhere. -/
def Dialect.compareData (d : Dialect) : Option Datum → Option Datum → Ordering
  | none, none => .eq
  | none, some _ => if d = .postgres then .gt else .lt
  | some _, none => if d = .postgres then .lt else .gt
  | some x, some y => (x.compare? y).getD .eq

/-- Compares two rows by a sort key; the rows change places if the direction is descending. -/
def Dialect.compareRows (d : Dialect) (k : SortKey) (a b : R) : Ordering :=
  match k.direction with
  | .asc => d.compareData ((Record.field a k.field).map .ofValue)
      ((Record.field b k.field).map .ofValue)
  | .desc => d.compareData ((Record.field b k.field).map .ofValue)
      ((Record.field a k.field).map .ofValue)

/-- Compares two rows by the first sort key that tells them apart. -/
def Dialect.compareRowsBy (d : Dialect) : List SortKey → R → R → Ordering
  | [], _, _ => .eq
  | k :: ks, a, b => compareLex (d.compareRows k) (d.compareRowsBy ks) a b

/-- Sorts rows by keys. -/
def Dialect.sortRows (d : Dialect) (keys : List SortKey) (rows : List R) : List R :=
  rows.mergeSort fun a b ↦ (d.compareRowsBy keys a b).isLE

namespace Select

/-- Whether the condition of a statement is true for a row. -/
def keeps (d : Dialect) (s : Select) (row : R) : Bool :=
  s.condition.all fun c ↦ c.value (Atom.value (Engine.standard d) row) = .yes

/-- The answer of a database to a statement. -/
def run (d : Dialect) (s : Select) (table : List R) : List R :=
  let sorted := d.sortRows s.order.keys (table.filter (s.keeps d))
  match s.range with
  | none => sorted
  | some r => (sorted.drop r.offset.toNat).take r.limit.toNat

end Select

end Sql

/-! ### Complete records -/

/-- Every declared field of the record has a value of its kind. -/
def Shape.Complete (shape : Shape) (r : R) : Prop :=
  ∀ f ∈ shape.fields, ∃ v ∈ Record.field r f.name, v.kind = f.kind

instance (shape : Shape) (r : R) : Decidable (shape.Complete r) :=
  inferInstanceAs (Decidable (∀ f ∈ shape.fields, ∃ v ∈ Record.field r f.name, v.kind = f.kind))

/-- A complete record has values of the right kinds. -/
theorem Shape.Complete.fits {shape : Shape} {r : R} (h : shape.Complete r) : shape.Fits r := by
  intro f hf v hv
  obtain ⟨w, hw, hkind⟩ := h f hf
  rw [← hkind, Option.mem_unique hv hw]

/-! ### Comparing data -/

/-- The database has the order of the values of one kind. -/
theorem Sql.Datum.compare?_ofValue {v w : Value} (h : w.kind = v.kind) :
    (Sql.Datum.ofValue v).compare? (.ofValue w) = v.compare? w := by
  cases v with
  | text s =>
    cases w with
    | text t => rfl
    | _ => exact nomatch h
  | integer m =>
    cases w with
    | integer n => rfl
    | _ => exact nomatch h
  | moment t =>
    cases w with
    | moment u => rfl
    | _ => exact nomatch h
  | flag b =>
    cases w with
    | flag c => rfl
    | _ => exact nomatch h

/-! ### Sorting complete records -/

/-- On complete records both comparisons are the same total preorder. -/
def Shape.SameOrder (shape : Shape) (compare compare' : R → R → Ordering) : Prop :=
  ∃ cmp : R → R → Ordering, Std.TransCmp cmp ∧ ∀ a b, shape.Complete a → shape.Complete b →
    compare a b = cmp a b ∧ compare' a b = cmp a b

variable {shape : Shape} (d : Sql.Dialect)

/-- A sort key on a declared field compares in memory as in a database. -/
theorem SortKey.sameOrder_compare {k : SortKey} (hk : k.field ∈ shape.names) :
    shape.SameOrder (R := R) k.compare (d.compareRows k) := by
  obtain ⟨spec, hspec, hname⟩ := List.mem_map.mp hk
  have hvalues : ∀ a b : R, shape.Complete a → shape.Complete b → ∃ v w,
      Record.field a k.field = some v ∧ Record.field b k.field = some w ∧
        v.kind = spec.kind ∧ w.kind = v.kind := by
    intro a b ha hb
    obtain ⟨v, hv, hvk⟩ := ha spec hspec
    obtain ⟨w, hw, hwk⟩ := hb spec hspec
    exact ⟨v, w, hname ▸ hv, hname ▸ hw, hvk, hwk.trans hvk.symm⟩
  have hmemory : ∀ a b : R, shape.Complete a → shape.Complete b →
      compareOptional (Record.field a k.field) (Record.field b k.field) =
        spec.kind.compareField k.field a b := by
    intro a b ha hb
    obtain ⟨v, w, hv, hw, hvk, hwk⟩ := hvalues a b ha hb
    rw [hv, hw, compareOptional, Kind.compare?_eq hwk, Option.getD_some, hvk]
    exact congrArg₂ spec.kind.compare hv.symm hw.symm
  have hdatabase : ∀ a b : R, shape.Complete a → shape.Complete b →
      d.compareData ((Record.field a k.field).map .ofValue)
        ((Record.field b k.field).map .ofValue) =
        spec.kind.compareField k.field a b := by
    intro a b ha hb
    obtain ⟨v, w, hv, hw, hvk, hwk⟩ := hvalues a b ha hb
    rw [hv, hw, Option.map_some, Option.map_some, Sql.Dialect.compareData,
      Sql.Datum.compare?_ofValue hwk, Kind.compare?_eq hwk, Option.getD_some, hvk]
    exact congrArg₂ spec.kind.compare hv.symm hw.symm
  obtain ⟨field, direction⟩ := k
  cases direction with
  | asc =>
    exact ⟨spec.kind.compareField field, inferInstance,
      fun a b ha hb ↦ ⟨hmemory a b ha hb, hdatabase a b ha hb⟩⟩
  | desc =>
    -- Memory turns the outcome around, the database changes the places of the rows.
    refine ⟨fun a b ↦ spec.kind.compareField field b a, Std.TransCmp.opposite,
      fun a b ha hb ↦ ⟨?_, hdatabase b a hb ha⟩⟩
    exact (congrArg Ordering.swap (hmemory a b ha hb)).trans Std.OrientedCmp.eq_swap.symm

/-- The keys of a request compare in memory as in a database. -/
theorem SortOrder.sameOrder_compare {keys : List SortKey}
    (hkeys : ∀ k ∈ keys, k.field ∈ shape.names) :
    shape.SameOrder (R := R) (SortOrder.compare ⟨keys⟩) (d.compareRowsBy keys) := by
  induction keys with
  | nil =>
    have hequal : Std.TransCmp fun _ _ : R ↦ Ordering.eq :=
      { eq_swap := rfl, isLE_trans := fun _ h ↦ h }
    exact ⟨fun _ _ ↦ .eq, hequal, fun _ _ _ _ ↦ ⟨rfl, rfl⟩⟩
  | cons k keys ih =>
    obtain ⟨first, hfirst, hk⟩ := SortKey.sameOrder_compare (R := R) d (hkeys k List.mem_cons_self)
    obtain ⟨rest, hrest, hks⟩ := ih fun k hk ↦ hkeys k (List.mem_cons_of_mem _ hk)
    refine ⟨compareLex first rest, inferInstance, fun a b ha hb ↦ ⟨?_, ?_⟩⟩
    · exact congrArg₂ Ordering.then (hk a b ha hb).1 (hks a b ha hb).1
    · exact congrArg₂ Ordering.then (hk a b ha hb).2 (hks a b ha hb).2

/-- Assumes: two comparisons that are the same total preorder on complete records. Then complete
records are sorted by the one in memory as by the other one in a database. -/
theorem Shape.SameOrder.stableSort_eq {compare compare' : R → R → Ordering}
    (h : shape.SameOrder compare compare') {rs : List R} (hrs : ∀ r ∈ rs, shape.Complete r) :
    stableSort (fun a b ↦ (compare a b).isLT) rs =
      rs.mergeSort fun a b ↦ (compare' a b).isLE := by
  obtain ⟨cmp, hcmp, hagree⟩ := h
  -- Both sorts are led over to the preorder, for which insertion and merging sort alike.
  have hstable : stableSort (fun a b ↦ (compare a b).isLT) rs =
      stableSort (fun a b ↦ (cmp a b).isLT) rs :=
    stableSort_congr fun a ha b hb ↦
      congrArg Ordering.isLT (hagree a b (hrs a ha) (hrs b hb)).1
  have hmerge : rs.mergeSort (fun a b ↦ (cmp a b).isLE) =
      rs.mergeSort fun a b ↦ (compare' a b).isLE := by
    have hle : ∀ a ∈ rs, ∀ b ∈ rs, (cmp a b).isLE = (compare' (id a) (id b)).isLE :=
      fun a ha b hb ↦ congrArg Ordering.isLE (hagree a b (hrs a ha) (hrs b hb)).2.symm
    have hmap : (rs.mergeSort fun a b ↦ (cmp a b).isLE).map id =
        (rs.map id).mergeSort fun a b ↦ (compare' a b).isLE := List.map_mergeSort hle
    rwa [List.map_id, List.map_id] at hmap
  rw [hstable, stableSort_eq_mergeSort, hmerge]

/-- A database sorts complete rows by the keys of a request as they are sorted in memory. -/
theorem SortOrder.sort_eq_sortRows {o : SortOrder} (hkeys : ∀ k ∈ o.keys, k.field ∈ shape.names)
    {rs : List R} (hrs : ∀ r ∈ rs, shape.Complete r) : o.sort rs = d.sortRows o.keys rs :=
  (sameOrder_compare d hkeys).stableSort_eq hrs

end Listing
