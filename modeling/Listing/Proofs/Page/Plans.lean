import Listing.Proofs.Sql.Execution

/-!
# The same page from a database and from memory

A list request is answered from a table by two statements, one for the page and one for all rows
that match, or from the same list of records in memory. If every record of the table is complete and
the request sorts by declared fields, then both ways give the same records in the same order and the
same summary (`ListQuery.run_eq_execute`).
-/

set_option autoImplicit false
set_option relaxedAutoImplicit false

namespace Listing

open Sql (Atom Condition Dialect Engine Select Source)

variable {R : Type} [Record R] {shape : Shape}

/-- A statement with the condition of a predicate keeps the rows that the predicate selects. -/
theorem Sql.Select.keeps_iff_selects (d : Dialect) {s : Select} {p : Predicate Condition}
    (hs : s.condition = p.toCondition?) (row : R) :
    s.keeps d row = true ↔ p.Selects (Atom.value (Engine.standard d) row) := by
  rw [keeps, hs, Predicate.Selects]
  cases p.toCondition? with
  | none => simp
  | some c => simp

/-- A complete record is selected in a database if it is matched in memory. -/
theorem Filter.selects_compileOption_iff (d : Dialect) (f : Option (Filter shape)) {r : R}
    (h : shape.Complete r) :
    (compileOption (Condition.backend d) f).Selects (Atom.value (Engine.standard d) r) ↔
      (compileOption (Matcher.backend R) f).accepts r = true := by
  cases f with
  | none => exact iff_of_true (fun _ hc ↦ nomatch hc) rfl
  | some f =>
    refine selects_compile_iff_of_present d h.fits fun c hc ↦ ?_
    obtain ⟨spec, hspec, hname, -⟩ := f.declared_of_mem_constraints hc
    obtain ⟨v, hv, -⟩ := h spec hspec
    rw [hname, hv]
    rfl

namespace ListQuery

variable (d : Dialect) (source : Source) (q : ListQuery shape) {table : List R}

/-- The rows that a statement with the condition of the request keeps are those that are matched in
memory. -/
theorem filter_keeps (hcomplete : ∀ r ∈ table, shape.Complete r) {s : Select}
    (hs : s.condition = (Filter.compileOption (Condition.backend d) q.filter).toCondition?) :
    table.filter (s.keeps d) =
      (Filter.compileOption (Matcher.backend R) q.filter).select table := by
  refine List.filter_congr fun r hr ↦ ?_
  rw [Bool.eq_iff_iff, Select.keeps_iff_selects d hs]
  exact Filter.selects_compileOption_iff d q.filter (hcomplete r hr)

/-- The statement for all matching rows gives them in the order of the table. -/
theorem run_matchingStatement (hcomplete : ∀ r ∈ table, shape.Complete r) :
    ((QueryPlan.compile (Condition.backend d) q).matchingStatement source).run d table =
      (Filter.compileOption (Matcher.backend R) q.filter).select table := by
  have hkept := q.filter_keeps d hcomplete
    (s := (QueryPlan.compile (Condition.backend d) q).matchingStatement source) rfl
  rw [← hkept]
  exact List.mergeSort_of_pairwise (List.pairwise_of_forall fun _ _ ↦ rfl)

/-- The statement for the page gives the page. -/
theorem run_pageStatement (hsort : q.sort.fields ⊆ shape.names)
    (hcomplete : ∀ r ∈ table, shape.Complete r) :
    ((QueryPlan.compile (Condition.backend d) q).pageStatement source).run d table =
      (Window.of q.page q.sort.compile).slice
        (q.sort.compile.sort
          ((Filter.compileOption (Matcher.backend R) q.filter).select table)) := by
  have hkeys : ∀ k ∈ q.sort.compile.keys, k.field ∈ shape.names := fun k hk ↦
    hsort (SortSpec.field_mem_of_mem_pair q.sort.fields q.sort.directions hk)
  have hmatching : ∀ r ∈ (Filter.compileOption (Matcher.backend R) q.filter).select table,
      shape.Complete r := fun r hr ↦ hcomplete r (List.mem_of_mem_filter hr)
  have hkept := q.filter_keeps d hcomplete
    (s := (QueryPlan.compile (Condition.backend d) q).pageStatement source) rfl
  rw [SortOrder.sort_eq_sortRows d hkeys hmatching, ← hkept]
  rfl

/-- A database and memory answer alike. Assumes: a request that sorts by declared fields, and a
table in which every record has a value of its kind in every declared field. The statement for the
page gives the page, and the summary for the number of rows that the other statement gives is its
summary. -/
theorem run_eq_execute (hsort : q.sort.fields ⊆ shape.names)
    (hcomplete : ∀ r ∈ table, shape.Complete r) :
    ((QueryPlan.compile (Condition.backend d) q).pageStatement source).run d table =
        ((QueryPlan.compile (Matcher.backend R) q).execute table).content ∧
      (QueryPlan.compile (Condition.backend d) q).summarize (Count.clamp
          (((QueryPlan.compile (Condition.backend d) q).matchingStatement source).run d
            table).length) =
        ((QueryPlan.compile (Matcher.backend R) q).execute table).pagination := by
  refine ⟨run_pageStatement d source q hsort hcomplete, ?_⟩
  have hlength : (q.sort.compile.sort
      ((Filter.compileOption (Matcher.backend R) q.filter).select table)).length =
        ((Filter.compileOption (Matcher.backend R) q.filter).select table).length :=
    (stableSort_perm _ _).length_eq
  rw [run_matchingStatement d source q hcomplete, ← hlength]
  rfl

end ListQuery

/-! ### A small table -/

namespace Courses

/-- Courses with many seats first, the second page of two courses. -/
def bySeats : ListQuery Courses.shape where
  filter := some popular
  sort := ⟨["seats", "title"], [.desc]⟩
  page := some ⟨1, 2⟩

/-- Courses that are all popular but for the third one. -/
def table : List Row :=
  [row "bac" (some 2), row "B" (some 1), row "abc" (some 9), row "ab" (some 7), row "b" (some 7)]

end Courses

/-- The second page of the popular courses holds the two with the fewest seats. -/
theorem ListQuery.run_eq_execute_bySeats :
    Courses.bySeats.sort.fields ⊆ Courses.shape.names ∧
      (∀ r ∈ Courses.table, Courses.shape.Complete r) ∧
      (((QueryPlan.compile (Condition.backend .sqlite) Courses.bySeats).pageStatement
          ⟨"course", "title"⟩).run .sqlite Courses.table).map (Record.field · "title") =
        [some (.text "bac"), some (.text "B")] := by
  have hsort : Courses.bySeats.sort.fields ⊆ Courses.shape.names := by decide
  have hcomplete : ∀ r ∈ Courses.table, Courses.shape.Complete r := by
    decide
  refine ⟨hsort, hcomplete, ?_⟩
  rw [(run_eq_execute .sqlite ⟨"course", "title"⟩ Courses.bySeats hsort hcomplete).1]
  decide

end Listing
