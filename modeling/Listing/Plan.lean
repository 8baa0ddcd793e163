import Listing.Filter.Compile
import Listing.Memory
import Listing.Request.Query
import Listing.Sort.Routine
import Listing.Sql.Select

/-!
# Query plans

A plan is a list request compiled for a backend: a predicate and a window. In memory it is executed
on a list of records, which are sorted by insertion (`QueryPlan.execute`) or by any other routine
(`QueryPlan.executeBy`); for a database it becomes two statements, one that selects all that the
predicate matches, to be counted, and one that selects the page.
-/

set_option autoImplicit false
set_option relaxedAutoImplicit false

namespace Listing

/-- A compiled list request. -/
structure QueryPlan (E : Type) where
  predicate : Predicate E
  window : Window
  page : Option PageRequest

namespace QueryPlan

variable {E : Type} {shape : Shape}

/-- Compiles a list request for a backend. -/
def compile (b : Backend E) (q : ListQuery shape) : QueryPlan E :=
  ⟨Filter.compileOption b q.filter, Window.of q.page q.sort.compile, q.page⟩

/-- The summary of a page if the predicate matches the given number of records. -/
def summarize (p : QueryPlan E) (total : Count) : Summary := Summary.of p.page total

/-- The page of the matching records, which are sorted. -/
def pageOf {R : Type} (p : QueryPlan E) (sorted : List R) : Page R :=
  ⟨p.window.slice sorted, p.summarize (Count.clamp sorted.length)⟩

/-- The page of a list of records. -/
def execute {R : Type} [Record R] (p : QueryPlan (Matcher R)) (rs : List R) : Page R :=
  p.pageOf (p.window.order.sort (p.predicate.select rs))

/-- The page of a list of records that are sorted by a routine; if the routine stops, there is no
page. -/
def executeBy {R : Type} [Record R] (routine : SortRoutine) (p : QueryPlan (Matcher R))
    (rs : List R) : Option (Page R) :=
  (p.window.order.sortBy routine (p.predicate.select rs)).map p.pageOf

/-- The statement that selects all records the predicate matches. -/
def matchingStatement (p : QueryPlan Sql.Condition) (source : Sql.Source) : Sql.Select :=
  { source, condition := p.predicate.toCondition? }

/-- The statement that selects the page. -/
def pageStatement (p : QueryPlan Sql.Condition) (source : Sql.Source) : Sql.Select :=
  { p.matchingStatement source with order := p.window.order, range := p.window.range }

end QueryPlan

end Listing
