import Listing.Plan
import Listing.Proofs.Filter.Meaning
import Listing.Proofs.Request.Reading

/-!
# The first fault of a request is reported

The parameters of a request are checked one after the other: the filter, the list of fields, the
fields themselves, the list of directions, the directions themselves and the page size.
`Check.Fails` says for each check alone when it fails and with which error. The error of a request
is that of the first check that fails, and a request is read if none does
(`ListQuery.ofParams_eq_iff_checks`); it is then the one that the parameters describe, and its plan
asks for at least one record and at most for the largest page.
-/

set_option autoImplicit false
set_option relaxedAutoImplicit false

namespace Listing

open Json (Fault decodeText)

/-- The checks that the parameters of a request must pass. -/
inductive Check where
  | filter
  | list (parameter : ListParameter)
  | fields
  | directions
  | size
deriving DecidableEq

/-- The text of a parameter that holds a list. -/
def ListParams.list (params : ListParams) : ListParameter → Option String
  | .sort => params.sort
  | .order => params.order

namespace Check

/-- The checks in the order in which they are made: what a list holds is checked right after the
list itself. -/
def all : List Check := [filter, list .sort, fields, list .order, directions, size]

theorem mem_all (c : Check) : c ∈ all := by
  cases c with
  | list parameter => cases parameter <;> decide
  | _ => decide

/-- The check fails with the error, whatever becomes of the others. Of several fields or directions
at fault the first one is named. -/
inductive Fails (shape : Shape) (params : ListParams) : Check → RequestError → Prop
  | filter {s : String} {fault : Fault} (hparam : params.filter = some s)
      (hblank : Text.trim s ≠ "")
      (hfault : decodeText (@Filter.decoder shape) (Text.trim s) = .error fault) :
      Fails shape params .filter (.invalidFilter fault)
  | list {parameter : ListParameter} {s : String} {fault : Fault}
      (hparam : params.list parameter = some s) (hopen : (Text.trim s).toList.head? = some '[')
      (hfault : decodeText (.list .string) (Text.trim s) = .error fault) :
      Fails shape params (.list parameter) (.invalidSort parameter fault)
  | fields {before after : List String} {field : String}
      (hparam : SpellsList params.sort (before ++ field :: after))
      (hbefore : ∀ f ∈ before, f ≠ "" ∧ f ∈ shape.names)
      (hfield : ¬(field ≠ "" ∧ field ∈ shape.names)) :
      Fails shape params .fields (.unknownSortField field)
  | directions {before after : List String} {item : String}
      (hparam : SpellsList params.order (before ++ item :: after))
      (hbefore : ∀ i ∈ before, ∃ d, SpellsDirection i d) (hitem : ∀ d, ¬SpellsDirection item d) :
      Fails shape params .directions (.invalidDirection (Text.trim item))
  | size (hparam : params.size = some 0) : Fails shape params .size .zeroPageSize

/-! ### Finding the error of a check -/

/-- The error of a step that fails. -/
def errorOf? {α : Type} : Except RequestError α → Option RequestError
  | .error e => some e
  | .ok _ => none

theorem errorOf?_eq_some_iff {α : Type} {x : Except RequestError α} {e : RequestError} :
    errorOf? x = some e ↔ x = .error e := by
  cases x <;> simp [errorOf?]

/-- The error with which a check fails. A check on what a list holds passes if there is no list. -/
def error? (shape : Shape) (params : ListParams) : Check → Option RequestError
  | filter => errorOf? (readFilter shape params.filter)
  | list parameter => errorOf? (readList parameter (params.list parameter))
  | fields => (readList .sort params.sort).toOption.bind fun fields ↦
    ((SortSpec.mk fields []).unknownField? shape.names).map .unknownSortField
  | directions => (readList .order params.order).toOption.bind fun items ↦
    errorOf? (items.mapM readDirection)
  | size => if params.size = some 0 then some .zeroPageSize else none

variable {shape : Shape} {params : ListParams}

theorem toOption_eq_some_iff {ε α : Type} {x : Except ε α} {a : α} :
    x.toOption = some a ↔ x = .ok a := by
  cases x <;> simp [Except.toOption]

/-- The error is found with which a check fails. -/
theorem error?_eq_some_iff {c : Check} {e : RequestError} :
    c.error? shape params = some e ↔ c.Fails shape params e := by
  cases c with
  | filter =>
    rw [error?, errorOf?_eq_some_iff, readFilter_eq_error_iff]
    constructor
    · rintro ⟨s, fault, hparam, hblank, hfault, rfl⟩
      exact .filter hparam hblank hfault
    · intro h
      cases h with
      | filter hparam hblank hfault => exact ⟨_, _, hparam, hblank, hfault, rfl⟩
  | list parameter =>
    rw [error?, errorOf?_eq_some_iff, readList_eq_error_iff]
    constructor
    · rintro ⟨s, fault, hparam, hopen, hfault, rfl⟩
      exact .list hparam hopen hfault
    · intro h
      cases h with
      | list hparam hopen hfault => exact ⟨_, _, hparam, hopen, hfault, rfl⟩
  | fields =>
    simp only [error?, Option.bind_eq_some_iff, toOption_eq_some_iff, readList_eq_ok_iff,
      Option.map_eq_some_iff, SortSpec.unknownField?_eq_some_iff]
    constructor
    · rintro ⟨_, hparam, field, ⟨before, after, rfl, hbefore, hfield⟩, rfl⟩
      exact .fields hparam hbefore hfield
    · intro h
      cases h with
      | fields hparam hbefore hfield => exact ⟨_, hparam, _, ⟨_, _, rfl, hbefore, hfield⟩, rfl⟩
  | directions =>
    simp only [error?, Option.bind_eq_some_iff, toOption_eq_some_iff, readList_eq_ok_iff,
      errorOf?_eq_some_iff, mapM_eq_error_iff, readDirection_eq_ok_iff, readDirection_eq_error_iff]
    constructor
    · rintro ⟨_, hparam, before, item, after, rfl, hbefore, hitem, rfl⟩
      exact .directions hparam hbefore hitem
    · intro h
      cases h with
      | directions hparam hbefore hitem => exact ⟨_, hparam, _, _, _, rfl, hbefore, hitem, rfl⟩
  | size =>
    rw [error?]
    constructor
    · intro h
      split at h
      · rename_i hparam
        exact Option.some.inj h ▸ .size hparam
      · exact nomatch h
    · intro h
      cases h with
      | size hparam => exact if_pos hparam

/-- No error is found if the check does not fail. -/
theorem error?_eq_none_iff {c : Check} :
    c.error? shape params = none ↔ ∀ e, ¬c.Fails shape params e := by
  simp only [Option.eq_none_iff_forall_ne_some, ne_eq, error?_eq_some_iff]

/-- A request is refused with the error of the first check that has one. -/
theorem errorOf?_ofParams (defaults : PageDefaults) :
    errorOf? (ListQuery.ofParams shape params defaults) = all.findSome? (error? shape params) := by
  -- One case for each reader: it fails, and the checks after it are not looked at, or it succeeds.
  simp only [all, List.findSome?_cons, List.findSome?_nil, error?, ListParams.list,
    ListQuery.ofParams, readPage_eq]
  cases readFilter shape params.filter with
  | error e => rfl
  | ok filter =>
    cases readList .sort params.sort with
    | error e => rfl
    | ok fields =>
      simp only [bind, Except.bind, errorOf?, Except.toOption, Option.bind_some]
      cases (SortSpec.mk fields []).unknownField? shape.names with
      | some field => rfl
      | none =>
        cases readList .order params.order with
        | error e => rfl
        | ok items =>
          simp only [Option.map_none, Option.bind_some]
          cases items.mapM readDirection with
          | error e => rfl
          | ok directions =>
            by_cases hsize : params.size = some 0
            · rw [if_pos hsize, if_pos hsize]
            · rw [if_neg hsize, if_neg hsize]
              rfl

end Check

/-! ### The plan of a request that was read -/

/-- A field takes the direction at its place in the list of directions, and is ascending if that
list is shorter. -/
theorem SortSpec.pair_eq_mapIdx (fields : List String) (directions : List Direction) :
    pair fields directions = fields.mapIdx fun i field ↦ ⟨field, directions.getD i .asc⟩ := by
  induction fields generalizing directions with
  | nil => rfl
  | cons field fields ih =>
    rw [List.mapIdx_cons]
    cases directions with
    | nil => rw [pair, ih]; rfl
    | cons d directions => rw [pair, ih]; rfl

/-- Assumes: a size of at most the largest one. A page holds at least one record and at most as
many as the largest page, or one if that is empty. -/
theorem PageRequest.limit_bounds {r : PageRequest} {largest : Count} (h : r.size ≤ largest) :
    1 ≤ r.limit.toNat ∧ r.limit.toNat ≤ max 1 largest.toNat := by
  have hle : r.size.toNat ≤ largest.toNat := UInt64.le_iff_toNat_le.mp h
  rw [limit]
  split
  · exact ⟨Nat.le_refl 1, Nat.le_max_left 1 largest.toNat⟩
  · rename_i hsize
    have hne : r.size.toNat ≠ 0 := fun h ↦ hsize (UInt64.toNat_inj.mp h)
    omega

/-- The page that parameters describe is at most as large as the largest page. -/
theorem ListParams.size_le_of_mem_describedPage {params : ListParams} {defaults : PageDefaults}
    {r : PageRequest} (h : r ∈ params.describedPage defaults) : r.size ≤ defaults.maxSize := by
  rw [describedPage] at h
  split at h
  · exact absurd h (Option.not_mem_none r)
  · obtain rfl := Option.some.inj h
    exact Std.min_le_right

namespace ListQuery

variable {shape : Shape} {params : ListParams} {defaults : PageDefaults}

/-- A request is read if no check fails and the parameters describe it. -/
theorem ofParams_eq_ok_iff_checks {q : ListQuery shape} :
    ofParams shape params defaults = .ok q ↔
      (∀ (c : Check) e, ¬c.Fails shape params e) ∧ params.Describes defaults q := by
  constructor
  · intro h
    have hnone : Check.all.findSome? (Check.error? shape params) = none := by
      rw [← Check.errorOf?_ofParams defaults, h, Check.errorOf?]
    refine ⟨fun c ↦ Check.error?_eq_none_iff.mp ?_, (ofParams_eq_ok_iff.mp h).1⟩
    exact List.findSome?_eq_none_iff.mp hnone c (c.mem_all)
  · rintro ⟨hchecks, hdescribes⟩
    refine ofParams_eq_ok_iff.mpr ⟨hdescribes, ?_, fun hsize ↦ hchecks .size _ (.size hsize)⟩
    refine SortSpec.unknownField?_eq_none_iff (s := q.sort).mp ?_
    by_contra hfield
    obtain ⟨field, hfield⟩ := Option.ne_none_iff_exists'.mp hfield
    obtain ⟨before, after, hfields, hbefore, hfield⟩ :=
      SortSpec.unknownField?_eq_some_iff.mp hfield
    exact hchecks .fields _ (.fields (hfields ▸ hdescribes.fields) hbefore hfield)

/-- A request is refused with an error if the first check that fails has it. -/
theorem ofParams_eq_error_iff_checks {e : RequestError} :
    ofParams shape params defaults = .error e ↔
      ∃ before check after, Check.all = before ++ check :: after ∧
        check.Fails shape params e ∧ ∀ c ∈ before, ∀ e', ¬c.Fails shape params e' := by
  rw [← Check.errorOf?_eq_some_iff, Check.errorOf?_ofParams, List.findSome?_eq_some_iff]
  simp only [Check.error?_eq_some_iff, Check.error?_eq_none_iff]

/-- The plan of a request that the parameters describe asks for a range unless neither a page number
nor a size is given. The range is not empty and at most as long as the largest page. -/
theorem range_of_describes {E : Type} (b : Backend E) {q : ListQuery shape}
    (h : params.Describes defaults q) :
    ((QueryPlan.compile b q).window.range = none ↔ params.page = none ∧ params.size = none) ∧
      ∀ r ∈ (QueryPlan.compile b q).window.range,
        1 ≤ r.limit.toNat ∧ r.limit.toNat ≤ max 1 defaults.maxSize.toNat := by
  change (q.page.map _ = none ↔ _) ∧ ∀ r ∈ q.page.map _, _
  rw [Option.map_eq_none_iff, h.page, Option.forall_mem_map]
  refine ⟨?_, fun r hr ↦ PageRequest.limit_bounds (ListParams.size_le_of_mem_describedPage hr)⟩
  rw [ListParams.describedPage]
  split
  · rename_i hneither
    exact iff_of_true rfl hneither
  · rename_i hgiven
    exact iff_of_false (Option.some_ne_none _) hgiven

/-- The parameters of a request are read, or refused for their first fault.

A request is refused with the error of the first check that fails, and is read if no check fails; it
is then the request that the parameters describe. Its plan asks for a range unless neither a page
number nor a size is given, and that range holds at least one record and at most as many as the
largest page. Its keys are the fields in their order, each with the direction at the same place, or
ascending if there is none. -/
theorem ofParams_eq_iff_checks (shape : Shape) (params : ListParams) (defaults : PageDefaults) :
    (∀ e, ofParams shape params defaults = .error e ↔
      ∃ before check after, Check.all = before ++ check :: after ∧
        check.Fails shape params e ∧ ∀ c ∈ before, ∀ e', ¬c.Fails shape params e') ∧
    (∀ q, ofParams shape params defaults = .ok q ↔
      (∀ (c : Check) e, ¬c.Fails shape params e) ∧ params.Describes defaults q) ∧
    ((∃ q, ofParams shape params defaults = .ok q) ↔
      ∀ (c : Check) e, ¬c.Fails shape params e) ∧
    ∀ {E : Type} (b : Backend E) (q : ListQuery shape), ofParams shape params defaults = .ok q →
      ((QueryPlan.compile b q).window.range = none ↔
        params.page = none ∧ params.size = none) ∧
      (∀ r ∈ (QueryPlan.compile b q).window.range,
        1 ≤ r.limit.toNat ∧ r.limit.toNat ≤ max 1 defaults.maxSize.toNat) ∧
      (QueryPlan.compile b q).window.order.keys =
        q.sort.fields.mapIdx fun i field ↦ ⟨field, q.sort.directions.getD i .asc⟩ := by
  refine ⟨fun e ↦ ofParams_eq_error_iff_checks, fun q ↦ ofParams_eq_ok_iff_checks, ?_, ?_⟩
  · constructor
    · rintro ⟨q, hq⟩
      exact (ofParams_eq_ok_iff_checks.mp hq).1
    · intro hchecks
      cases hread : ofParams shape params defaults with
      | ok q => exact ⟨q, rfl⟩
      | error e =>
        obtain ⟨-, check, -, -, hfails, -⟩ := ofParams_eq_error_iff_checks.mp hread
        exact absurd hfails (hchecks check e)
  · intro E b q hq
    obtain ⟨hrange, hlimit⟩ := range_of_describes b (ofParams_eq_ok_iff.mp hq).1
    exact ⟨hrange, hlimit, SortSpec.pair_eq_mapIdx q.sort.fields q.sort.directions⟩

end ListQuery

/-! ### Parameters with and without faults -/

namespace Courses

/-- Parameters with a field that is empty, a direction that is none and a page size of zero. -/
def faulty : ListParams where
  sort := some " title,,credits"
  order := some "up"
  size := some 0

/-- Parameters without a fault that name the fields `title` and `seats`, a direction for the first
of them and a page. -/
def faultless : ListParams where
  sort := some " title , seats"
  order := some "desc "
  page := some 2

/-- The request that they describe. -/
def thirdPage : ListQuery shape := ⟨none, ⟨["title", "seats"], [.desc]⟩, some ⟨2, 10⟩⟩

end Courses

/-- Of the three faults the empty field is reported. Without faults no check fails, the first field
is descending and the second ascending. -/
theorem ListQuery.ofParams_eq_iff_checks_faulty :
    ofParams Courses.shape Courses.faulty {} = .error (.unknownSortField "") ∧
      (∀ (c : Check) e, ¬c.Fails Courses.shape Courses.faultless e) ∧
      (QueryPlan.compile (Matcher.backend Row) Courses.thirdPage).window.order.keys =
        [⟨"title", .desc⟩, ⟨"seats", .asc⟩] := by
  obtain ⟨herror, -⟩ := ofParams_eq_iff_checks Courses.shape Courses.faulty {}
  obtain ⟨-, hok, -, hplan⟩ := ofParams_eq_iff_checks Courses.shape Courses.faultless {}
  have hread : ofParams Courses.shape Courses.faultless {} = .ok Courses.thirdPage := by
    rfl
  refine ⟨(herror _).mpr ?_, ((hok _).mp hread).1, (hplan _ _ hread).2.2⟩
  have hfields : SpellsList Courses.faulty.sort (["title"] ++ "" :: ["credits"]) :=
    (readList_eq_ok_iff : readList .sort _ = _ ↔ _).mp rfl
  refine ⟨[.filter, .list .sort], .fields, [.list .order, .directions, .size], rfl,
    .fields hfields (by decide) (by decide), ?_⟩
  simp only [List.forall_mem_cons, ← Check.error?_eq_none_iff]
  exact ⟨rfl, rfl, nofun⟩

end Listing
