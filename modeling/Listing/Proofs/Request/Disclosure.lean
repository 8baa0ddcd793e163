import Listing.Proofs.Filter.Simulation
import Listing.Proofs.Json.Acceptance
import Listing.Proofs.Page.Tiling
import Listing.Proofs.Sort.Related

/-!
# What an answer discloses

The fields that a list request reads are those that its filter constrains and those that it sorts by
(`ListQuery.reads`). Records with the same values in these fields are treated alike: if two lists of
records are related item by item, and related records have the same values in the fields that are
read, then the two answers are related item by item and have the same summary
(`ListQuery.answerBy_related`). That holds of any routine that sorts the records, and if it stops
for one list it stops for the other.

A request that was made from parameters reads declared fields only (`ListQuery.reads_subset_names`).
So nobody learns anything of another field from which records are on a page, or from their order
(`ListQuery.positions_eq_of_agreeOn`). Which records these are is said by their positions in the
list: `ListQuery.positionsBy` answers the request on records that carry their position along. The
records of a page are found at its positions (`ListQuery.content_answerBy_eq_positionsBy`), none of
them twice (`ListQuery.nodup_of_positionsBy`).
-/

set_option autoImplicit false
set_option relaxedAutoImplicit false

namespace Listing

/-! ### Records with the same values -/

/-- Assumes: related checks have the same answer. Then related predicates have the same answer. -/
theorem Predicate.Related.accepts_eq {R S : Type}
    {Alike : Matcher R → Matcher S → Prop} {r : R} {s : S}
    (halike : ∀ check check', Alike check check' → check r = check' s)
    {p : Predicate (Matcher R)} {q : Predicate (Matcher S)} (h : Related Alike p q) :
    p.accepts r = q.accepts s := by
  cases h with
  | always => rfl
  | never => rfl
  | expr hcheck => exact halike _ _ hcheck

section Agreement

variable {R S : Type} [Record R] [Record S]

/-- Two records have the same value, or none, in each field of the list. -/
def AgreeOn (names : List String) (r : R) (s : S) : Prop :=
  ∀ name ∈ names, Record.field r name = Record.field s name

instance (names : List String) (r : R) (s : S) : Decidable (AgreeOn names r s) :=
  inferInstanceAs (Decidable (∀ name ∈ names, Record.field r name = Record.field s name))

theorem AgreeOn.mono {names names' : List String} (h : names ⊆ names') {r : R} {s : S}
    (hagree : AgreeOn names' r s) : AgreeOn names r s :=
  fun name hname ↦ hagree name (h hname)

/-- Records with the same value in the field of a constraint meet it both or neither. -/
theorem Constraint.holds_congr {c : Constraint} {r : R} {s : S}
    (h : Record.field r c.field = Record.field s c.field) : c.holds r = c.holds s := by
  rw [holds, holds, h]

/-- Records with the same values in the fields that a filter constrains match it both or neither. -/
theorem Filter.accepts_congr {shape : Shape} {f : Filter shape} {r : R} {s : S}
    (h : ∀ c ∈ f.constraints, Record.field r c.field = Record.field s c.field) :
    (f.compile (Matcher.backend R)).accepts r = (f.compile (Matcher.backend S)).accepts s := by
  have hjoins : (Matcher.backend R).Joins (Matcher.backend S) fun check check' ↦
      check r = check' s := {
    and := fun hl hr ↦ congrArg₂ Bool.and hl hr
    or := fun hl hr ↦ congrArg₂ Bool.or hl hr }
  have hnegates : (Matcher.backend R).Negates (Matcher.backend S) fun check check' ↦
      check r = check' s :=
    fun hcheck ↦ congrArg Bool.not hcheck
  have hrelated := compile_related hjoins f (.inl hnegates) fun c hc ↦
    Constraint.holds_congr (h c hc)
  exact hrelated.accepts_eq fun _ _ ↦ id

end Agreement

/-! ### The fields that are read -/

namespace ListQuery

section Related

variable {R S : Type} [Record R] [Record S] {shape : Shape} {q : ListQuery shape}
  {T : R → S → Prop} {rs : List R} {ss : List S}

/-- The fields that a list request reads: those that the filter constrains, and those to sort by. -/
def reads (q : ListQuery shape) : List String :=
  (q.filter.elim [] fun f ↦ f.constraints.map (·.field)) ++ q.sort.fields

/-- Records that agree on what is read are matched both or neither. -/
theorem accepts_congr {r : R} {s : S} (h : AgreeOn q.reads r s) :
    (Filter.compileOption (Matcher.backend R) q.filter).accepts r =
      (Filter.compileOption (Matcher.backend S) q.filter).accepts s := by
  obtain ⟨filter, sort, page⟩ := q
  cases filter with
  | none => rfl
  | some f =>
    exact Filter.accepts_congr fun c hc ↦
      h c.field (List.mem_append_left _ (List.mem_map_of_mem hc))

/-- Records that agree on what is read compare the same. -/
theorem compare_congr {r r' : R} {s s' : S} (hleft : AgreeOn q.reads r s)
    (hright : AgreeOn q.reads r' s') :
    q.sort.compile.compare r r' = q.sort.compile.compare s s' := by
  have hread : ∀ k ∈ q.sort.compile.keys, k.field ∈ q.reads := fun k hk ↦
    List.mem_append_right _ (SortSpec.field_mem_of_mem_pair q.sort.fields q.sort.directions hk)
  exact SortOrder.compare_congr (fun k hk ↦ hleft k.field (hread k hk))
    fun k hk ↦ hright k.field (hread k hk)

variable (hT : ∀ r s, T r s → AgreeOn q.reads r s) (h : List.Forall₂ T rs ss)

include hT h

/-- Assumes: lists whose records agree, pair by pair, on what is read. A routine sorts the matching
records of both lists or of neither, and the sorted records are related pair by pair. -/
theorem sortedBy_related (routine : SortRoutine) :
    Option.Rel (List.Forall₂ T) (q.sortedBy routine rs) (q.sortedBy routine ss) := by
  have hmatching : List.Forall₂ T (q.matching rs) (q.matching ss) :=
    List.rel_filter (fun a b hab ↦ Bool.eq_iff_iff.mp (accepts_congr (hT a b hab))) h
  exact SortOrder.sortBy_related
    (fun a b hab c d hcd ↦ compare_congr (hT a b hab) (hT c d hcd)) hmatching

/-- Assumes: lists whose records agree, pair by pair, on what is read. There are answers for both or
for neither; their records are related pair by pair, and their summaries are the same. -/
theorem answerBy_related (routine : SortRoutine) :
    Option.Rel (fun page page' ↦
        List.Forall₂ T page.content page'.content ∧ page.pagination = page'.pagination)
      (q.answerBy routine rs) (q.answerBy routine ss) := by
  have hsorted := sortedBy_related hT h routine
  change Option.Rel _ ((q.sortedBy routine rs).map q.pageOf) ((q.sortedBy routine ss).map q.pageOf)
  generalize q.sortedBy routine rs = sorted at hsorted ⊢
  generalize q.sortedBy routine ss = sorted' at hsorted ⊢
  cases hsorted with
  | none => exact .none
  | some hitems =>
    obtain ⟨filter, sort, page⟩ := q
    cases page with
    | none => exact .some ⟨hitems, congrArg (Summary.unpaged <| Count.clamp ·) hitems.length_eq⟩
    | some r =>
      exact .some ⟨List.forall₂_take _ (List.forall₂_drop _ hitems),
        congrArg (Summary.ofPage r <| Count.clamp ·) hitems.length_eq⟩

end Related

/-! ### Requests from parameters -/

section Parameters

variable {shape : Shape} {params : ListParams} {defaults : PageDefaults} {q : ListQuery shape}

/-- Assumes: a list request that was made from parameters. It sorts by declared fields only. -/
theorem sort_fields_subset_names (h : ofParams shape params defaults = .ok q) :
    q.sort.fields ⊆ shape.names := by
  obtain ⟨filter, -, h⟩ := exists_of_bind_eq_ok h
  obtain ⟨fields, -, h⟩ := exists_of_bind_eq_ok h
  cases hunknown : (SortSpec.mk fields []).unknownField? shape.names with
  | some field => simp [hunknown] at h
  | none =>
    rw [hunknown] at h
    obtain ⟨items, -, h⟩ := exists_of_bind_eq_ok h
    obtain ⟨directions, -, h⟩ := exists_of_bind_eq_ok h
    obtain ⟨page, -, h⟩ := exists_of_bind_eq_ok h
    obtain rfl := Except.ok.inj h
    intro field hfield
    have hknown := List.find?_eq_none.mp hunknown field hfield
    simp only [Bool.or_eq_true, not_or, Bool.not_eq_true', Bool.not_eq_false] at hknown
    exact List.contains_iff_mem.mp hknown.2

/-- Assumes: a list request that was made from parameters. It reads declared fields only. -/
theorem reads_subset_names (h : ofParams shape params defaults = .ok q) :
    q.reads ⊆ shape.names := by
  refine List.append_subset.mpr ⟨?_, sort_fields_subset_names h⟩
  intro name hname
  rcases hfilter : q.filter with _ | f
  · rw [hfilter] at hname
    exact nomatch hname
  · rw [hfilter] at hname
    obtain ⟨c, hc, rfl⟩ := List.mem_map.mp hname
    obtain ⟨spec, hspec, hname, -⟩ := f.declared_of_mem_constraints hc
    rw [hname]
    exact List.mem_map_of_mem hspec

end Parameters

end ListQuery

/-! ### Positions -/

/-- A record with its position in a list. -/
structure Numbered (R : Type) where
  position : Nat
  record : R

/-- The records of a list with their positions. -/
def number {R : Type} (rs : List R) : List (Numbered R) := rs.mapIdx Numbered.mk

/-- Lists whose items have the same images, pair by pair, have the same images. -/
theorem map_eq_map_of_forall₂ {α β γ : Type} {f : α → γ} {g : β → γ} {xs : List α} {ys : List β}
    (h : List.Forall₂ (fun x y ↦ f x = g y) xs ys) : xs.map f = ys.map g := by
  rw [← List.forall₂_eq_eq_eq, List.forall₂_map_left_iff, List.forall₂_map_right_iff]
  exact h

/-- Assumes: related results have the same image. Two results of which there are both or neither, and
which are related, have the same image if they are there. -/
theorem map_eq_map_of_rel {α β γ : Type} {T : α → β → Prop} {f : α → γ} {g : β → γ}
    (hT : ∀ a b, T a b → f a = g b) {x : Option α} {y : Option β} (h : Option.Rel T x y) :
    x.map f = y.map g := by
  cases h with
  | none => rfl
  | some hab => exact congrArg some (hT _ _ hab)

/-- Of two results that are related there are both or neither. -/
theorem isSome_eq_of_rel {α β : Type} {T : α → β → Prop} {x : Option α} {y : Option β}
    (h : Option.Rel T x y) : x.isSome = y.isSome := by
  cases h <;> rfl

theorem map_position_number {R : Type} (rs : List R) :
    (number rs).map (·.position) = List.range rs.length := by
  refine List.ext_getElem (by simp [number]) fun i _ _ ↦ ?_
  simp [number]

section Positions

variable {R S : Type} [Record R] [Record S] {shape : Shape}

instance : Record (Numbered R) where
  field r := Record.field r.record

namespace ListQuery

/-- The positions in a list of the records with which a list request is answered, in the order of
the answer; nothing if there is no answer. -/
def positionsBy (routine : SortRoutine) (q : ListQuery shape) (rs : List R) : Option (List Nat) :=
  (q.answerBy routine (number rs)).map fun page ↦ page.content.map (·.position)

variable {routine : SortRoutine} {q : ListQuery shape} {rs : List R} {ss : List S}

/-- No record is on a page twice. -/
theorem nodup_of_positionsBy {positions : List Nat}
    (h : q.positionsBy routine rs = some positions) : positions.Nodup := by
  obtain ⟨page, hpage, rfl⟩ := Option.map_eq_some_iff.mp h
  obtain ⟨sorted, hsorted, rfl⟩ := Option.map_eq_some_iff.mp hpage
  have hnumbers : ((number rs).map (·.position)).Nodup := by
    rw [map_position_number]
    exact List.nodup_range
  have hmatching : ((q.matching (number rs)).map (·.position)).Nodup :=
    hnumbers.sublist (List.filter_sublist.map Numbered.position)
  have hperm := (perm_of_sortedBy hsorted).map Numbered.position
  exact (hperm.nodup_iff.mpr hmatching).sublist ((pageOf_sublist q sorted).map Numbered.position)

/-- The records of a page are those at its positions. -/
theorem content_answerBy_eq_positionsBy :
    (q.answerBy routine rs).map (fun page ↦ page.content.map some) =
      (q.positionsBy routine rs).map fun positions ↦ positions.map (rs[·]?) := by
  -- A record is related to the numbered one that carries it and has its position.
  have hnumber : List.Forall₂ (fun r (n : Numbered R) ↦ r = n.record ∧ some r = rs[n.position]?)
      rs (number rs) := by
    refine List.forall₂_iff_get.mpr ⟨by simp [number], ?_⟩
    intro i hi hi'
    simp [number]
  have hreads : ∀ (r : R) (n : Numbered R), r = n.record ∧ some r = rs[n.position]? →
      AgreeOn q.reads r n := by
    rintro r n ⟨rfl, -⟩ name -
    rfl
  rw [positionsBy, Option.map_map]
  refine map_eq_map_of_rel (fun page page' hpages ↦ ?_) (answerBy_related hreads hnumber routine)
  rw [Function.comp_apply, List.map_map]
  exact map_eq_map_of_forall₂ (hpages.1.imp fun _ _ hn ↦ hn.2)

/-- Assumes: lists whose records agree, pair by pair, on what is read. The two answers have the same
positions, or there is none for either. -/
theorem positionsBy_congr (h : List.Forall₂ (AgreeOn q.reads) rs ss) :
    q.positionsBy routine rs = q.positionsBy routine ss := by
  obtain ⟨hlength, hagree⟩ := List.forall₂_iff_get.mp h
  -- Numbered records are related if they have the same position too.
  have hnumber : List.Forall₂
      (fun (n : Numbered R) (m : Numbered S) ↦ n.position = m.position ∧ AgreeOn q.reads n m)
      (number rs) (number ss) := by
    refine List.forall₂_iff_get.mpr ⟨by simp [number, hlength], ?_⟩
    intro i hi hi'
    simp only [number, List.length_mapIdx] at hi hi'
    simp only [number, List.get_eq_getElem, List.getElem_mapIdx, true_and]
    exact hagree i hi hi'
  refine map_eq_map_of_rel (fun page page' hpages ↦ ?_)
    (answerBy_related (fun _ _ hn ↦ hn.2) hnumber routine)
  exact map_eq_map_of_forall₂ (hpages.1.imp fun _ _ hn ↦ hn.1)

/-- An answer discloses declared fields only. Assumes: a list request that was made from parameters,
and two lists whose records agree, pair by pair, on the declared fields.

The records are sorted by any routine, which may stop: it does so for both lists or for neither, and
not if the matching records are uniform. The answers are the records at the same positions in the
same order, and their summaries are the same. -/
theorem positions_eq_of_agreeOn {params : ListParams} {defaults : PageDefaults}
    (hq : ofParams shape params defaults = .ok q)
    (hagree : List.Forall₂ (AgreeOn shape.names) rs ss) (routine : SortRoutine) :
    q.positionsBy routine rs = q.positionsBy routine ss ∧
      (q.answerBy routine rs).map (fun page ↦ page.content.map some) =
        (q.positionsBy routine rs).map (fun positions ↦ positions.map (rs[·]?)) ∧
      (q.answerBy routine ss).map (fun page ↦ page.content.map some) =
        (q.positionsBy routine ss).map (fun positions ↦ positions.map (ss[·]?)) ∧
      (q.answerBy routine rs).map (·.pagination) = (q.answerBy routine ss).map (·.pagination) ∧
      (q.sort.compile.Uniform (q.matching rs) →
        (q.answerBy routine rs).isSome ∧ (q.answerBy routine ss).isSome) := by
  have hreads : List.Forall₂ (AgreeOn q.reads) rs ss :=
    hagree.imp fun _ _ ↦ AgreeOn.mono (reads_subset_names hq)
  have hanswers := answerBy_related (fun _ _ h ↦ h) hreads routine
  have hboth := isSome_eq_of_rel hanswers
  refine ⟨positionsBy_congr hreads, content_answerBy_eq_positionsBy,
    content_answerBy_eq_positionsBy, map_eq_map_of_rel (fun _ _ h ↦ h.2) hanswers, ?_⟩
  intro huniform
  have hsome : (q.answerBy routine rs).isSome := isSome_answerBy huniform
  exact ⟨hsome, hboth ▸ hsome⟩

end ListQuery

end Positions

/-! ### An undeclared field -/

namespace Courses

/-- The course with a teacher, which is not a declared field. -/
def taughtBy (teacher : String) (r : Row) : Row where
  cell name := if name = "teacher" then some (.text teacher) else r.cell name

/-- The courses with `b` in their title, those with most seats first. -/
def mostSeats : ListParams where
  filter := some "\x7b\"title\":\x7b\"contains\":\"b\"\x7d\x7d"
  sort := some "seats"
  order := some "desc"
  size := some 2

end Courses

/-- The last course and the first one answer the request, whoever teaches them. -/
theorem ListQuery.positions_taughtBy :
    ∃ q, ofParams Courses.shape Courses.mostSeats {} = .ok q ∧
      List.Forall₂ (AgreeOn Courses.shape.names) Courses.rows
        (Courses.rows.map (Courses.taughtBy "ada")) ∧
      q.positionsBy .insertion (Courses.rows.map (Courses.taughtBy "ada")) = some [2, 0] := by
  have hagree : List.Forall₂ (AgreeOn Courses.shape.names) Courses.rows
      (Courses.rows.map (Courses.taughtBy "ada")) := by
    rw [List.forall₂_map_right_iff, List.forall₂_same]
    decide
  have hanswer : (ofParams Courses.shape Courses.mostSeats {}).toOption.bind
      (·.positionsBy .insertion Courses.rows) = some [2, 0] := by
    decide +kernel
  rcases hq : ofParams Courses.shape Courses.mostSeats {} with error | q
  · simp [hq, Except.toOption] at hanswer
  · rw [hq] at hanswer
    refine ⟨q, rfl, hagree, ?_⟩
    rw [← (positions_eq_of_agreeOn hq hagree .insertion).1]
    exact hanswer

end Listing
