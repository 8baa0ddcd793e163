import Listing.Proofs.Json.Trimmed
import Listing.Proofs.Request.Reading
import Listing.Proofs.Request.RoundTrip

/-!
# List requests as parameters of a query string

A list request is written as parameters: its filter, its fields and its directions as JSON texts,
and the number and the size of its page as they are (`ListQuery.toParams`). Read again, these
parameters give the request, with its lists of fields and directions as long as they were
(`ListQuery.ofParams_toParams`). The fields of the shape must be written with different keys:
otherwise a filter may be refused, or read as one on another field
(`ListQuery.ofParams_toParams_sharedKey`).
-/

set_option autoImplicit false
set_option relaxedAutoImplicit false

namespace Listing

open Json (decodeText decodeText_render depthLimit)
open Json.Decoder (upTo ReadsAt)

variable {shape : Shape}

/-- The parameters that a list request is written as. Those of its lists are always there. -/
def ListQuery.toParams (q : ListQuery shape) : ListParams where
  filter := q.filter.map fun f ↦ f.encode.render
  sort := some (Json.Value.array (q.sort.fields.map .string)).render
  order := some (Json.Value.array (q.sort.directions.map Direction.encode)).render
  page := q.page.map (·.page)
  size := q.page.map (·.size)

/-! ### Texts that spell what was written -/

/-- Assumes: distinct keys, and a filter that can be written in as many containers as may be
entered. The text of the filter spells it. -/
theorem spellsFilter_render (hkeys : shape.KeysDistinct) {f : Filter shape}
    (hdepth : f.encode.depth ≤ depthLimit) : SpellsFilter (some f.encode.render) (some f) := by
  have hobject : f.encode = .object (Json.Value.present f.members) := f.encode_eq
  have htrim : Text.trim f.encode.render = f.encode.render := by
    rw [hobject, Json.Value.trim_render_object]
  have hread : decodeText Filter.decoder f.encode.render = .ok f := by
    rw [decodeText_render, f.readsAt_decoder hkeys, upTo, if_pos hdepth]
  have hne : f.encode.render ≠ "" := by
    rw [hobject]
    exact Json.Value.render_object_ne_empty _
  exact .json (htrim.symm ▸ hne) (htrim.symm ▸ hread)

/-- The text of an array of strings spells its items. -/
theorem spellsList_render (items : List String) :
    SpellsList (some (Json.Value.array (items.map .string)).render) items := by
  have hdepth : (Json.Value.array (items.map .string)).depth ≤ depthLimit := by
    have hitems : Json.Value.depthItems (items.map .string) ≤ 0 :=
      Json.Value.depthItems_map_le fun _ _ ↦ Nat.le_refl 0
    rw [Json.Value.depth, Nat.le_zero.mp hitems]
    decide
  have hread : decodeText (.list .string) (Json.Value.array (items.map .string)).render =
      .ok items := by
    have hitems : ReadsAt depthLimit (.list .string) (.array (items.map .string)) items :=
      .list fun _ _ item _ ↦ .string item
    rw [decodeText_render, hitems, upTo, if_pos hdepth]
  have htrim := Json.Value.trim_render_array (items.map .string)
  refine .json ?_ (htrim.symm ▸ hread)
  rw [htrim, Json.Value.render, String.toList_ofList, Json.Value.head?_write_array]

/-- The name of a direction spells it. -/
theorem spellsDirection_text (d : Direction) : SpellsDirection d.text d := by
  rw [← Direction.parse?_eq_some_iff]
  cases d <;> rfl

/-! ### Whole requests -/

/-- Assumes: a page of at least one record and at most as many as the largest page. Its number and
its size describe it. -/
theorem describedPage_toParams {q : ListQuery shape} {defaults : PageDefaults}
    (hpage : ∀ r ∈ q.page, 1 ≤ r.size ∧ r.size ≤ defaults.maxSize) :
    q.toParams.describedPage defaults = q.page := by
  rw [ListParams.describedPage, ListQuery.toParams]
  cases hq : q.page with
  | none => rfl
  | some r =>
    have hmin : min r.size defaults.maxSize = r.size := if_pos (hpage r hq).2
    have hgiven : ¬((some r).map PageRequest.page = none ∧ (some r).map PageRequest.size = none) :=
      fun h ↦ Option.some_ne_none r.page h.1
    rw [if_neg hgiven, Option.map_some, Option.map_some, Option.getD_some, Option.getD_some, hmin]

/-- Assumes: a shape whose JSON keys are distinct and none of whose fields is nameless, a request
that sorts by declared fields, with a page of at least one record and at most as many as the largest
page, and with a filter that is nested in at most 127 containers when it is written. The parameters
that it is written as are read as the request. -/
theorem ListQuery.ofParams_toParams (hkeys : shape.KeysDistinct) (hnames : "" ∉ shape.names)
    (q : ListQuery shape) (defaults : PageDefaults) (hfields : q.sort.fields ⊆ shape.names)
    (hpage : ∀ r ∈ q.page, 1 ≤ r.size ∧ r.size ≤ defaults.maxSize)
    (hfilter : ∀ f ∈ q.filter, f.encode.depth ≤ 127) :
    ofParams shape q.toParams defaults = .ok q := by
  have hspells : SpellsFilter q.toParams.filter q.filter := by
    rw [toParams]
    cases hq : q.filter with
    | none => exact .absent
    | some f => exact spellsFilter_render hkeys (hfilter f hq)
  have hitems : SpellsList q.toParams.order (q.sort.directions.map Direction.text) := by
    have hencode : q.sort.directions.map Direction.encode =
        (q.sort.directions.map Direction.text).map .string := List.map_map.symm
    rw [toParams, hencode]
    exact spellsList_render _
  have hdirections : List.Forall₂ SpellsDirection (q.sort.directions.map Direction.text)
      q.sort.directions := by
    rw [List.forall₂_map_left_iff]
    exact List.forall₂_same.mpr fun d _ ↦ spellsDirection_text d
  have hsize : q.toParams.size ≠ some 0 := by
    rw [toParams]
    cases hq : q.page with
    | none => exact nofun
    | some r =>
      intro h
      have hzero : r.size = 0 := Option.some.inj h
      exact absurd (hzero ▸ (hpage r hq).1) (by decide)
  refine ofParams_eq_ok_iff.mpr ⟨⟨hspells, spellsList_render q.sort.fields,
    ⟨_, hitems, hdirections⟩, (describedPage_toParams hpage).symm⟩, fun field hfield ↦ ?_, hsize⟩
  exact ⟨fun h ↦ hnames (h ▸ hfields hfield), hfields hfield⟩

/-! ### A request with more directions than fields -/

/-- The popular courses by their title, with more directions than there are fields, from the last
page that can be named. -/
def Courses.lastPage : ListQuery Courses.shape :=
  ⟨some popular, ⟨["title"], [.desc, .asc, .desc]⟩, some ⟨18446744073709551615, 1000⟩⟩

/-- The request is read from its parameters with all its directions. -/
theorem ListQuery.ofParams_toParams_lastPage :
    Courses.shape.KeysDistinct ∧ "" ∉ Courses.shape.names ∧
      Courses.lastPage.sort.fields ⊆ Courses.shape.names ∧
      (∀ r ∈ Courses.lastPage.page, 1 ≤ r.size ∧ r.size ≤ ({} : PageDefaults).maxSize) ∧
      (∀ f ∈ Courses.lastPage.filter, f.encode.depth ≤ 127) ∧
      ofParams Courses.shape Courses.lastPage.toParams {} = .ok Courses.lastPage := by
  have hkeys : Courses.shape.KeysDistinct := by decide
  have hnames : "" ∉ Courses.shape.names := by decide
  have hfields : Courses.lastPage.sort.fields ⊆ Courses.shape.names := by decide
  have hpage : ∀ r ∈ Courses.lastPage.page, 1 ≤ r.size ∧ r.size ≤ ({} : PageDefaults).maxSize := by
    rintro r ⟨⟩
    decide
  have hfilter : ∀ f ∈ Courses.lastPage.filter, f.encode.depth ≤ 127 := by
    rintro f ⟨⟩
    decide
  exact ⟨hkeys, hnames, hfields, hpage, hfilter,
    ofParams_toParams hkeys hnames Courses.lastPage {} hfields hpage hfilter⟩

/-! ### Fields that share a key -/

/-- Two integers that are written with the same key. -/
def Shape.sharedKey : Shape := ⟨[⟨"a_b", "aB", .integer⟩, ⟨"a__b", "aB", .integer⟩]⟩

/-- A request for the records with given values of the two integers. -/
def ListQuery.sharedKey (first second : Option IntegerFilter) : ListQuery Shape.sharedKey :=
  { filter := some ⟨(first, second, ()), [], [], none⟩ }

/-- With distinct keys missing, a request can be written and not be read. A filter on both fields has
the key twice, which is an error, and a filter on the second field is read as one on the first. -/
theorem ListQuery.ofParams_toParams_sharedKey :
    let both := sharedKey (some { equals := some 1 }) (some { equals := some 2 })
    let second := sharedKey none (some { equals := some 2 })
    (∀ q ∈ [both, second], "" ∉ Shape.sharedKey.names ∧
        q.sort.fields ⊆ Shape.sharedKey.names ∧
        (∀ r ∈ q.page, 1 ≤ r.size ∧ r.size ≤ ({} : PageDefaults).maxSize) ∧
        ∀ f ∈ q.filter, f.encode.depth ≤ 127) ∧
      ofParams Shape.sharedKey both.toParams {} ≠ .ok both ∧
      ofParams Shape.sharedKey second.toParams {} ≠ .ok second := by
  intro both second
  have hboth : (ofParams Shape.sharedKey both.toParams {}).toOption.isNone = true := by
    decide +kernel
  have hsecond : (ofParams Shape.sharedKey second.toParams {}).toOption.bind
      (fun q ↦ q.filter.map (·.constraints.map (·.field))) = some ["a_b"] := by
    decide +kernel
  refine ⟨?_, fun h ↦ ?_, fun h ↦ ?_⟩
  · rw [List.forall_mem_cons, List.forall_mem_singleton]
    exact ⟨⟨by decide, by decide, nofun, by rintro f ⟨⟩; decide⟩,
      ⟨by decide, by decide, nofun, by rintro f ⟨⟩; decide⟩⟩
  · rw [h] at hboth
    cases hboth
  · rw [h] at hsecond
    exact absurd hsecond (by decide)

end Listing
