import Listing.Proofs.Filter.Meaning
import Listing.Proofs.Filter.RoundTrip
import Listing.Request.Query

/-!
# List requests are read as they were written

The text of a filter is read as the filter if it is nested in at most 127 objects and arrays, and is
malformed if it is nested more deeply; around the filter of a list request stands one more object
(`Shape.decodeText_render_encode`). So every filter that was ever read, from whatever text, can be
written and is then read again.
-/

set_option autoImplicit false
set_option relaxedAutoImplicit false

namespace Listing

open Json Json.Decoder

section

variable {room : Nat} {shape : Shape}

/-! ### The parts of a list request -/

/-- A direction is read as it was written. -/
theorem Direction.readsAt_decoder (d : Direction) : ReadsAt room decoder d.encode d := by
  refine .word ?_
  cases d <;> rfl

/-- A sort request is read as it was written. -/
theorem SortSpec.readsAt_decoder (s : SortSpec) : ReadsAt room decoder s.encode s := by
  change ReadsAt room (.record specFields {})
    (.record [("fields", some _), ("directions", some _)]) s
  refine .record (by decide) fun r _ ↦ ?_
  refine .member (.list fun _ _ field _ ↦ .string field) ?_
  refine .member (.list fun _ _ d _ ↦ d.readsAt_decoder) ?_
  exact .nil s

/-- A sort request is an object with two lists. -/
theorem SortSpec.depth_encode_le (s : SortSpec) : s.encode.depth ≤ 2 := by
  have hfields : Json.Value.depthItems (s.fields.map .string) ≤ 0 :=
    Json.Value.depthItems_map_le fun _ _ ↦ Nat.le_refl 0
  have hdirections : Json.Value.depthItems (s.directions.map Direction.encode) ≤ 0 :=
    Json.Value.depthItems_map_le fun _ _ ↦ Nat.le_refl 0
  simp only [encode, Json.Value.depth, Json.Value.depthMembers]
  omega

/-- A page request is read as it was written. -/
theorem PageRequest.readsAt_decoder (p : PageRequest) : ReadsAt room decoder p.encode p := by
  change ReadsAt room (.record fields ⟨0, 0⟩) (.record [("page", some _), ("size", some _)]) p
  refine .record (by decide) fun r _ ↦ ?_
  exact .member (.count p.page) (.member (.count p.size) (.nil p))

theorem PageRequest.depth_encode_le (p : PageRequest) : p.encode.depth ≤ 1 := Nat.le_refl 1

theorem PageRequest.encode_ne_null (p : PageRequest) : p.encode ≠ .null := nofun

namespace ListQuery

/-- Assumes: distinct keys. A list request is read as it was written. -/
theorem readsAt_decoder (hkeys : shape.KeysDistinct) (q : ListQuery shape) :
    ReadsAt room decoder q.encode q := by
  change ReadsAt room (.record fields {})
    (.record [("filter", some _), ("sort", some _), ("page", some _)]) q
  have hfields : ["filter", "sort", "page"].Nodup := by decide
  refine .record hfields fun r _ ↦ ?_
  refine .member (.ofOption Filter.encode_ne_null fun f _ ↦ f.readsAt_decoder hkeys) ?_
  refine .member q.sort.readsAt_decoder ?_
  refine .member (.ofOption PageRequest.encode_ne_null fun p _ ↦ p.readsAt_decoder) ?_
  exact .nil q

/-- A list request is nested one level more deeply than its filter; the lists of the sort request
take three levels. -/
theorem depth_encode_le_iff {q : ListQuery shape} :
    q.encode.depth ≤ room + 3 ↔ ∀ f ∈ q.filter, f.encode.depth + 1 ≤ room + 3 := by
  have hpage : (Json.Value.ofOption PageRequest.encode q.page).depth ≤ room + 2 := by
    cases q.page with
    | none => exact Nat.zero_le _
    | some p => exact Nat.le_trans p.depth_encode_le (Nat.le_add_left 1 (room + 1))
  have hsort : q.sort.encode.depth ≤ room + 2 :=
    Nat.le_trans q.sort.depth_encode_le (Nat.le_add_left 2 room)
  have hfilter : (Json.Value.ofOption Filter.encode q.filter).depth ≤ room + 2 ↔
      ∀ f ∈ q.filter, f.encode.depth + 1 ≤ room + 3 := by
    cases q.filter with
    | none => exact iff_of_true (Nat.zero_le _) nofun
    | some f => simp only [Option.mem_some_iff, forall_eq', Nat.add_le_add_iff_right]; rfl
  change (Json.Value.record [("filter", some _), ("sort", some _), ("page", some _)]).depth ≤ _ ↔ _
  rw [Json.Value.depth_record_le_iff, ← hfilter]
  simp only [List.forall_mem_cons, Option.mem_some_iff, forall_eq', hsort, hpage, List.not_mem_nil,
    false_imp_iff, implies_true, and_true]

end ListQuery

/-! ### Whole texts -/

/-- Assumes: the JSON keys of a node are distinct.

A written filter is read as it was if it is nested in at most 127 containers, and is malformed if it
is nested more deeply. So is a written list request, whose filter is nested one level more deeply.
And a filter that was read from any text is read again when it is written. -/
theorem Shape.decodeText_render_encode (hkeys : shape.KeysDistinct) :
    (∀ f : Filter shape, decodeText Filter.decoder f.encode.render =
      if f.encode.depth ≤ 127 then .ok f else .error .malformed) ∧
    (∀ q : ListQuery shape, decodeText ListQuery.decoder q.encode.render =
      if ∀ f ∈ q.filter, f.encode.depth + 1 ≤ 127 then .ok q else .error .malformed) ∧
    ∀ (text : String) (f : Filter shape), decodeText Filter.decoder text = .ok f →
      decodeText Filter.decoder f.encode.render = .ok f := by
  have hfilter (f : Filter shape) : decodeText Filter.decoder f.encode.render =
      if f.encode.depth ≤ 127 then .ok f else .error .malformed :=
    (decodeText_render Filter.decoder f.encode).trans (f.readsAt_decoder hkeys)
  refine ⟨hfilter, fun q ↦ ?_, fun text f hread ↦ ?_⟩
  · have hdepth : q.encode.depth ≤ depthLimit ↔ ∀ f ∈ q.filter, f.encode.depth + 1 ≤ 127 :=
      ListQuery.depth_encode_le_iff
    rw [decodeText_render, q.readsAt_decoder hkeys, upTo]
    simp only [hdepth]
  · -- Reading entered at least as many containers as writing needs.
    obtain ⟨f', hf', hread⟩ := exists_of_bind_eq_ok hread
    have hdepth : f'.encode.depth ≤ 127 := Filter.decoder_ensures depthLimit _ f' hf'
    split at hread
    · cases hread
    · obtain rfl := Except.ok.inj hread
      rw [hfilter, if_pos hdepth]

end

/-! ### The deepest filters -/

namespace Courses

/-- The filter that asks for nothing, inside so many filters that must not hold. -/
def nested : Nat → Filter shape
  | 0 => .empty
  | n + 1 => (nested n).wrap .not

theorem depth_encode_nested (n : Nat) : (nested n).encode.depth = n + 1 := by
  induction n with
  | zero => rfl
  | succ n ih =>
    change 1 + max (nested n).encode.depth 0 = n + 1 + 1
    rw [ih, Nat.max_zero, Nat.add_comm]

/-- A list request around such a filter. -/
def nestedQuery : ListQuery shape := ⟨some (nested 126), ⟨["title"], [.desc]⟩, none⟩

/-- A filter with a title, with a filter on the seats that asks for nothing, and with a child that
asks for nothing. -/
def sparse : Filter shape :=
  { leaves (some { contains := some "b" }) (some {}) with not := some .empty }

/-- The filter as an array of its fields, with an unknown key. -/
def positional : Json.Value :=
  .array [.array [.null, .string "b"], .object [("extra", .integer 7)], .array [], .array [],
    .object []]

end Courses

/-- The deepest filter that can be read stands in 127 objects. With one more it is malformed, and so
is a list request around it. A filter that was written as an array is read again as an object. -/
theorem Shape.decodeText_render_nested :
    Courses.shape.KeysDistinct ∧
      decodeText Filter.decoder (Courses.nested 126).encode.render = .ok (Courses.nested 126) ∧
      decodeText (@Filter.decoder Courses.shape) (Courses.nested 127).encode.render =
        .error .malformed ∧
      decodeText (@ListQuery.decoder Courses.shape) Courses.nestedQuery.encode.render =
        .error .malformed ∧
      decodeText Filter.decoder Courses.positional.render = .ok Courses.sparse ∧
      decodeText Filter.decoder Courses.sparse.encode.render = .ok Courses.sparse := by
  have hkeys : Courses.shape.KeysDistinct := by decide
  obtain ⟨hfilter, hquery, hagain⟩ := Shape.decodeText_render_encode hkeys
  have hsparse : decodeText Filter.decoder Courses.positional.render = .ok Courses.sparse :=
    (decodeText_render Filter.decoder Courses.positional).trans rfl
  refine ⟨hkeys, ?_, ?_, ?_, hsparse, hagain _ _ hsparse⟩
  · rw [hfilter, Courses.depth_encode_nested, if_pos (Nat.le_refl 127)]
  · rw [hfilter, Courses.depth_encode_nested, if_neg (by decide)]
  · have hdeep : ¬∀ f ∈ Courses.nestedQuery.filter, f.encode.depth + 1 ≤ 127 := by
      intro h
      have hdepth := h _ rfl
      rw [Courses.depth_encode_nested] at hdepth
      exact absurd hdepth (by decide)
    rw [hquery, if_neg hdeep]

end Listing
