import Listing.Proofs.Filter.Meaning
import Listing.Proofs.Filter.Paths
import Listing.Proofs.Json.Members
import Listing.Proofs.Json.Trimmed
import Listing.Proofs.Request.Reading

/-!
# The nesting of filters from outside is bounded

A filter that was read from a text stands in at most 127 containers when it is written, however the
text spells it. That bounds its ways down, its depth, and the stack that is needed to count its
nodes, to measure its depth and to compile it (`Filter.nesting_of_readFilter`). A text that reaches
the bound writes each node as an array of its fields (`Filter.notsValue`): it is a filter of every
shape, whatever the keys of its fields are.
-/

set_option autoImplicit false
set_option relaxedAutoImplicit false

namespace Listing

open Json (Decoder Field decodeText decodeText_render depthLimit)
open Json.Decoder (positions)
open Json.Value (docs)

/-- Slots that are empty stay empty where null is read. -/
theorem Slots.fields_idle {room : Nat} :
    ∀ fs : List FieldSpec, ∀ field ∈ fields fs, field.Idle room (empty fs)
  | [], _, hfield => nomatch hfield
  | f :: fs, field, hfield => by
    rcases List.mem_cons.mp hfield with rfl | hfield
    · exact ⟨fun s ↦ (none, s.2), rfl, rfl⟩
    · obtain ⟨inner, hinner, rfl⟩ := List.mem_map.mp hfield
      refine (fields_idle fs inner hinner).lift fun change hchange ↦ ?_
      exact congrArg (Prod.mk none) hchange

/-! ### The deepest filters -/

namespace Filter

variable {shape : Shape}

/-- The filter that asks for nothing, inside so many filters that must not hold. -/
def nots : Nat → Filter shape
  | 0 => empty
  | n + 1 => (nots n).wrap .not

/-- The same filter with each node as an array of its fields: the leaf filters are null, and the
lists of children are empty. -/
def notsValue (shape : Shape) : Nat → Json.Value
  | 0 => .array (List.replicate shape.fields.length .null)
  | n + 1 => .array (List.replicate shape.fields.length .null ++
      [.array [], .array [], notsValue shape n])

theorem depth_nots (n : Nat) : (nots n : Filter shape).depth = n + 1 := by
  induction n with
  | zero => rfl
  | succ n ih =>
    change 1 + max (nots n : Filter shape).depth 0 = n + 1 + 1
    rw [ih, Nat.max_zero, Nat.add_comm]

/-- The leaf filters of a node are passed over where they are null. -/
theorem positions_fields {room : Nat} {child : Decoder (Filter shape)} {vs : List Json.Value} :
    positions room (.ok ()) (fields child)
        (docs (List.replicate shape.fields.length .null ++ vs)) empty =
      positions room (.ok ())
        [ .of "and" .defaulted (.list child) fun fs f ↦ { f with and := fs },
          .of "or" .defaulted (.list child) fun fs f ↦ { f with or := fs },
          .of "not" .defaulted (.optional child) fun c f ↦ { f with not := c } ]
        (docs vs) empty := by
  have hlength :
      ((Slots.fields shape.fields).map (Field.lift fun change (f : Filter shape) ↦
        { f with own := change f.own })).length = shape.fields.length := by
    rw [List.length_map, ← List.length_map (·.key), Slots.map_key_fields, List.length_map]
  rw [fields, ← hlength]
  refine Decoder.positions_idle ?_
  rw [List.forall_mem_map]
  intro field hfield
  refine (Slots.fields_idle shape.fields field hfield).lift fun change hchange ↦ ?_
  exact congrArg (fun own ↦ { (empty : Filter shape) with own }) hchange

/-- Assumes: more containers that may be entered, and more levels, than there are filters around the
innermost one. The value is read as the filter. -/
theorem decoderUpTo_notsValue {n room depth : Nat} (hroom : n < room) (hdepth : n < depth) :
    (decoderUpTo depth : Decoder (Filter shape)) room (notsValue shape n).doc = .ok (nots n) := by
  induction n generalizing room depth with
  | zero =>
    obtain ⟨room, rfl⟩ := Nat.exists_eq_succ_of_ne_zero (Nat.ne_of_gt hroom)
    obtain ⟨depth, rfl⟩ := Nat.exists_eq_succ_of_ne_zero (Nat.ne_of_gt hdepth)
    change positions room (.ok ()) (fields (decoderUpTo depth)) (docs _) empty = _
    rw [← List.append_nil (List.replicate shape.fields.length Json.Value.null), positions_fields]
    rfl
  | succ n ih =>
    obtain ⟨room, rfl⟩ := Nat.exists_eq_succ_of_ne_zero (Nat.ne_zero_of_lt hroom)
    obtain ⟨depth, rfl⟩ := Nat.exists_eq_succ_of_ne_zero (Nat.ne_zero_of_lt hdepth)
    have hinner : n < room := Nat.lt_of_succ_lt_succ hroom
    have hchild : Decoder.optional (@decoderUpTo shape depth) room (notsValue shape n).doc =
        .ok (some (nots n)) := by
      have hread := ih hinner (Nat.lt_of_succ_lt_succ hdepth)
      cases n <;> exact congrArg (Except.map some) hread
    -- One container is the node itself; another one can be entered, so the empty lists are read.
    obtain ⟨room, rfl⟩ := Nat.exists_eq_succ_of_ne_zero (Nat.ne_zero_of_lt hinner)
    change positions (room + 1) (.ok ()) (fields (decoderUpTo depth)) (docs _) empty = _
    rw [positions_fields]
    change (Decoder.optional (@decoderUpTo shape depth) (room + 1) (notsValue shape n).doc).map
      (fun c (f : Filter shape) ↦ { f with not := c }) >>= _ = _
    rw [hchild]
    rfl

/-- The text of a deepest filter is read as the filter. -/
theorem readFilter_notsValue {n : Nat} (hn : n < depthLimit) :
    readFilter shape (some (notsValue shape n).render) = .ok (some (nots n)) := by
  obtain ⟨items, hitems⟩ : ∃ items, notsValue shape n = .array items := by
    cases n <;> exact ⟨_, rfl⟩
  have htrim : Text.trim (notsValue shape n).render = (notsValue shape n).render := by
    rw [hitems, Json.Value.trim_render_array]
  have hne : (notsValue shape n).render ≠ "" := by
    rw [hitems]
    exact Json.Value.render_array_ne_empty items
  have hread : decodeText (@Filter.decoder shape) (notsValue shape n).render = .ok (nots n) := by
    rw [decodeText_render]
    exact decoderUpTo_notsValue hn (Nat.lt_succ_of_lt hn)
  exact readFilter_eq_ok_iff.mpr (.json (htrim.symm ▸ hne) (htrim.symm ▸ hread))

/-! ### Filters from outside -/

/-- A filter that a parameter spells can be written in 127 containers. -/
theorem depth_encode_le_of_readFilter {raw : Option String} {f : Filter shape}
    (h : readFilter shape raw = .ok (some f)) : f.encode.depth ≤ depthLimit := by
  cases readFilter_eq_ok_iff.mp h with
  | json _ hfilter =>
    obtain ⟨f', hread, hend⟩ := exists_of_bind_eq_ok hfilter
    split at hend
    · exact nomatch hend
    · exact Except.ok.inj hend ▸ decoder_ensures depthLimit _ f' hread

/-- The function recurses over filters, and on this one a stack of so many frames is enough for
it. -/
def RunsWithin {α : Type} (frames : Nat) (f : Filter shape) (run : Filter shape → α) : Prop :=
  ∃ node, run = fold node ∧ foldWithin node frames f = some (run f)

/-- A fold needs as many frames as the filter is deep. -/
theorem runsWithin_fold_iff {α : Type} {frames : Nat} {f : Filter shape}
    {node : Slots shape.fields → List α → List α → Option α → α} :
    RunsWithin frames f (fold node) ↔ f.depth ≤ frames := by
  constructor
  · rintro ⟨node', -, hrun⟩
    exact (foldWithin_eq_some_iff.mp hrun).1
  · intro hdepth
    exact ⟨node, rfl, foldWithin_eq_some_iff.mpr ⟨hdepth, rfl⟩⟩

/-- The nesting of a filter from outside is bounded, whatever text it was read from.

On every way down from its root the steps through `not`, and twice the steps through lists, are at
most 126. So it is at most 127 nodes deep, and a stack of 127 frames is enough to count its nodes,
to measure its depth and to compile it for any backend. A text of a filter reaches the depth. -/
theorem nesting_of_readFilter (shape : Shape) :
    (∀ (raw : Option String) (f : Filter shape), readFilter shape raw = .ok (some f) →
      (∀ clauses g, f.Path clauses g →
        1 + clauses.count .not + 2 * (clauses.count .and + clauses.count .or) ≤ 127) ∧
      f.depth ≤ 127 ∧
      f.RunsWithin 127 nodeCount ∧ f.RunsWithin 127 depth ∧
      ∀ {E : Type} (b : Backend E), f.RunsWithin 127 (compile b)) ∧
    ∃ (text : String) (f : Filter shape),
      readFilter shape (some text) = .ok (some f) ∧ f.depth = 127 := by
  constructor
  · intro raw f h
    have hencode : f.encode.depth ≤ 127 := depth_encode_le_of_readFilter h
    have hdepth : f.depth ≤ 127 := Nat.le_trans f.depth_le_depth_encode hencode
    refine ⟨fun clauses g hpath ↦ ?_, hdepth, runsWithin_fold_iff.mpr hdepth,
      runsWithin_fold_iff.mpr hdepth, fun b ↦ runsWithin_fold_iff.mpr hdepth⟩
    have hlevels := hpath.levels_le
    rw [levels_eq, ← Nat.add_assoc] at hlevels
    exact Nat.le_trans hlevels hencode
  · exact ⟨_, nots 126, readFilter_notsValue (by decide), depth_nots 126⟩

/-- A deepest filter on courses is read from its text. With 127 frames it is compiled, and with 126
frames not even its nodes can be counted. -/
theorem nesting_of_readFilter_courses :
    readFilter Courses.shape (some (notsValue Courses.shape 126).render) = .ok (some (nots 126)) ∧
      RunsWithin 127 (nots 126 : Filter Courses.shape) (compile (Matcher.backend Row)) ∧
      ¬RunsWithin 126 (nots 126 : Filter Courses.shape) nodeCount := by
  have hread : readFilter Courses.shape (some (notsValue Courses.shape 126).render) =
      .ok (some (nots 126)) := readFilter_notsValue (by decide)
  obtain ⟨-, -, -, -, hcompile⟩ := (nesting_of_readFilter Courses.shape).1 _ _ hread
  refine ⟨hread, hcompile (Matcher.backend Row), fun hcount ↦ ?_⟩
  have hdepth := runsWithin_fold_iff.mp hcount
  rw [depth_nots] at hdepth
  exact absurd hdepth (by decide)

end Filter

end Listing
