import Listing.Filter.Json
import Listing.Proofs.Filter.Tree
import Listing.Proofs.Json.Acceptance
import Listing.Proofs.Json.Decoding

/-!
# Filters are read as they were written

`Filter.readsAt_decoder` says that a written filter is read as it was, unless it is nested more
deeply than containers may be entered; it needs the JSON keys of a node to be distinct
(`Shape.KeysDistinct`). An absent leaf filter or child is left out and an empty one is not, so the
two stay apart.

Reading takes at least as many containers as the filter is nested when it is written
(`Filter.decoder_ensures`): a filter that was read from any text can be written and read again.
-/

set_option autoImplicit false
set_option relaxedAutoImplicit false

namespace Listing

open Json Json.Decoder

/-! ### Leaf filters -/

variable {room : Nat}

/-- A written text filter fills the fields of one. -/
theorem TextFilter.fills (f : TextFilter) : Fills room fields
    [ ("equals", f.equals.map .string),
      ("contains", f.contains.map .string),
      ("ignoreCase", some (.bool f.ignoreCase)) ] {} f := by
  refine .optionalMember (by decide) rfl (fun _ ↦ nofun) (fun s _ ↦ .string s) ?_
  refine .optionalMember (by decide) rfl (fun _ ↦ nofun) (fun s _ ↦ .string s) ?_
  exact .member (.bool f.ignoreCase) (.nil f)

/-- A written integer filter fills the fields of one. -/
theorem IntegerFilter.fills (f : IntegerFilter) : Fills room fields
    [ ("equals", f.equals.map .ofInt64),
      ("lessThan", f.lessThan.map .ofInt64),
      ("greaterThan", f.greaterThan.map .ofInt64) ] {} f := by
  refine .optionalMember (by decide) rfl (fun _ ↦ nofun) (fun n _ ↦ .int64 n) ?_
  refine .optionalMember (by decide) rfl (fun _ ↦ nofun) (fun n _ ↦ .int64 n) ?_
  refine .optionalMember (by decide) rfl (fun _ ↦ nofun) (fun n _ ↦ .int64 n) ?_
  exact .nil f

/-- A written filter on points of time fills the fields of one. -/
theorem MomentFilter.fills (f : MomentFilter) : Fills room fields
    [ ("equals", f.equals.map .ofInstant),
      ("before", f.before.map .ofInstant),
      ("after", f.after.map .ofInstant) ] {} f := by
  refine .optionalMember (by decide) rfl (fun _ ↦ nofun) (fun t _ ↦ .instant t) ?_
  refine .optionalMember (by decide) rfl (fun _ ↦ nofun) (fun t _ ↦ .instant t) ?_
  refine .optionalMember (by decide) rfl (fun _ ↦ nofun) (fun t _ ↦ .instant t) ?_
  exact .nil f

namespace Kind

/-- A leaf filter is read as it was written. -/
theorem readsAt_decoder (k : Kind) (leaf : k.Leaf) :
    ReadsAt room k.decoder (k.encode leaf) leaf := by
  cases k with
  | text => exact .record (by decide) fun _ _ ↦ TextFilter.fills leaf
  | integer => exact .record (by decide) fun _ _ ↦ IntegerFilter.fills leaf
  | moment => exact .record (by decide) fun _ _ ↦ MomentFilter.fills leaf
  | flag => exact .bool leaf

theorem encode_ne_null (k : Kind) (leaf : k.Leaf) : k.encode leaf ≠ .null := by
  cases k <;> exact nofun

/-- A leaf filter is at most one container. -/
theorem depth_encode_le (k : Kind) (leaf : k.Leaf) : (k.encode leaf).depth ≤ 1 := by
  have hscalar {α : Type} (encode : α → Json.Value) (h : ∀ a, (encode a).depth = 0)
      (o : Option α) : ∀ v ∈ o.map encode, v.depth ≤ 0 :=
    Option.forall_mem_map.mpr fun a _ ↦ Nat.le_of_eq (h a)
  have hflat {k₁ k₂ k₃ : String} {o₁ o₂ o₃ : Option Json.Value} (h₁ : ∀ v ∈ o₁, v.depth ≤ 0)
      (h₂ : ∀ v ∈ o₂, v.depth ≤ 0) (h₃ : ∀ v ∈ o₃, v.depth ≤ 0) :
      (Json.Value.record [(k₁, o₁), (k₂, o₂), (k₃, o₃)]).depth ≤ 1 := by
    refine Json.Value.depth_record_le_iff.mpr ?_
    simp only [List.forall_mem_cons]
    exact ⟨h₁, h₂, h₃, nofun⟩
  cases k with
  | text =>
    exact hflat (hscalar .string (fun _ ↦ rfl) _) (hscalar .string (fun _ ↦ rfl) _)
      (hscalar .bool (fun _ ↦ rfl) (some _))
  | integer =>
    exact hflat (hscalar .ofInt64 (fun _ ↦ rfl) _) (hscalar .ofInt64 (fun _ ↦ rfl) _)
      (hscalar .ofInt64 (fun _ ↦ rfl) _)
  | moment =>
    exact hflat (hscalar .ofInstant (fun _ ↦ rfl) _) (hscalar .ofInstant (fun _ ↦ rfl) _)
      (hscalar .ofInstant (fun _ ↦ rfl) _)
  | flag => exact Nat.zero_le 1

/-- A leaf filter that was read can be written in as many containers. -/
theorem decoder_ensures (k : Kind) :
    k.decoder.Ensures room fun leaf ↦ (k.encode leaf).depth ≤ room := by
  intro d leaf h
  cases k with
  | flag => exact Nat.zero_le room
  | text => exact Nat.le_trans (depth_encode_le .text leaf) (record_ensures_pos _ _ d leaf h)
  | integer => exact Nat.le_trans (depth_encode_le .integer leaf) (record_ensures_pos _ _ d leaf h)
  | moment => exact Nat.le_trans (depth_encode_le .moment leaf) (record_ensures_pos _ _ d leaf h)

end Kind

/-! ### Slots -/

namespace Slots

/-- The leaf filters that are present fill the slots. -/
theorem fills : ∀ (fs : List FieldSpec) (s : Slots fs),
    Fills room (fields fs) (s.members fs) (empty fs) s
  | [], _ => .nil ()
  | f :: fs, (leaf, rest) => by
    refine .optionalMember (by decide) rfl f.kind.encode_ne_null
      (fun leaf _ ↦ f.kind.readsAt_decoder leaf) ?_
    exact (fills fs rest).lift (fun rest ↦ (leaf, rest)) fun change s ↦ rfl

theorem map_key_fields (fs : List FieldSpec) : (fields fs).map (·.key) = fs.map (·.key) := by
  induction fs with
  | nil => rfl
  | cons f fs ih =>
    rw [fields, List.map_cons, List.map_cons, List.map_map, ← ih]
    rfl

/-- What is in the slots can be written in so many containers. -/
def Fits (room : Nat) (fs : List FieldSpec) (s : Slots fs) : Prop :=
  ∀ m ∈ s.members fs, ∀ v ∈ m.2, v.depth ≤ room

theorem fits_empty : ∀ fs : List FieldSpec, (empty fs).Fits room fs
  | [] => nofun
  | _ :: fs => List.forall_mem_cons.mpr ⟨nofun, fits_empty fs⟩

theorem fits_cons_iff {f : FieldSpec} {fs : List FieldSpec} {leaf : Option f.kind.Leaf}
    {rest : Slots fs} : Slots.Fits room (f :: fs) (leaf, rest) ↔
      (∀ l ∈ leaf, (f.kind.encode l).depth ≤ room) ∧ rest.Fits room fs := by
  change (∀ m ∈ (f.key, leaf.map f.kind.encode) :: rest.members fs, ∀ v ∈ m.2, v.depth ≤ room) ↔ _
  rw [List.forall_mem_cons, Option.forall_mem_map, ← Fits]

/-- Reading a slot keeps what can be written in so many containers. -/
theorem fields_keep : ∀ fs : List FieldSpec, ∀ field ∈ fields fs, field.Keeps room (Fits room fs)
  | [], _, hfield => nomatch hfield
  | f :: fs, field, hfield => by
    rcases List.mem_cons.mp hfield with rfl | hfield
    · refine .of f.kind.decoder_ensures.optional fun leaf hleaf s hs ↦ ?_
      exact fits_cons_iff.mpr ⟨hleaf, (fits_cons_iff.mp hs).2⟩
    · obtain ⟨inner, hinner, rfl⟩ := List.mem_map.mp hfield
      refine (fields_keep fs inner hinner).lift fun change hchange s hs ↦ ?_
      obtain ⟨hleaf, hrest⟩ := fits_cons_iff.mp hs
      exact fits_cons_iff.mpr ⟨hleaf, hchange s.2 hrest⟩

end Slots

/-! ### Filters -/

/-- The JSON keys of a node are distinct: those of the fields, and those of the children. -/
def Shape.KeysDistinct (shape : Shape) : Prop :=
  (shape.fields.map (·.key) ++ ["and", "or", "not"]).Nodup

instance (shape : Shape) : Decidable shape.KeysDistinct := List.nodupDecidable _

namespace Filter

variable {shape : Shape} {child : Decoder (Filter shape)}

/-- The members of a written filter. -/
def members (f : Filter shape) : List (String × Option Json.Value) :=
  f.own.members shape.fields ++
    [ ("and", encodeChildren (f.and.map encode)),
      ("or", encodeChildren (f.or.map encode)),
      ("not", f.not.map encode) ]

theorem encode_eq (f : Filter shape) : f.encode = .record f.members := by
  rw [encode, fold_eq, ← encode]
  rfl

theorem encode_ne_null (f : Filter shape) : f.encode ≠ .null := by
  rw [encode_eq]
  exact nofun

theorem map_key_fields :
    (fields child).map (·.key) = shape.fields.map (·.key) ++ ["and", "or", "not"] := by
  rw [fields, List.map_append, List.map_map, ← Slots.map_key_fields]
  rfl

/-! #### Writing and reading -/

/-- Assumes: the record holds no children of the field yet. A list of children is stored; an empty
one is not written. -/
theorem fills_children {σ : Type} {key : String} {store : List (Filter shape) → σ → σ}
    {fs : List (Filter shape)} {fields : List (Json.Field σ)} {ms : List (String × Option Json.Value)}
    {s s' : σ} (hstore : store [] s = s)
    (hread : ∀ r, room = r + 1 → ∀ g ∈ fs, ReadsAt r child g.encode g)
    (hrest : Fills room fields ms (store fs s) s') :
    Fills room (.of key .defaulted (.list child) store :: fields)
      ((key, encodeChildren (fs.map encode)) :: ms) s s' := by
  cases fs with
  | nil =>
    rw [hstore] at hrest
    exact .absent nofun hrest
  | cons g fs => exact .member (.list hread) hrest

/-- Assumes: the children are read as they were written. The members of a filter fill its fields. -/
theorem fills {f : Filter shape}
    (hand : ∀ r, room = r + 1 → ∀ g ∈ f.and, ReadsAt r child g.encode g)
    (hor : ∀ r, room = r + 1 → ∀ g ∈ f.or, ReadsAt r child g.encode g)
    (hnot : ∀ g ∈ f.not, ReadsAt room child g.encode g) :
    Fills room (fields child) f.members empty f := by
  -- The record is filled from the left: the slots of the node first, then one child field each.
  obtain ⟨own, and, or, not⟩ := f
  refine .append ((Slots.fills shape.fields own).lift
    (fun own ↦ { (empty : Filter shape) with own := own }) fun _ _ ↦ rfl) ?_
  refine fills_children rfl hand ?_
  refine fills_children rfl hor ?_
  exact .optionalMember nofun rfl encode_ne_null hnot (.nil _)

/-- Assumes: distinct keys, and more levels than containers that may be entered. A filter is read as
it was written. -/
theorem readsAt_decoderUpTo (hkeys : shape.KeysDistinct) (f : Filter shape) :
    ∀ room depth, room < depth → ReadsAt room (decoderUpTo depth) f.encode f := by
  induction f using Filter.induct with
  | node f hand hor hnot =>
    intro room depth hdepth
    cases depth with
    | zero => exact absurd hdepth (Nat.not_lt_zero room)
    | succ depth =>
      rw [encode_eq]
      -- A child is one level further down and stands in one container more, or in two in a list.
      refine .record (map_key_fields ▸ hkeys) fun r hr ↦ fills ?_ ?_ ?_
      · exact fun r' hr' g hg ↦ hand g hg r' depth (by omega)
      · exact fun r' hr' g hg ↦ hor g hg r' depth (by omega)
      · exact fun g hg ↦ hnot g hg r depth (by omega)

/-- Assumes: distinct keys. A filter is read as it was written. -/
theorem readsAt_decoder (hkeys : shape.KeysDistinct) (f : Filter shape) :
    ReadsAt room decoder f.encode f :=
  readsAt_decoderUpTo hkeys f room (room + 1) (Nat.lt_succ_self room)

/-! #### Reading and writing -/

/-- The members of a filter can be written in so many containers. -/
structure Fits (room : Nat) (f : Filter shape) : Prop where
  own : f.own.Fits room shape.fields
  and : ∀ v ∈ encodeChildren (f.and.map encode), v.depth ≤ room
  or : ∀ v ∈ encodeChildren (f.or.map encode), v.depth ≤ room
  not : ∀ g ∈ f.not, g.encode.depth ≤ room

theorem fits_iff {f : Filter shape} : f.encode.depth ≤ room + 1 ↔ f.Fits room := by
  rw [encode_eq, Json.Value.depth_record_le_iff, members, List.forall_mem_append]
  simp only [List.forall_mem_cons, Option.forall_mem_map]
  exact ⟨fun ⟨hown, hand, hor, hnot, _⟩ ↦ ⟨hown, hand, hor, hnot⟩,
    fun ⟨hown, hand, hor, hnot⟩ ↦ ⟨hown, hand, hor, hnot, nofun⟩⟩

/-- Children that fit in one container less can be written as a list. -/
theorem depth_le_of_mem_encodeChildren {fs : List (Filter shape)}
    (h : ∃ r, room = r + 1 ∧ ∀ g ∈ fs, g.encode.depth ≤ r) :
    ∀ v ∈ encodeChildren (fs.map encode), v.depth ≤ room := by
  obtain ⟨r, rfl, hfs⟩ := h
  cases fs with
  | nil => exact nofun
  | cons g fs =>
    intro v hv
    obtain rfl := Option.some.inj hv
    have hitems := Json.Value.depthItems_map_le hfs
    rw [List.map_cons] at hitems
    rw [Json.Value.depth, Nat.add_comm]
    exact Nat.add_le_add_right hitems 1

/-- Assumes: a child that was read can be written in as many containers. Then each field of a filter
keeps what can be written in so many containers. -/
theorem fields_keep (hchild : ∀ r, child.Ensures r fun g ↦ g.encode.depth ≤ r) :
    ∀ field ∈ fields child, field.Keeps room (Fits room) := by
  have hlist : (Decoder.list child).Ensures room fun fs ↦
      ∃ r, room = r + 1 ∧ ∀ g ∈ fs, g.encode.depth ≤ r := .list fun r _ ↦ hchild r
  rw [fields, List.forall_mem_append]
  simp only [List.forall_mem_map, List.forall_mem_cons]
  refine ⟨fun field hfield ↦ ?_, ?_, ?_, ?_, nofun⟩
  · refine (Slots.fields_keep shape.fields field hfield).lift fun change hchange f hf ↦ ?_
    exact { hf with own := hchange f.own hf.own }
  · exact .of hlist fun fs hfs f hf ↦ { hf with and := depth_le_of_mem_encodeChildren hfs }
  · exact .of hlist fun fs hfs f hf ↦ { hf with or := depth_le_of_mem_encodeChildren hfs }
  · exact .of (hchild room).optional fun c hc f hf ↦ { hf with not := hc }

theorem fits_empty : (empty : Filter shape).Fits room :=
  ⟨Slots.fits_empty shape.fields, nofun, nofun, nofun⟩

theorem decoderUpTo_ensures (depth room : Nat) :
    (decoderUpTo depth : Decoder (Filter shape)).Ensures room fun f ↦ f.encode.depth ≤ room := by
  induction depth generalizing room with
  | zero => exact fun _ _ h ↦ nomatch h
  | succ depth ih =>
    intro d f h
    obtain ⟨r, rfl, hf⟩ :=
      record_ensures (fun _ ↦ fits_empty) (fun r _ ↦ fields_keep ih) d f h
    exact fits_iff.mpr hf

/-- A filter that was read can be written in as many containers. -/
theorem decoder_ensures (room : Nat) :
    (decoder : Decoder (Filter shape)).Ensures room fun f ↦ f.encode.depth ≤ room :=
  decoderUpTo_ensures (room + 1) room

end Filter

end Listing
