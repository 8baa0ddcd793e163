import Listing.Proofs.Json.Margins
import Listing.Proofs.Json.Members
import Listing.Proofs.Json.Parsing
import Listing.Proofs.Request.Nesting
import Mathlib.Logic.Relation

/-!
# Filters do not depend on their presentation

The same filter can be written in many ways: the members of an object stand in any order, members
with unknown keys are passed over, and an absent leaf filter, bound or negated child may be written
as null. `Filter.Edited` is one such edit of a filter, at any depth, and an edited filter is read
alike (`Filter.Edited.transfers`).
-/

set_option autoImplicit false
set_option relaxedAutoImplicit false

namespace Listing

open Json
open Json.Decoder (Editable Fills)
open Json.Quoted (utf16)
open Json.Tree (MembersEdited)

/-- Null is read as no value, and no value is stored where there is none. -/
theorem Json.Field.Idle.optional {α σ : Type} {room : Nat} {key : String} {presence : Presence}
    {read : Decoder α} {store : Option α → σ → σ} {s : σ} (h : store none s = s) :
    Field.Idle room s (.of key presence (.optional read) store) :=
  ⟨store none, rfl, h⟩

/-! ### Leaf filters -/

namespace TextFilter

theorem editable : Editable fields {} ["equals", "contains"] where
  optional := by decide
  independent := .of_three (.of fun _ _ _ ↦ rfl) (.of fun _ _ _ ↦ rfl) (.of fun _ _ _ ↦ rfl)
  idle := by
    simp only [List.forall_mem_cons]
    exact ⟨⟨_, rfl, fun _ ↦ .optional rfl⟩, ⟨_, rfl, fun _ ↦ .optional rfl⟩, List.forall_mem_nil _⟩

theorem thorough_decoder : decoder.Thorough := by
  refine .record ?_ _
  simp only [fields, List.forall_mem_cons]
  exact ⟨.map _ (.optional .string), .map _ (.optional .string), .map _ .bool,
    List.forall_mem_nil _⟩

end TextFilter

namespace IntegerFilter

theorem editable : Editable fields {} ["equals", "lessThan", "greaterThan"] where
  optional := by decide
  independent := .of_three (.of fun _ _ _ ↦ rfl) (.of fun _ _ _ ↦ rfl) (.of fun _ _ _ ↦ rfl)
  idle := by
    simp only [List.forall_mem_cons]
    exact ⟨⟨_, rfl, fun _ ↦ .optional rfl⟩, ⟨_, rfl, fun _ ↦ .optional rfl⟩,
      ⟨_, rfl, fun _ ↦ .optional rfl⟩, List.forall_mem_nil _⟩

theorem thorough_decoder : decoder.Thorough := by
  refine .record ?_ _
  simp only [fields, List.forall_mem_cons]
  exact ⟨.map _ (.optional .int64), .map _ (.optional .int64), .map _ (.optional .int64),
    List.forall_mem_nil _⟩

end IntegerFilter

namespace MomentFilter

theorem editable : Editable fields {} ["equals", "before", "after"] where
  optional := by decide
  independent := .of_three (.of fun _ _ _ ↦ rfl) (.of fun _ _ _ ↦ rfl) (.of fun _ _ _ ↦ rfl)
  idle := by
    simp only [List.forall_mem_cons]
    exact ⟨⟨_, rfl, fun _ ↦ .optional rfl⟩, ⟨_, rfl, fun _ ↦ .optional rfl⟩,
      ⟨_, rfl, fun _ ↦ .optional rfl⟩, List.forall_mem_nil _⟩

theorem thorough_decoder : decoder.Thorough := by
  refine .record ?_ _
  simp only [fields, List.forall_mem_cons]
  exact ⟨.map _ (.optional .instant), .map _ (.optional .instant), .map _ (.optional .instant),
    List.forall_mem_nil _⟩

end MomentFilter

namespace Kind

/-- The keys of a leaf filter on a field of a kind; one on a flag is no object. -/
def keys : Kind → List String
  | .text => ["equals", "contains", "ignoreCase"]
  | .integer => ["equals", "lessThan", "greaterThan"]
  | .moment => ["equals", "before", "after"]
  | .flag => []

/-- The keys of a leaf filter whose values may be absent: those of its bounds. -/
def nullableKeys : Kind → List String
  | .text => ["equals", "contains"]
  | .integer => ["equals", "lessThan", "greaterThan"]
  | .moment => ["equals", "before", "after"]
  | .flag => []

/-- A leaf filter is read to its end. -/
theorem thorough_decoder (k : Kind) : k.decoder.Thorough := by
  cases k with
  | text => exact TextFilter.thorough_decoder
  | integer => exact IntegerFilter.thorough_decoder
  | moment => exact MomentFilter.thorough_decoder
  | flag => exact .bool

/-- A leaf filter that is edited is read alike. -/
theorem transfers_edited {k : Kind} {ms ms' : List (List UInt16 × Tree)}
    (h : MembersEdited k.keys k.nullableKeys ms ms') :
    k.decoder.Transfers (Tree.object ms).doc (Tree.object ms').doc := by
  cases k with
  | text => exact TextFilter.editable.transfers_edited h
  | integer => exact IntegerFilter.editable.transfers_edited h
  | moment => exact MomentFilter.editable.transfers_edited h
  | flag => exact fun _ _ hread ↦ nomatch hread

end Kind

/-! ### Slots -/

namespace Slots

/-- The slots may be filled in any order. -/
theorem fields_independent : ∀ fs : List FieldSpec, Field.Independent (fields fs)
  | [] => .nil
  | f :: fs => by
    refine List.Pairwise.cons (fun field hfield ↦ ?_)
      ((fields_independent fs).lift fun _ _ _ ↦ rfl)
    obtain ⟨inner, -, rfl⟩ := List.mem_map.mp hfield
    refine Field.Commutes.symm ?_
    exact .lift_of fun _ _ _ ↦ rfl

/-- A field has its slot. -/
theorem exists_field {f : FieldSpec} {fs : List FieldSpec} (hf : f ∈ fs) :
    ∃ field ∈ fields fs, field.key = f.key ∧ ∀ d d',
      (Decoder.optional f.kind.decoder).Transfers d d' → field.change.Transfers d d' := by
  induction fs with
  | nil => exact nomatch hf
  | cons g fs ih =>
    rcases List.mem_cons.mp hf with rfl | hf
    · exact ⟨_, List.mem_cons_self, rfl, fun d d' h ↦ h.map _⟩
    · obtain ⟨field, hfield, hkey, hchange⟩ := ih hf
      exact ⟨_, List.mem_cons_of_mem _ (List.mem_map_of_mem hfield), hkey,
        fun d d' h ↦ (hchange d d' h).map _⟩

theorem presence_of_mem_fields {fs : List FieldSpec} : ∀ field ∈ fields fs,
    field.presence = .defaulted := by
  induction fs with
  | nil => exact nofun
  | cons f fs ih => exact List.forall_mem_cons.mpr ⟨rfl, List.forall_mem_map.mpr ih⟩

theorem fields_thorough (fs : List FieldSpec) :
    ∀ field ∈ fields fs, field.change.Thorough := by
  induction fs with
  | nil => exact nofun
  | cons f fs ih =>
    refine List.forall_mem_cons.mpr ⟨.map _ (.optional f.kind.thorough_decoder), ?_⟩
    exact List.forall_mem_map.mpr fun field hfield ↦ (ih field hfield).map _

end Slots

/-! ### Filters -/

/-- The keys of the leaf filters and of the children of a node. -/
def Shape.keys (shape : Shape) : List String := shape.fields.map (·.key) ++ ["and", "or", "not"]

/-- The keys of a node whose values may be absent: those of the leaf filters, and that of the
negated child. -/
def Shape.nullableKeys (shape : Shape) : List String := shape.fields.map (·.key) ++ ["not"]

namespace Filter

variable {shape : Shape}

/-- One edit of a written filter: of the members of a node or of a leaf filter, at any depth. -/
inductive Edited (shape : Shape) : Tree → Tree → Prop
  | node {ms ms'} (h : MembersEdited shape.keys shape.nullableKeys ms ms') :
      Edited shape (.object ms) (.object ms')
  | leaf {f : FieldSpec} {ms ms' before after} (hf : f ∈ shape.fields)
      (h : MembersEdited f.kind.keys f.kind.nullableKeys ms ms') :
      Edited shape (.object (before ++ (utf16 f.key, .object ms) :: after))
        (.object (before ++ (utf16 f.key, .object ms') :: after))
  | child {clause : String} {v v' before after earlier later} (hclause : clause ∈ ["and", "or"])
      (h : Edited shape v v') :
      Edited shape
        (.object (before ++ (utf16 clause, .array (earlier ++ v :: later)) :: after))
        (.object (before ++ (utf16 clause, .array (earlier ++ v' :: later)) :: after))
  | not {v v' before after} (h : Edited shape v v') :
      Edited shape (.object (before ++ (utf16 "not", v) :: after))
        (.object (before ++ (utf16 "not", v') :: after))

variable {child : Decoder (Filter shape)}

/-- The leaf filters are fields of a filter. -/
theorem lift_mem_fields {field : Json.Field (Slots shape.fields)}
    (hfield : field ∈ Slots.fields shape.fields) :
    field.lift (fun change (f : Filter shape) ↦ { f with own := change f.own }) ∈ fields child :=
  List.mem_append_left _ (List.mem_map_of_mem hfield)

/-- The children of either list are a field of a filter. -/
theorem exists_list_mem_fields {clause : String} (hclause : clause ∈ ["and", "or"]) :
    ∃ store, Field.of clause .defaulted (.list child) store ∈ fields child := by
  simp only [List.mem_cons, List.not_mem_nil, or_false] at hclause
  simp only [fields, List.mem_append, List.mem_cons]
  rcases hclause with rfl | rfl
  · exact ⟨_, .inr (.inl rfl)⟩
  · exact ⟨_, .inr (.inr (.inl rfl))⟩

/-- The negated child is a field of a filter. -/
theorem negation_mem_fields :
    Field.of "not" .defaulted (.optional child) (fun c (f : Filter shape) ↦ { f with not := c }) ∈
      fields child :=
  List.mem_append_right _ (by simp only [List.mem_cons, or_true, true_or])

/-- Assumes: distinct keys. A field is found by its key. -/
theorem find?_fields (hkeys : shape.KeysDistinct) {field : Json.Field (Filter shape)}
    (hfield : field ∈ fields child) : (fields child).find? (·.key == field.key) = some field :=
  Fills.find?_key (map_key_fields ▸ hkeys) hfield

/-- Assumes: distinct keys. The members of a node can be edited. -/
theorem editable (hkeys : shape.KeysDistinct) (child : Decoder (Filter shape)) :
    Editable (fields child) empty shape.nullableKeys where
  optional := by
    have hdefaulted : Presence.defaulted ≠ .required := by decide
    rw [fields, List.forall_mem_append, List.forall_mem_map]
    simp only [List.forall_mem_cons]
    exact ⟨fun field hfield ↦ (Slots.presence_of_mem_fields field hfield).trans_ne hdefaulted,
      hdefaulted, hdefaulted, hdefaulted, List.forall_mem_nil _⟩
  independent := by
    refine List.pairwise_append.mpr ⟨(Slots.fields_independent shape.fields).lift fun _ _ _ ↦ rfl,
      Field.Independent.of_three (.of fun _ _ _ ↦ rfl) (.of fun _ _ _ ↦ rfl) (.of fun _ _ _ ↦ rfl),
      List.forall_mem_map.mpr fun field _ ↦ ?_⟩
    simp only [List.forall_mem_cons]
    exact ⟨.lift_of fun _ _ _ ↦ rfl, .lift_of fun _ _ _ ↦ rfl, .lift_of fun _ _ _ ↦ rfl,
      List.forall_mem_nil _⟩
  idle := by
    rw [Shape.nullableKeys, List.forall_mem_append, ← Slots.map_key_fields, List.forall_mem_map,
      List.forall_mem_singleton]
    refine ⟨fun field hfield ↦ ?_, _, find?_fields hkeys negation_mem_fields, fun _ ↦ .optional rfl⟩
    refine ⟨_, find?_fields hkeys (lift_mem_fields hfield), fun room ↦ ?_⟩
    refine (Slots.fields_idle shape.fields field hfield).lift fun change hchange ↦ ?_
    exact congrArg (fun own ↦ { (empty : Filter shape) with own }) hchange

/-- An edit is made inside an object. -/
theorem Edited.exists_object {v v' : Tree} (h : Edited shape v v') :
    ∃ ms ms', v = .object ms ∧ v' = .object ms' := by
  cases h <;> exact ⟨_, _, rfl, rfl⟩

/-- Assumes: distinct keys. A filter that is edited is read alike. -/
theorem Edited.transfers (hkeys : shape.KeysDistinct) {v v' : Tree} (h : Edited shape v v')
    (depth : Nat) : (decoderUpTo depth : Decoder (Filter shape)).Transfers v.doc v'.doc := by
  induction depth generalizing v v' with
  | zero => exact fun _ _ hread ↦ nomatch hread
  | succ depth ih =>
    have hfields : Editable (fields (@decoderUpTo shape depth)) empty shape.nullableKeys :=
      editable hkeys (decoderUpTo depth)
    cases h with
    | node h =>
      rw [Shape.keys, ← map_key_fields] at h
      exact hfields.transfers_edited h
    | @leaf f ms ms' before after hf h =>
      obtain ⟨field, hfield, hkey, hchange⟩ := Slots.exists_field hf
      have hleaf : (Decoder.optional f.kind.decoder).Transfers (Tree.object ms).doc
          (Tree.object ms').doc := (Kind.transfers_edited h).map some
      rw [← hkey]
      exact hfields.transfers_member (find?_fields hkeys (lift_mem_fields hfield))
        ((hchange _ _ hleaf).map _)
    | @child clause v v' before after earlier later hclause h =>
      obtain ⟨store, hmem⟩ := exists_list_mem_fields hclause
      have hlist : (Decoder.list (@decoderUpTo shape depth)).Transfers
          (Tree.array (earlier ++ v :: later)).doc (Tree.array (earlier ++ v' :: later)).doc := by
        simp only [Tree.doc, Tree.docs_eq_map, List.map_append, List.map_cons]
        exact (ih h).list
      exact hfields.transfers_member (find?_fields hkeys hmem) (hlist.map store)
    | @not v v' before after h =>
      obtain ⟨ms, ms', rfl, rfl⟩ := h.exists_object
      have hoptional : (Decoder.optional (@decoderUpTo shape depth)).Transfers
          (Tree.object ms).doc (Tree.object ms').doc := (ih h).map some
      exact hfields.transfers_member (find?_fields hkeys negation_mem_fields) (hoptional.map _)

/-- A filter is read to its end. -/
theorem thorough_decoderUpTo (depth : Nat) :
    (decoderUpTo depth : Decoder (Filter shape)).Thorough := by
  induction depth with
  | zero => exact fun _ _ _ h ↦ nomatch h
  | succ depth ih =>
    refine .record ?_ empty
    rw [fields, List.forall_mem_append, List.forall_mem_map]
    simp only [List.forall_mem_cons]
    exact ⟨fun field hfield ↦ (Slots.fields_thorough _ field hfield).map _, ih.list.map _,
      ih.list.map _, ih.optional.map _, List.forall_mem_nil _⟩

theorem thorough_decoder : (decoder : Decoder (Filter shape)).Thorough :=
  fun room d f h ↦ thorough_decoderUpTo (room + 1) room d f h

/-- The second text presents the filter of the first one in another way: it is a text, with any
blanks between its symbols and any spelling of its strings, of an edited value. -/
def Represents (shape : Shape) (text text' : String) : Prop :=
  ∃ v v' : Tree, v.Spells text ∧ Relation.ReflTransGen (Edited shape) v v' ∧ v'.Spells text'

/-- Blanks around the texts do not matter. -/
theorem Represents.trim {text text' : String} (h : Represents shape text text') :
    Represents shape (Text.trim text) (Text.trim text') := by
  obtain ⟨v, v', hspells, hedited, hspells'⟩ := h
  exact ⟨v, v', hspells.trim, hedited, hspells'.trim⟩

/-- Assumes: distinct keys. What is read from a text is read from every other presentation. -/
theorem Represents.decodeText (hkeys : shape.KeysDistinct) {text text' : String} {f : Filter shape}
    (h : Represents shape text text') (hread : decodeText decoder text = .ok f) :
    decodeText decoder text' = .ok f := by
  obtain ⟨v, v', hspells, hedited, hspells'⟩ := h
  have hedits : ∀ w, Relation.ReflTransGen (Edited shape) v w →
      decoder depthLimit w.doc = .ok f := by
    intro w hw
    induction hw with
    | refl => rwa [decodeText_of_spells decoder hspells] at hread
    | tail _ hstep ih => exact hstep.transfers hkeys (depthLimit + 1) depthLimit f ih
  rw [decodeText_of_spells decoder hspells']
  exact hedits v' hedited

/-- The empty text is no filter. -/
theorem decodeText_empty (f : Filter shape) : Json.decodeText decoder "" ≠ .ok f := by
  intro h
  have hroot : (Document.ofText "").root = .missing .cutShort := by
    change (Document.ofTokens (tokens [])).root = _
    rw [tokens]
    rfl
  obtain ⟨f', hread, -⟩ := exists_of_bind_eq_ok h
  rw [hroot] at hread
  cases hread

/-- A filter does not depend on its presentation.

Let the keys of the shape be distinct. Whatever is read as a filter is a text of a value; and the
same filter is read from each text that presents it in another way: with the members of nodes and
leaf filters reordered, with members with unknown keys inserted or dropped, with null for absent
leaf filters, bounds and negated children or without it, with other blanks between the symbols and
with other escapes in keys and strings. As a parameter the text may have any blanks around it. -/
theorem readFilter_of_represents (hkeys : shape.KeysDistinct) :
    (∀ (text : String) (f : Filter shape), Json.decodeText decoder text = .ok f →
      (∃ v : Tree, v.Spells text) ∧
        ∀ text', Represents shape text text' → Json.decodeText decoder text' = .ok f) ∧
      ∀ (text : String) (f : Filter shape), readFilter shape (some text) = .ok (some f) →
        (∃ v : Tree, v.Spells (Text.trim text)) ∧
          ∀ text', Represents shape (Text.trim text) (Text.trim text') →
            readFilter shape (some text') = .ok (some f) := by
  refine ⟨fun text f hread ↦ ⟨exists_spells_of_decodeText thorough_decoder hread,
    fun text' h ↦ h.decodeText hkeys hread⟩, fun text f hread ↦ ?_⟩
  cases readFilter_eq_ok_iff.mp hread with
  | json hblank hfilter =>
    refine ⟨exists_spells_of_decodeText thorough_decoder hfilter, fun text' h ↦ ?_⟩
    have hfilter' := h.decodeText hkeys hfilter
    refine readFilter_eq_ok_iff.mpr (.json (fun hempty ↦ ?_) hfilter')
    rw [hempty] at hfilter'
    exact decodeText_empty f hfilter'

/-- Courses called `b`: the same with null for the negated child, an unknown key and an escape. -/
theorem readFilter_of_represents_courses :
    readFilter Courses.shape (some "\x7b\"title\":\x7b\"equals\":\"b\"\x7d\x7d") =
        .ok (some (Courses.leaves (some { equals := some "b" }) none)) ∧
      readFilter Courses.shape
          (some "\x7b\"not\":null, \"title\":\x7b\"x\":[],\"\\u0065quals\":\"b\"\x7d\x7d") =
        .ok (some (Courses.leaves (some { equals := some "b" }) none)) := by
  let v : Tree := .object [(utf16 "title", .object [(utf16 "equals", .string (utf16 "b"))])]
  let v' : Tree := .object [(utf16 "not", .null),
    (utf16 "title", .object [(utf16 "x", .array []), (utf16 "equals", .string (utf16 "b"))])]
  -- The end of both texts, from the colon in front of the bound.
  have hend : Spaced [.mark .colon, .string (utf16 "b"), .mark .closeObject, .mark .closeObject]
      [':', '"', 'b', '"', '\x7d', '\x7d'] :=
    .mark rfl (.string (Quoted.spells_plain rfl)
      (.mark rfl (.mark rfl .empty)))
  have htitle : Quoted.Spells (utf16 "title") ['t', 'i', 't', 'l', 'e'] :=
    Quoted.spells_plain rfl
  have hspells : v.Spells "\x7b\"title\":\x7b\"equals\":\"b\"\x7d\x7d" := by
    have hequals : Quoted.Spells (utf16 "equals") ['e', 'q', 'u', 'a', 'l', 's'] :=
      Quoted.spells_plain rfl
    exact .mark rfl (.string htitle (.mark rfl (.mark rfl (.string hequals hend))))
  have hspells' : v'.Spells
      "\x7b\"not\":null, \"title\":\x7b\"x\":[],\"\\u0065quals\":\"b\"\x7d\x7d" := by
    have hnot : Quoted.Spells (utf16 "not") ['n', 'o', 't'] := Quoted.spells_plain rfl
    have hx : Quoted.Spells (utf16 "x") ['x'] := Quoted.spells_plain rfl
    have hequals : Quoted.Spells (utf16 "equals")
        ['\\', 'u', '0', '0', '6', '5', 'q', 'u', 'a', 'l', 's'] :=
      .digits rfl (Quoted.spells_plain rfl)
    exact .mark rfl (.string hnot (.mark rfl (.symbol .null (.mark rfl (.blank rfl
      (.string htitle (.mark rfl (.mark rfl (.string hx (.mark rfl (.mark rfl (.mark rfl
        (.mark rfl (.string hequals hend))))))))))))))
  have hedited : Relation.ReflTransGen (Edited Courses.shape) v v' := by
    have hnull : Edited Courses.shape v (.object [(utf16 "not", .null),
        (utf16 "title", .object [(utf16 "equals", .string (utf16 "b"))])]) :=
      .node (@MembersEdited.writeNull _ _ [] _ "not" (by decide) (by decide))
    have hinsert : MembersEdited Kind.text.keys Kind.text.nullableKeys
        [(utf16 "equals", .string (utf16 "b"))]
        [(utf16 "x", .array []), (utf16 "equals", .string (utf16 "b"))] :=
      @MembersEdited.insert _ _ [] _ "x" _ (by decide)
    exact .tail (.single hnull)
      (@Edited.leaf _ ⟨"title", "title", .text⟩ _ _ [(utf16 "not", .null)] [] (by decide) hinsert)
  have hbound (room : Nat) :
      Decoder.optional .string room (Tree.string (utf16 "b")).doc = .ok (some "b") := by
    change (Quoted.lexeme (utf16 "b")).value.map some = _
    rw [Quoted.lexeme_utf16]
    rfl
  have hleaf (room : Nat) : Kind.text.decoder (room + 1)
      (Tree.object [(utf16 "equals", .string (utf16 "b"))]).doc = .ok { equals := some "b" } := by
    refine (Decoder.record_object_eq_ok_iff TextFilter.editable.optional).mpr ?_
    refine .known (Quoted.lexeme_utf16 _) rfl ?_
      (Field.change_of (hbound room)) (.nil _)
    exact List.forall_mem_nil _
  have hread : readFilter Courses.shape (some "\x7b\"title\":\x7b\"equals\":\"b\"\x7d\x7d") =
      .ok (some (Courses.leaves (some { equals := some "b" }) none)) := by
    refine readFilter_eq_ok_iff.mpr (.json (by decide) ?_)
    rw [show Text.trim "\x7b\"title\":\x7b\"equals\":\"b\"\x7d\x7d" =
      "\x7b\"title\":\x7b\"equals\":\"b\"\x7d\x7d" by decide, decodeText_of_spells decoder hspells]
    refine (Decoder.record_object_eq_ok_iff (editable (by decide) _).optional).mpr ?_
    refine .known (Quoted.lexeme_utf16 _) rfl ?_
      (Field.change_lift (Field.change_of (Decoder.map_eq_ok some (hleaf 125)))) (.nil _)
    exact List.forall_mem_nil _
  exact ⟨hread, ((readFilter_of_represents (by decide)).2 _ _ hread).2 _
    (Represents.trim ⟨v, v', hspells, hedited, hspells'⟩)⟩

end Filter

end Listing
