import Listing.Json.Scalar
import Listing.Proofs.Json.Printed
import Listing.Proofs.Time.Rfc3339
import Mathlib.Data.List.Basic

/-!
# Reading what was written

`Decoder.ReadsAt` says what a decoder makes of a written value if a given number of containers may
still be entered: it gives the value that was written, unless the value is nested more deeply, and
then the text is malformed. Nothing else can go wrong with a written value.

The statement is built up as the decoders are. The scalars are read as they are written
(`Decoder.ReadsAt.int64`, `Decoder.ReadsAt.instant` and others), a list is read if its items are
(`Decoder.ReadsAt.list`), and a record if each of its fields is either left out or read
(`Decoder.ReadsAt.record`).
-/

set_option autoImplicit false
set_option relaxedAutoImplicit false

namespace Listing.Json

/-- The members of a record that are present. -/
def Value.present (ms : List (String × Option Value)) : List (String × Value) :=
  ms.filterMap fun (key, value) ↦ value.map fun v ↦ (key, v)

@[simp]
theorem Value.present_cons_some (key : String) (v : Value) (ms : List (String × Option Value)) :
    present ((key, some v) :: ms) = (key, v) :: present ms := rfl

theorem Value.depth_record (ms : List (String × Option Value)) :
    (record ms).depth = 1 + depthMembers (present ms) := rfl

/-- A record is nested one level more deeply than the deepest of its members. -/
theorem Value.depth_record_le_iff {ms : List (String × Option Value)} {room : Nat} :
    (record ms).depth ≤ room + 1 ↔ ∀ m ∈ ms, ∀ v ∈ m.2, v.depth ≤ room := by
  have hmembers : depthMembers (present ms) ≤ room ↔ ∀ m ∈ ms, ∀ v ∈ m.2, v.depth ≤ room := by
    induction ms with
    | nil => exact iff_of_true (Nat.zero_le room) nofun
    | cons m ms ih =>
      obtain ⟨key, value⟩ := m
      rw [List.forall_mem_cons, ← ih]
      cases value with
      | none => exact (and_iff_right fun _ h ↦ nomatch h).symm
      | some v => simp only [present_cons_some, depthMembers, Nat.max_le, Option.mem_some_iff,
          forall_eq']
  rw [depth_record, Nat.add_comm 1, Nat.add_le_add_iff_right, hmembers]

/-- Items are nested as deeply as the deepest of them. -/
theorem Value.depthItems_map_le {α : Type} {encode : α → Value} {as : List α} {room : Nat}
    (h : ∀ a ∈ as, (encode a).depth ≤ room) : depthItems (as.map encode) ≤ room := by
  induction as with
  | nil => exact Nat.zero_le room
  | cons a as ih =>
    obtain ⟨ha, has⟩ := List.forall_mem_cons.mp h
    exact Nat.max_le.mpr ⟨ha, ih has⟩

/-- An item is nested at most as deeply as the deepest of the items. -/
theorem Value.depth_le_depthItems {v : Value} {vs : List Value} (h : v ∈ vs) :
    v.depth ≤ depthItems vs := by
  induction vs with
  | nil => exact nomatch h
  | cons first vs ih =>
    rw [depthItems]
    rcases List.mem_cons.mp h with rfl | h
    · exact Nat.le_max_left v.depth (depthItems vs)
    · exact Nat.le_trans (ih h) (Nat.le_max_right first.depth (depthItems vs))

namespace Decoder

variable {α β σ τ : Type} {room : Nat} {read : Decoder α} {v : Value} {a : α}

/-! ### Outcomes -/

/-- The value if so many containers may be entered, and a malformed text if not. -/
def upTo (room depth : Nat) (a : α) : Except Fault α :=
  if depth ≤ room then .ok a else .error .malformed

@[simp]
theorem upTo_zero (room : Nat) (a : α) : upTo room 0 a = .ok a := if_pos (Nat.zero_le room)

theorem upTo_map (room depth : Nat) (f : α → β) (a : α) :
    (upTo room depth a).map f = upTo room depth (f a) := by
  rw [upTo, upTo]
  split <;> rfl

/-- A container is entered before what is in it. -/
theorem upTo_succ (room depth : Nat) (a : α) :
    upTo (room + 1) (1 + depth) a = upTo room depth a := by
  simp only [upTo, Nat.add_comm 1 depth, Nat.add_le_add_iff_right]

theorem upTo_zero_add_one (depth : Nat) (a : α) : upTo 0 (1 + depth) a = .error .malformed := by
  rw [upTo, if_neg (by omega)]

/-- What is read in two parts is read if the deeper one is. -/
theorem upTo_bind {m n : Nat} {f : α → Except Fault β} {b : β} (h : f a = upTo room n b) :
    (upTo room m a >>= f) = upTo room (max m n) b := by
  rw [upTo, upTo]
  by_cases hm : m ≤ room
  · rw [if_pos hm]
    change f a = _
    rw [h, upTo]
    simp only [Nat.max_le, hm, true_and]
  · rw [if_neg hm, if_neg fun h ↦ hm (Nat.max_le.mp h).1]
    rfl

/-- The value is read as the given one if its containers may be entered, and is malformed if not. -/
def ReadsAt (room : Nat) (read : Decoder α) (v : Value) (a : α) : Prop :=
  read room v.doc = upTo room v.depth a

namespace ReadsAt

/-! ### Scalars -/

/-- A value without containers is read wherever its document is. -/
theorem of_depth_eq_zero (hdepth : v.depth = 0) (h : read room v.doc = .ok a) :
    ReadsAt room read v a := by
  rw [ReadsAt, hdepth, upTo_zero, h]

theorem map (f : α → β) (h : ReadsAt room read v a) : ReadsAt room (read.map f) v (f a) := by
  rw [ReadsAt, Decoder.map, h, upTo_map]

theorem string (s : String) : ReadsAt room .string (.string s) s := of_depth_eq_zero rfl rfl

theorem bool (b : Bool) : ReadsAt room .bool (.bool b) b := of_depth_eq_zero rfl rfl

/-- A value that passes the test is kept. -/
theorem filterMap_eq_ok {f : α → Option β} {d : Doc} {b : β} (hread : read room d = .ok a)
    (h : f a = some b) : read.filterMap f room d = .ok b := by
  rw [Decoder.filterMap, hread]
  simp only [bind, Except.bind, h]

/-- A string that names a value is read as the value. -/
theorem filterMap_string {f : String → Option α} {s : String} (h : f s = some a) :
    ReadsAt room (Decoder.string.filterMap f) (.string s) a :=
  of_depth_eq_zero rfl (filterMap_eq_ok rfl h)

/-- A word is read as what it stands for. -/
theorem word {f : String → Option α} {s : String} (h : f s = some a) :
    ReadsAt room (Decoder.word f) (.string s) a :=
  of_depth_eq_zero rfl (filterMap_eq_ok rfl h)

/-- An integer of at most 64 bits that names a value is read as the value. -/
theorem filterMap_integer {f : Int → Option α} {n : Int} (hn : n.natAbs < UInt64.size)
    (h : f n = some a) : ReadsAt room (Decoder.integer.filterMap f) (.integer n) a := by
  have hinteger : Decoder.integer room (Value.integer n).doc = .ok n := by
    rw [Value.doc, Numeral.value_ofInteger hn]
    rfl
  exact of_depth_eq_zero rfl (filterMap_eq_ok hinteger h)

theorem int64 (n : Int64) : ReadsAt room .int64 (.ofInt64 n) n := by
  have hlow : -2 ^ 63 ≤ n.toInt := n.le_toInt
  have hhigh : n.toInt < 2 ^ 63 := n.toInt_lt
  have hsize : UInt64.size = 2 ^ 64 := rfl
  have hmin : Int64.minValue.toInt = -2 ^ 63 := rfl
  have hmax : Int64.maxValue.toInt = 2 ^ 63 - 1 := rfl
  refine filterMap_integer (by omega) ?_
  rw [int64?, if_pos (by omega), Int64.ofInt_toInt]

theorem count (n : Count) : ReadsAt room .count (.ofCount n) n := by
  have hn := n.toNat_lt_size
  refine filterMap_integer (by omega) ?_
  rw [count?, if_pos (by omega), Int.toNat_natCast, UInt64.ofNat_toNat]

theorem instant (t : Instant) : ReadsAt room .instant (.ofInstant t) t :=
  filterMap_string t.ofRfc3339?_toRfc3339

/-! ### Absent values -/

/-- An absent value is read as such. -/
theorem none : ReadsAt room (Decoder.optional read) .null Option.none := of_depth_eq_zero rfl rfl

/-- A value that is there is read as such. -/
theorem optional (hv : v ≠ .null) (h : ReadsAt room read v a) :
    ReadsAt room (Decoder.optional read) v (some a) := by
  have hread : Decoder.optional read room v.doc = (read room v.doc).map some := by
    cases v with
    | null => exact absurd rfl hv
    | integer n =>
      rw [Value.doc, Decoder.optional]
      cases (Numeral.ofInteger n).value <;> rfl
    | _ => rfl
  rw [ReadsAt, hread]
  exact h.map some

/-- Assumes: values are not written as null. A value or null is read as it was written. -/
theorem ofOption {encode : α → Value} {o : Option α} (hencode : ∀ a, encode a ≠ .null)
    (h : ∀ a ∈ o, ReadsAt room read (encode a) a) :
    ReadsAt room (Decoder.optional read) (.ofOption encode o) o := by
  cases o with
  | none => exact .none
  | some a => exact (h a rfl).optional (hencode a)

/-! ### Lists -/

/-- Items are read one after the other. -/
theorem mapM_docs {encode : α → Value} {as : List α}
    (h : ∀ a ∈ as, ReadsAt room read (encode a) a) :
    (Value.docs (as.map encode)).mapM (read room) =
      upTo room (Value.depthItems (as.map encode)) as := by
  induction as with
  | nil => exact (upTo_zero room []).symm
  | cons a as ih =>
    obtain ⟨ha, has⟩ := List.forall_mem_cons.mp h
    rw [List.map_cons, Value.docs, List.mapM_cons, ha, Value.depthItems]
    refine upTo_bind ?_
    rw [ih has]
    exact upTo_map room (Value.depthItems (as.map encode)) (a :: ·) as

/-- An array is read if its items are, with one container less to enter. -/
theorem list {encode : α → Value} {as : List α}
    (h : ∀ r, room = r + 1 → ∀ a ∈ as, ReadsAt r read (encode a) a) :
    ReadsAt room (Decoder.list read) (.array (as.map encode)) as := by
  rw [ReadsAt, Value.depth]
  cases room with
  | zero => exact (upTo_zero_add_one _ as).symm
  | succ r =>
    change ((Value.docs (as.map encode)).mapM (read r) >>= fun values ↦ Except.ok values) = _
    rw [mapM_docs (h r rfl), upTo_succ]
    exact upTo_map r (Value.depthItems (as.map encode)) id as

end ReadsAt

/-! ### Records -/

/-- Written members fill the fields of a record one after the other: each field is left out if it
may be, or its member is read as a change of the record. -/
inductive Fills (room : Nat) : List (Field σ) → List (String × Option Value) → σ → σ → Prop
  | nil (s : σ) : Fills room [] [] s s
  | absent {field : Field σ} {fields ms} {s s' : σ} (hfield : field.presence ≠ .required)
      (hrest : Fills room fields ms s s') :
      Fills room (field :: fields) ((field.key, Option.none) :: ms) s s'
  | present {field : Field σ} {fields ms} {s s' : σ} {v : Value} {change : σ → σ}
      (hfield : ReadsAt room field.change v change) (hrest : Fills room fields ms (change s) s') :
      Fills room (field :: fields) ((field.key, some v) :: ms) s s'

namespace Fills

variable {fields fields' : List (Field σ)} {ms ms' : List (String × Option Value)} {s s' s'' : σ}

/-- A member with a value is stored. -/
theorem member {key : String} {presence : Presence} {read : Decoder α} {store : α → σ → σ}
    {v : Value} {a : α} (hread : ReadsAt room read v a)
    (hrest : Fills room fields ms (store a s) s') :
    Fills room (.of key presence read store :: fields) ((key, some v) :: ms) s s' :=
  .present (hread.map store) hrest

/-- Assumes: the record holds no value of the field yet, and values are not written as null. A
member that may be left out is stored if it is there. -/
theorem optionalMember {key : String} {presence : Presence} {read : Decoder α}
    {store : Option α → σ → σ} {encode : α → Value} {o : Option α}
    (hpresence : presence ≠ .required) (hstore : store none s = s) (hencode : ∀ a, encode a ≠ .null)
    (hread : ∀ a ∈ o, ReadsAt room read (encode a) a)
    (hrest : Fills room fields ms (store o s) s') :
    Fills room (.of key presence (.optional read) store :: fields)
      ((key, o.map encode) :: ms) s s' := by
  cases o with
  | none =>
    rw [hstore] at hrest
    exact .absent hpresence hrest
  | some a => exact .member ((hread a rfl).optional (hencode a)) hrest

/-- The rows of fields of two parts are filled one after the other. -/
theorem append (h : Fills room fields ms s s') (h' : Fills room fields' ms' s' s'') :
    Fills room (fields ++ fields') (ms ++ ms') s s'' := by
  induction h with
  | nil => exact h'
  | absent hfield _ ih => exact .absent hfield (ih h')
  | present hfield _ ih => exact .present hfield (ih h')

/-- Filling a part of a record fills the whole. -/
theorem lift {within : (σ → σ) → τ → τ} (whole : σ → τ)
    (hwithin : ∀ change s, within change (whole s) = whole (change s))
    (h : Fills room fields ms s s') :
    Fills room (fields.map (.lift within)) ms (whole s) (whole s') := by
  induction h with
  | nil s => exact .nil (whole s)
  | absent hfield _ ih => exact .absent hfield ih
  | @present field fields ms s s' v change hfield _ ih =>
    have hlifted : ReadsAt room (field.lift within).change v (within change) := hfield.map within
    have hrest :
        Fills room (fields.map (.lift within)) ms (within change (whole s)) (whole s') := by
      rw [hwithin]
      exact ih
    exact .present hlifted hrest

/-- A field is found by its key if no other field has the key. -/
theorem find?_key {all : List (Field σ)} (hkeys : (all.map (·.key)).Nodup) {field : Field σ}
    (hfield : field ∈ all) : all.find? (·.key == field.key) = some field := by
  induction all with
  | nil => exact nomatch hfield
  | cons first all ih =>
    obtain ⟨hfirst, hall⟩ := List.nodup_cons.mp hkeys
    rcases List.mem_cons.mp hfield with rfl | hfield
    · rw [List.find?_cons, beq_self_eq_true]
    · have hne : (first.key == field.key) = false := beq_eq_false_iff_ne.mpr fun heq ↦
        hfirst (List.mem_map.mpr ⟨field, hfield, heq.symm⟩)
      rw [List.find?_cons, hne]
      exact ih hall hfield

/-- A member with a known key that is new is read as the change of its field. -/
theorem members_cons {all : List (Field σ)} {field : Field σ} {key : String} {seen : List String}
    (hfind : all.find? (·.key == key) = some field) (hseen : seen.contains key = false) (d : Doc)
    (rest : List (Lexeme String × Doc)) (s : σ) :
    members all room ((.ofValue key, d) :: rest) seen s = (do
      let change ← field.change room d
      members all room rest (key :: seen) (change s)) := by
  have hname : (Lexeme.ofValue key).value = .ok key := rfl
  rw [members, hname]
  simp only [bind, Except.bind, hfind, hseen, Bool.false_eq_true, if_false]

/-- Assumes: members that fill fields of a record with the given fields, and none of their keys has
been met before. They are read one after the other, up to the first one that is nested too
deeply. -/
theorem members_eq {all : List (Field σ)} (h : Fills room fields ms s s')
    (hfind : ∀ field ∈ fields, all.find? (·.key == field.key) = some field)
    (hkeys : (fields.map (·.key)).Nodup) (seen : List String)
    (hseen : ∀ field ∈ fields, field.key ∉ seen) :
    ∃ seen', (∀ key ∈ seen, key ∈ seen') ∧
      (∀ field ∈ fields, field.presence = .required → field.key ∈ seen') ∧
      members all room (Value.memberDocs (Value.present ms)) seen s =
        upTo room (Value.depthMembers (Value.present ms)) (seen', s') := by
  -- The induction is on the fields that are still to be filled; keys are looked up in all of them.
  induction h generalizing seen with
  | nil s =>
    refine ⟨seen, fun _ h ↦ h, ?_, (upTo_zero room (seen, s)).symm⟩
    exact fun _ hfield ↦ nomatch hfield
  | @absent field fields ms s s' hfield _ ih =>
    obtain ⟨seen', hkept, hmet, hread⟩ := ih (fun f hf ↦ hfind f (List.mem_cons_of_mem _ hf))
      (List.nodup_cons.mp hkeys).2 seen fun f hf ↦ hseen f (List.mem_cons_of_mem _ hf)
    refine ⟨seen', hkept, fun f hf hrequired ↦ ?_, hread⟩
    rcases List.mem_cons.mp hf with rfl | hf
    · exact absurd hrequired hfield
    · exact hmet f hf hrequired
  | @present field fields ms s s' v change hfield _ ih =>
    obtain ⟨hnew, htail⟩ := List.nodup_cons.mp hkeys
    have hunseen : ∀ f ∈ fields, f.key ∉ field.key :: seen := by
      intro f hf hmem
      rcases List.mem_cons.mp hmem with heq | hmem
      · exact hnew (List.mem_map.mpr ⟨f, hf, heq⟩)
      · exact hseen f (List.mem_cons_of_mem _ hf) hmem
    obtain ⟨seen', hkept, hmet, hread⟩ := ih (fun f hf ↦ hfind f (List.mem_cons_of_mem _ hf))
      htail (field.key :: seen) hunseen
    refine ⟨seen', fun key hkey ↦ hkept key (List.mem_cons_of_mem _ hkey), fun f hf hrequired ↦ ?_,
      ?_⟩
    · rcases List.mem_cons.mp hf with rfl | hf
      · exact hkept f.key List.mem_cons_self
      · exact hmet f hf hrequired
    · have hseen : seen.contains field.key = false := by
        rw [List.contains_eq_mem, decide_eq_false (hseen field List.mem_cons_self)]
      rw [Value.present_cons_some, Value.memberDocs, Value.depthMembers,
        members_cons (hfind field List.mem_cons_self) hseen, hfield]
      exact upTo_bind hread

end Fills

/-- A record is read if its members fill its fields, with one container less to enter. -/
theorem ReadsAt.record {fields : List (Field σ)} {ms : List (String × Option Value)} {s s' : σ}
    (hkeys : (fields.map (·.key)).Nodup) (h : ∀ r, room = r + 1 → Fills r fields ms s s') :
    ReadsAt room (Decoder.record fields s) (.record ms) s' := by
  rw [ReadsAt, Value.depth_record]
  cases room with
  | zero => exact (upTo_zero_add_one _ s').symm
  | succ r =>
    obtain ⟨seen, -, hmet, hread⟩ := (h r rfl).members_eq
      (fun _ hfield ↦ Fills.find?_key hkeys hfield) hkeys [] fun _ _ h ↦ nomatch h
    -- Fields that were left out are not required, so nothing is missed at the end of the object.
    have hcomplete : (fields.all fun field ↦
        field.presence != .required || seen.contains field.key) = true := by
      rw [List.all_eq_true]
      intro field hfield
      by_cases hrequired : field.presence = .required
      · rw [List.contains_eq_mem, decide_eq_true (hmet field hfield hrequired), Bool.or_true]
      · rw [bne_iff_ne.mpr hrequired, Bool.true_or]
    change (members fields r (Value.memberDocs (Value.present ms)) [] s >>= _) = _
    rw [hread, upTo_succ]
    refine (upTo_bind (n := 0) ?_).trans (by rw [Nat.max_zero])
    change (if _ = true then _ else _) = _
    rw [upTo_zero, if_pos hcomplete]

end Decoder

end Listing.Json
