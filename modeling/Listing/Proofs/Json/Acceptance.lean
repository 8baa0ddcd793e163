import Listing.Json.Decoder
import Mathlib.Data.List.Basic

/-!
# What a decoder accepts

A value that was read came from a document of the right kind, and a list or a record from a
container that could be entered. `Decoder.Ensures` says that all values a decoder reads in a number
of containers have a property. A record has a property if it held before anything was read and every
field keeps it (`Decoder.record_ensures`): this covers the members of an object in any order, with
unknown keys among them, and the items of an array.
-/

set_option autoImplicit false
set_option relaxedAutoImplicit false

namespace Listing

/-- Two steps that succeed one after the other both succeed. -/
theorem exists_of_bind_eq_ok {ε α β : Type} {x : Except ε α} {f : α → Except ε β} {b : β}
    (h : x >>= f = .ok b) : ∃ a, x = .ok a ∧ f a = .ok b := by
  cases x with
  | error e => exact nomatch h
  | ok a => exact ⟨a, rfl, h⟩

namespace Json

variable {α β σ τ : Type} {room : Nat}

namespace Decoder

variable {read : Decoder α} {P : α → Prop}

/-- Whatever is read if so many containers may be entered has the property. -/
def Ensures (room : Nat) (read : Decoder α) (P : α → Prop) : Prop :=
  ∀ d a, read room d = .ok a → P a

/-- What a transformed decoder gives was read. -/
theorem exists_of_map_eq_ok {f : α → β} {d : Doc} {b : β}
    (h : read.map f room d = .ok b) : ∃ a, read room d = .ok a ∧ f a = b := by
  rw [map] at h
  cases hread : read room d with
  | error fault =>
    rw [hread] at h
    exact nomatch h
  | ok a =>
    rw [hread] at h
    exact ⟨a, rfl, Except.ok.inj h⟩

/-- What was read is given transformed. -/
theorem map_eq_ok (f : α → β) {d : Doc} {a : α} (h : read room d = .ok a) :
    read.map f room d = .ok (f a) :=
  congrArg (Except.map f) h

/-- A value that is there was read. -/
theorem Ensures.optional (h : Ensures room read P) :
    Ensures room (Decoder.optional read) fun o ↦ ∀ a ∈ o, P a := by
  have hsome : ∀ d o, (read room d).map some = .ok o → ∀ a ∈ o, P a := by
    intro d o hread a ha
    cases hd : read room d with
    | error fault => rw [hd] at hread; exact nomatch hread
    | ok b =>
      rw [hd] at hread
      obtain rfl : some b = o := Except.ok.inj hread
      exact Option.some.inj ha ▸ h d b hd
  intro d o hread
  cases d with
  | plain l =>
    rw [Decoder.optional] at hread
    split at hread
    · exact Except.ok.inj hread ▸ fun a ha ↦ nomatch ha
    · exact hsome _ o hread
  | missing why => exact hsome _ o hread
  | string l => exact hsome _ o hread
  | array items ending => exact hsome _ o hread
  | object members ending => exact hsome _ o hread

/-- Items that are read one after the other all have the property. -/
theorem Ensures.mapM (h : Ensures room read P) {ds : List Doc} {as : List α}
    (hread : ds.mapM (read room) = .ok as) : ∀ a ∈ as, P a := by
  induction ds generalizing as with
  | nil => exact Except.ok.inj hread ▸ fun a ha ↦ nomatch ha
  | cons d ds ih =>
    rw [List.mapM_cons] at hread
    obtain ⟨a, ha, hread⟩ := exists_of_bind_eq_ok hread
    obtain ⟨as', has, hread⟩ := exists_of_bind_eq_ok hread
    obtain rfl : a :: as' = as := Except.ok.inj hread
    exact List.forall_mem_cons.mpr ⟨h d a ha, ih has⟩

/-- The items of a list that was read have the property with one container less to enter. -/
theorem Ensures.list {P : Nat → α → Prop} (h : ∀ r, room = r + 1 → Ensures r read (P r)) :
    Ensures room (Decoder.list read) fun as ↦ ∃ r, room = r + 1 ∧ ∀ a ∈ as, P r a := by
  intro d as hread
  cases room with
  | zero => cases d <;> exact nomatch hread
  | succ r =>
    cases d with
    | array items ending =>
      obtain ⟨values, hvalues, hread⟩ := exists_of_bind_eq_ok hread
      obtain ⟨-, -, hread⟩ := exists_of_bind_eq_ok hread
      exact ⟨r, rfl, Except.ok.inj hread ▸ (h r rfl).mapM hvalues⟩
    | _ => exact nomatch hread

end Decoder

/-! ### Records -/

/-- Reading the field keeps a property of the record. -/
def Field.Keeps (room : Nat) (Q : σ → Prop) (field : Field σ) : Prop :=
  field.change.Ensures room fun change ↦ ∀ s, Q s → Q (change s)

namespace Field.Keeps

variable {Q : σ → Prop}

/-- A field keeps what storing its values keeps. -/
theorem of {key : String} {presence : Presence} {read : Decoder α} {store : α → σ → σ}
    {P : α → Prop} (hread : read.Ensures room P) (hstore : ∀ a, P a → ∀ s, Q s → Q (store a s)) :
    Keeps room Q (.of key presence read store) := by
  intro d change h
  change (read room d).map store = .ok change at h
  cases hd : read room d with
  | error fault => rw [hd] at h; exact nomatch h
  | ok a =>
    rw [hd] at h
    exact Except.ok.inj h ▸ hstore a (hread d a hd)

/-- A field of a part keeps what changes of the part keep. -/
theorem lift {field : Field σ} {Q' : τ → Prop} {within : (σ → σ) → τ → τ} (h : Keeps room Q field)
    (hwithin : ∀ change, (∀ s, Q s → Q (change s)) → ∀ t, Q' t → Q' (within change t)) :
    Keeps room Q' (field.lift within) :=
  show Keeps room Q' (.of field.key field.presence field.change within) from of h hwithin

end Field.Keeps

namespace Decoder

variable {fields : List (Field σ)} {Q : σ → Prop}

theorem members_keeps (hfields : ∀ field ∈ fields, field.Keeps room Q)
    {entries : List (Lexeme String × Doc)} {seen seen' : List String} {s s' : σ}
    (h : members fields room entries seen s = .ok (seen', s')) (hs : Q s) : Q s' := by
  induction entries generalizing seen s with
  | nil =>
    obtain ⟨-, rfl⟩ := Prod.mk.inj (Except.ok.inj h)
    exact hs
  | cons entry rest ih =>
    obtain ⟨key, d⟩ := entry
    obtain ⟨name, -, h⟩ := exists_of_bind_eq_ok h
    cases hfind : fields.find? (·.key == name) with
    | none =>
      -- An unknown key changes nothing.
      simp only [hfind] at h
      obtain ⟨-, -, h⟩ := exists_of_bind_eq_ok h
      exact ih h hs
    | some field =>
      simp only [hfind] at h
      split at h
      · exact nomatch h
      · obtain ⟨change, hchange, h⟩ := exists_of_bind_eq_ok h
        exact ih h (hfields field (List.mem_of_find?_eq_some hfind) d change hchange s hs)

theorem positions_keeps {ending : Ending} {ds : List Doc}
    (hfields : ∀ field ∈ fields, field.Keeps room Q) {s s' : σ}
    (h : positions room ending fields ds s = .ok s') (hs : Q s) : Q s' := by
  induction fields generalizing ds s with
  | nil =>
    cases ds with
    | nil =>
      obtain ⟨-, -, h⟩ := exists_of_bind_eq_ok h
      exact Except.ok.inj h ▸ hs
    | cons d ds => exact nomatch h
  | cons field fields ih =>
    obtain ⟨hfield, hfields⟩ := List.forall_mem_cons.mp hfields
    cases ds with
    | nil =>
      obtain ⟨-, -, h⟩ := exists_of_bind_eq_ok h
      split at h
      · exact ih hfields h hs
      · exact nomatch h
    | cons d ds =>
      obtain ⟨change, hchange, h⟩ := exists_of_bind_eq_ok h
      exact ih hfields h (hfield d change hchange s hs)

/-- A record that was read came from a container that was entered, and has every property that it
had before and that its fields keep. -/
theorem record_ensures {initial : σ} {Q : Nat → σ → Prop} (hinitial : ∀ r, Q r initial)
    (hfields : ∀ r, room = r + 1 → ∀ field ∈ fields, field.Keeps r (Q r)) :
    Ensures room (record fields initial) fun s ↦ ∃ r, room = r + 1 ∧ Q r s := by
  intro d s h
  cases room with
  | zero => cases d <;> exact nomatch h
  | succ r =>
    refine ⟨r, rfl, ?_⟩
    cases d with
    | array items ending => exact positions_keeps (hfields r rfl) h (hinitial r)
    | object entries ending =>
      obtain ⟨⟨seen, s'⟩, hmembers, h⟩ := exists_of_bind_eq_ok h
      obtain ⟨-, -, h⟩ := exists_of_bind_eq_ok h
      have hs' : Q r s' := members_keeps (hfields r rfl) hmembers (hinitial r)
      split at h
      · exact Except.ok.inj h ▸ hs'
      · exact nomatch h
    | _ => exact nomatch h

/-- A record comes from a container. -/
theorem record_ensures_pos (fields : List (Field σ)) (initial : σ) :
    Ensures room (record fields initial) fun _ ↦ 0 < room := by
  intro d s h
  obtain ⟨r, rfl, -⟩ := record_ensures (Q := fun _ _ ↦ True) (fun _ ↦ trivial)
    (fun _ _ _ _ _ _ _ _ _ ↦ trivial) d s h
  exact Nat.succ_pos r

end Decoder

end Json

end Listing
