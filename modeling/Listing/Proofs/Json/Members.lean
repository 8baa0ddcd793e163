import Listing.Proofs.Json.Acceptance
import Listing.Proofs.Json.Decoding
import Listing.Proofs.Json.Tree

/-!
# The members of an object

A reader of a record keeps a state while it goes through the members of an object: which known keys
it has met, and the record so far. `Decoder.Gathers` says what it comes to without the first part:
each known key stands in front of one value that its field can read, and the changes are made in
the order of the text. The order does not matter if the fields are independent
(`Decoder.Gathers.perm`).

So the members can be edited without a change to what is read (`Decoder.Editable.transfers_edited`):
they can be reordered, members with unknown keys can be inserted or dropped, and at a field that
reads null as nothing null can be written or left out. A value inside can be replaced by one that its
field reads alike (`Decoder.Editable.transfers_member`).
-/

set_option autoImplicit false
set_option relaxedAutoImplicit false

namespace Listing.Json

variable {α β σ τ : Type} {room : Nat}

namespace Field

/-! ### The change of a field -/

/-- A field stores what its decoder reads. -/
theorem change_of {key : String} {presence : Presence} {read : Decoder α} {store : α → σ → σ}
    {d : Doc} {a : α} (h : read room d = .ok a) :
    (Field.of key presence read store).change room d = .ok (store a) :=
  Decoder.map_eq_ok store h

/-- A field of a part makes its change within the whole. -/
theorem change_lift {field : Field σ} {within : (σ → σ) → τ → τ} {d : Doc} {change : σ → σ}
    (h : field.change room d = .ok change) : (field.lift within).change room d = .ok (within change) :=
  Decoder.map_eq_ok within h

/-! ### Independent fields -/

/-- Whatever the two fields read, the changes may be made in either order. -/
def Commutes (f g : Field σ) : Prop :=
  ∀ room d d' change change', f.change room d = .ok change → g.change room d' = .ok change' →
    ∀ s, change' (change s) = change (change' s)

theorem Commutes.symm {f g : Field σ} (h : f.Commutes g) : g.Commutes f :=
  fun room d d' change change' hg hf s ↦ (h room d' d change' change hf hg s).symm

instance : Std.Symm (@Commutes σ) := ⟨fun _ _ h ↦ h.symm⟩

/-- Two values that can be stored in either order. -/
theorem Commutes.of {key key' : String} {presence presence' : Presence} {read : Decoder α}
    {read' : Decoder β} {store : α → σ → σ} {store' : β → σ → σ}
    (h : ∀ a b s, store' b (store a s) = store a (store' b s)) :
    Commutes (.of key presence read store) (.of key' presence' read' store') := by
  intro room d d' change change' hf hg s
  obtain ⟨a, -, rfl⟩ := Decoder.exists_of_map_eq_ok hf
  obtain ⟨b, -, rfl⟩ := Decoder.exists_of_map_eq_ok hg
  exact h a b s

/-- A change of a part and a value that is stored elsewhere. -/
theorem Commutes.lift_of {f : Field σ} {within : (σ → σ) → τ → τ} {key : String}
    {presence : Presence} {read : Decoder α} {store : α → τ → τ}
    (h : ∀ change a t, store a (within change t) = within change (store a t)) :
    Commutes (f.lift within) (.of key presence read store) :=
  show Commutes (.of f.key f.presence f.change within) _ from .of h

/-- Fields of a part that commute do so in the whole. -/
theorem Commutes.lift {f g : Field σ} {within : (σ → σ) → τ → τ}
    (hwithin : ∀ change change' t, within change' (within change t) = within (change' ∘ change) t)
    (h : f.Commutes g) : Commutes (f.lift within) (g.lift within) := by
  intro room d d' _ _ hf hg t
  obtain ⟨change, hchange, rfl⟩ := Decoder.exists_of_map_eq_ok hf
  obtain ⟨change', hchange', rfl⟩ := Decoder.exists_of_map_eq_ok hg
  have hcomm : change' ∘ change = change ∘ change' :=
    funext (h room d d' change change' hchange hchange')
  rw [hwithin, hwithin, hcomm]

/-- The changes of any two of the fields may be made in either order. -/
def Independent (fields : List (Field σ)) : Prop := fields.Pairwise Commutes

/-- Three fields of which any two commute. -/
theorem Independent.of_three {f g h : Field σ} (hfg : f.Commutes g) (hfh : f.Commutes h)
    (hgh : g.Commutes h) : Independent [f, g, h] := by
  simp only [Independent, List.pairwise_cons, List.forall_mem_cons]
  exact ⟨⟨hfg, hfh, nofun⟩, ⟨hgh, nofun⟩, nofun, .nil⟩

/-- Independent fields of a part are so in the whole. -/
theorem Independent.lift {fields : List (Field σ)} {within : (σ → σ) → τ → τ}
    (hwithin : ∀ change change' t, within change' (within change t) = within (change' ∘ change) t)
    (h : Independent fields) : Independent (fields.map (.lift within)) :=
  List.pairwise_map.mpr (List.Pairwise.imp (fun hfg ↦ hfg.lift hwithin) h)

end Field

/-! ### Fields that are written as null -/

/-- Reading null for the field leaves the record as it is. -/
def Field.Idle (room : Nat) (s : σ) (field : Field σ) : Prop :=
  ∃ change, field.change room Value.null.doc = .ok change ∧ change s = s

/-- A field of a part that is idle is idle in the whole. -/
theorem Field.Idle.lift {field : Field σ} {s : σ} {within : (σ → σ) → τ → τ} {t : τ}
    (h : field.Idle room s) (hwithin : ∀ change, change s = s → within change t = t) :
    (field.lift within).Idle room t := by
  obtain ⟨change, hread, hchange⟩ := h
  exact ⟨within change, change_lift hread, hwithin change hchange⟩

/-- Idle fields that are written as null are passed over. -/
theorem Decoder.positions_idle {ending : Ending} {fields more : List (Field σ)} {vs : List Value}
    {s : σ} (h : ∀ field ∈ fields, field.Idle room s) :
    positions room ending (fields ++ more)
        (Value.docs (List.replicate fields.length .null ++ vs)) s =
      positions room ending more (Value.docs vs) s := by
  induction fields with
  | nil => rfl
  | cons field fields ih =>
    obtain ⟨⟨change, hread, hchange⟩, hfields⟩ := List.forall_mem_cons.mp h
    rw [List.length_cons, List.replicate_succ, List.cons_append, List.cons_append, Value.docs,
      positions, hread]
    change positions room ending (fields ++ more) _ (change s) = _
    rw [hchange, ih hfields]

/-! ### Reading members -/

namespace Decoder

variable {fields : List (Field σ)} {entries entries' : List (Lexeme String × Doc)} {s s' : σ}

/-- The members can all be read or passed over, no known key stands there twice, and the changes of
the fields lead from one record to the other. -/
inductive Gathers (fields : List (Field σ)) (room : Nat) :
    List (Lexeme String × Doc) → σ → σ → Prop
  | nil (s : σ) : Gathers fields room [] s s
  | unknown {key : Lexeme String} {name : String} {d : Doc} {rest s s'}
      (hkey : key.value = .ok name) (hname : fields.find? (·.key == name) = none)
      (hd : d.pass = .ok ()) (hrest : Gathers fields room rest s s') :
      Gathers fields room ((key, d) :: rest) s s'
  | known {key : Lexeme String} {name : String} {d : Doc} {field : Field σ} {change : σ → σ}
      {rest s s'} (hkey : key.value = .ok name)
      (hname : fields.find? (·.key == name) = some field)
      (hnew : ∀ m ∈ rest, m.1.value ≠ .ok name) (hd : field.change room d = .ok change)
      (hrest : Gathers fields room rest (change s) s') :
      Gathers fields room ((key, d) :: rest) s s'

section

variable {key : Lexeme String} {name : String} {d : Doc}

/-- A member with an unknown key is passed over. -/
theorem gathers_cons_of_unknown (hkey : key.value = .ok name)
    (hname : fields.find? (·.key == name) = none) :
    Gathers fields room ((key, d) :: entries) s s' ↔
      d.pass = .ok () ∧ Gathers fields room entries s s' := by
  refine ⟨fun h ↦ ?_, fun ⟨hd, hrest⟩ ↦ .unknown hkey hname hd hrest⟩
  cases h with
  | unknown _ _ hd hrest => exact ⟨hd, hrest⟩
  | known hkey' hname' _ _ _ =>
    obtain rfl := Except.ok.inj (hkey.symm.trans hkey')
    exact nomatch hname.symm.trans hname'

/-- A member with a known key is read by its field. -/
theorem gathers_cons_of_known {field : Field σ} (hkey : key.value = .ok name)
    (hname : fields.find? (·.key == name) = some field) :
    Gathers fields room ((key, d) :: entries) s s' ↔ (∀ m ∈ entries, m.1.value ≠ .ok name) ∧
      ∃ change, field.change room d = .ok change ∧ Gathers fields room entries (change s) s' := by
  refine ⟨fun h ↦ ?_, fun ⟨hnew, change, hd, hrest⟩ ↦ .known hkey hname hnew hd hrest⟩
  cases h with
  | unknown hkey' hname' _ _ =>
    obtain rfl := Except.ok.inj (hkey.symm.trans hkey')
    exact nomatch hname.symm.trans hname'
  | known hkey' hname' hnew hd hrest =>
    obtain rfl := Except.ok.inj (hkey.symm.trans hkey')
    obtain rfl := Option.some.inj (hname.symm.trans hname')
    exact ⟨hnew, _, hd, hrest⟩

end

/-- Assumes: the keys that were met are known. Members that are read gather into a record, and none of
their keys was met before. -/
theorem gathers_of_members {seen seen' : List String}
    (hseen : ∀ met ∈ seen, fields.find? (·.key == met) ≠ none)
    (h : members fields room entries seen s = .ok (seen', s')) :
    Gathers fields room entries s s' ∧ ∀ m ∈ entries, ∀ met ∈ seen, m.1.value ≠ .ok met := by
  induction entries generalizing seen s with
  | nil =>
    obtain ⟨-, rfl⟩ := Prod.mk.inj (Except.ok.inj h)
    exact ⟨.nil s, nofun⟩
  | cons entry rest ih =>
    obtain ⟨key, d⟩ := entry
    rw [List.forall_mem_cons]
    obtain ⟨name, hkey, h⟩ := exists_of_bind_eq_ok h
    have hmet {met : String} (heq : key.value = .ok met) : name = met :=
      Except.ok.inj (hkey.symm.trans heq)
    cases hname : fields.find? (·.key == name) with
    | none =>
      simp only [hname] at h
      obtain ⟨⟨⟩, hd, h⟩ := exists_of_bind_eq_ok h
      obtain ⟨hrest, hnew⟩ := ih hseen h
      refine ⟨.unknown hkey hname hd hrest, fun met hmem heq ↦ ?_, hnew⟩
      obtain rfl := hmet heq
      exact hseen name hmem hname
    | some field =>
      simp only [hname] at h
      split at h
      · cases h
      · rename_i hfresh
        obtain ⟨change, hd, h⟩ := exists_of_bind_eq_ok h
        have hknown : fields.find? (·.key == name) ≠ none := hname ▸ Option.some_ne_none field
        obtain ⟨hrest, hnew⟩ := ih (List.forall_mem_cons.mpr ⟨hknown, hseen⟩) h
        refine ⟨.known hkey hname (fun m hm ↦ hnew m hm name List.mem_cons_self) hd hrest,
          fun met hmem heq ↦ ?_, fun m hm met hmem ↦ hnew m hm met (List.mem_cons_of_mem _ hmem)⟩
        obtain rfl := hmet heq
        exact hfresh (List.contains_iff_mem.mpr hmem)

/-- Members that gather into a record are read, if none of their keys was met before. -/
theorem Gathers.exists_members {seen : List String} (h : Gathers fields room entries s s')
    (hnew : ∀ m ∈ entries, ∀ met ∈ seen, m.1.value ≠ .ok met) :
    ∃ seen', members fields room entries seen s = .ok (seen', s') := by
  induction h generalizing seen with
  | nil s => exact ⟨seen, rfl⟩
  | unknown hkey hname hd _ ih =>
    obtain ⟨seen', hread⟩ := ih (List.forall_mem_cons.mp hnew).2
    refine ⟨seen', ?_⟩
    rw [members, hkey]
    simp only [bind, Except.bind, hname, hd, hread]
  | @known _ name _ _ _ rest _ _ hkey hname hothers hd _ ih =>
    obtain ⟨hfirst, hrest⟩ := List.forall_mem_cons.mp hnew
    have hfresh : ¬seen.contains name = true := fun hmem ↦
      hfirst name (List.contains_iff_mem.mp hmem) hkey
    have hnew' : ∀ m ∈ rest, ∀ met ∈ name :: seen, m.1.value ≠ .ok met := fun m hm ↦
      List.forall_mem_cons.mpr ⟨hothers m hm, hrest m hm⟩
    obtain ⟨seen', hread⟩ := ih hnew'
    refine ⟨seen', ?_⟩
    rw [members, hkey]
    simp only [bind, Except.bind, hname, hd, hread, hfresh, Bool.false_eq_true, if_false]

/-- Assumes: no field is required. An object is read if its members gather into a record. -/
theorem record_object_eq_ok_iff {initial : σ} (hopt : ∀ field ∈ fields, field.presence ≠ .required) :
    record fields initial (room + 1) (.object entries (.ok ())) = .ok s' ↔
      Gathers fields room entries initial s' := by
  have hcomplete (seen : List String) : (fields.all fun field ↦
      field.presence != .required || seen.contains field.key) = true := by
    refine List.all_eq_true.mpr fun field hfield ↦ ?_
    rw [bne_iff_ne.mpr (hopt field hfield), Bool.true_or]
  constructor
  · intro h
    obtain ⟨⟨seen', s''⟩, hread, h⟩ := exists_of_bind_eq_ok h
    obtain ⟨-, -, h⟩ := exists_of_bind_eq_ok h
    simp only [hcomplete, if_true] at h
    obtain rfl := Except.ok.inj h
    exact (gathers_of_members (fun _ hmem ↦ absurd hmem List.not_mem_nil) hread).1
  · intro h
    obtain ⟨seen', hread⟩ := h.exists_members fun _ _ _ hmem ↦ absurd hmem List.not_mem_nil
    rw [record, hread]
    change (if _ = true then _ else _) = _
    rw [if_pos (hcomplete seen')]

/-- Assumes: independent fields. The first two members may trade places. -/
theorem Gathers.swap (hindep : Field.Independent fields) {m m' : Lexeme String × Doc}
    (h : Gathers fields room (m' :: m :: entries) s s') :
    Gathers fields room (m :: m' :: entries) s s' := by
  -- If one of them is unknown, it is passed over in either place.
  cases h with
  | unknown hkey' hname' hd' hrest =>
    cases hrest with
    | unknown hkey hname hd hrest =>
      exact .unknown hkey hname hd (.unknown hkey' hname' hd' hrest)
    | @known key name d field change _ _ _ hkey hname hnew hd hrest =>
      refine .known hkey hname (List.forall_mem_cons.mpr ⟨fun heq ↦ ?_, hnew⟩) hd
        (.unknown hkey' hname' hd' hrest)
      rw [Except.ok.inj (hkey'.symm.trans heq), hname] at hname'
      exact nomatch hname'
  | @known key' name' d' field' change' _ _ _ hkey' hname' hnew' hd' hrest =>
    obtain ⟨hfirst, hothers⟩ := List.forall_mem_cons.mp hnew'
    cases hrest with
    | unknown hkey hname hd hrest =>
      exact .unknown hkey hname hd (.known hkey' hname' hothers hd' hrest)
    | @known key name d field change _ _ _ hkey hname hnew hd hrest =>
      -- Two known members have different keys, so their fields are different, and commute.
      have hne : field' ≠ field := by
        rintro rfl
        have hkey₁ := List.find?_some hname'
        have hkey₂ := List.find?_some hname
        exact hfirst (hkey.trans (congrArg Except.ok
          ((beq_iff_eq.mp hkey₂).symm.trans (beq_iff_eq.mp hkey₁))))
      have hcomm : field'.Commutes field :=
        List.Pairwise.forall hindep (List.mem_of_find?_eq_some hname')
          (List.mem_of_find?_eq_some hname) hne
      refine .known hkey hname (List.forall_mem_cons.mpr ⟨fun heq ↦ ?_, hnew⟩) hd
        (.known hkey' hname' hothers hd' ?_)
      · exact hfirst (hkey.trans (heq.symm.trans hkey'))
      · rw [← hcomm room d' d change' change hd' hd s]
        exact hrest

/-- Assumes: independent fields. Members gather in any order. -/
theorem Gathers.perm (hindep : Field.Independent fields) (hperm : entries.Perm entries')
    (h : Gathers fields room entries s s') : Gathers fields room entries' s s' := by
  induction hperm generalizing s with
  | nil => exact h
  | cons m hperm ih =>
    cases h with
    | unknown hkey hname hd hrest => exact .unknown hkey hname hd (ih hrest)
    | known hkey hname hnew hd hrest =>
      exact .known hkey hname (fun m hm ↦ hnew m (hperm.mem_iff.mpr hm)) hd (ih hrest)
  | swap m m' entries => exact h.swap hindep
  | trans _ _ ih ih' => exact ih' (ih h)

/-- Assumes: independent fields. It does not matter where a member stands. -/
theorem gathers_middle_iff {before after : List (Lexeme String × Doc)} {m : Lexeme String × Doc}
    (hindep : Field.Independent fields) :
    Gathers fields room (before ++ m :: after) s s' ↔
      Gathers fields room (m :: (before ++ after)) s s' :=
  ⟨.perm hindep List.perm_middle, .perm hindep List.perm_middle.symm⟩

/-! ### Values that are read alike -/

/-- Whatever is read from the first document is read from the second one as well. -/
def Transfers (read : Decoder α) (d d' : Doc) : Prop :=
  ∀ room a, read room d = .ok a → read room d' = .ok a

variable {read : Decoder α} {d d' : Doc}

theorem Transfers.map (f : α → β) (h : read.Transfers d d') : (read.map f).Transfers d d' := by
  intro room b hb
  obtain ⟨a, ha, rfl⟩ := exists_of_map_eq_ok hb
  exact map_eq_ok f (h room a ha)

/-- An item may be replaced by one that is read alike. -/
theorem Transfers.list {before after : List Doc} {ending : Ending} (h : read.Transfers d d') :
    (Decoder.list read).Transfers (.array (before ++ d :: after) ending)
      (.array (before ++ d' :: after) ending) := by
  intro room as has
  cases room with
  | zero => exact nomatch has
  | succ room =>
    obtain ⟨values, hvalues, has⟩ := exists_of_bind_eq_ok has
    rw [List.mapM_append, List.mapM_cons] at hvalues
    obtain ⟨first, hfirst, hvalues⟩ := exists_of_bind_eq_ok hvalues
    obtain ⟨rest, hrest, hvalues⟩ := exists_of_bind_eq_ok hvalues
    obtain ⟨a, ha, hrest⟩ := exists_of_bind_eq_ok hrest
    obtain ⟨others, hothers, hrest⟩ := exists_of_bind_eq_ok hrest
    obtain rfl : a :: others = rest := Except.ok.inj hrest
    obtain rfl : first ++ a :: others = values := Except.ok.inj hvalues
    have hreplaced : (before ++ d' :: after).mapM (read room) = .ok (first ++ a :: others) := by
      rw [List.mapM_append, List.mapM_cons, hfirst, h room a ha, hothers]
      rfl
    rw [Decoder.list, hreplaced]
    exact has

end Decoder

/-! ### Edits -/

open Quoted (lexeme utf16)

namespace Tree

mutual

/-- A reader can pass over every value. -/
theorem pass_doc : ∀ v : Tree, v.doc.pass = .ok ()
  | .null => rfl
  | .bool _ => rfl
  | .numeral _ => rfl
  | .string _ => rfl
  | .array items => by
    rw [doc, Doc.pass, passItems_docs items]
    rfl
  | .object members => by
    rw [doc, Doc.pass, passMembers_memberDocs members]
    rfl

theorem passItems_docs : ∀ vs : List Tree, Doc.passItems (docs vs) = .ok ()
  | [] => rfl
  | v :: vs => by
    rw [docs, Doc.passItems, pass_doc v]
    exact passItems_docs vs

theorem passMembers_memberDocs :
    ∀ ms : List (List UInt16 × Tree), Doc.passMembers (memberDocs ms) = .ok ()
  | [] => rfl
  | (key, v) :: ms => by
    have hkey : (lexeme key).passing = .ok () := rfl
    rw [memberDocs, Doc.passMembers, hkey, pass_doc v]
    exact passMembers_memberDocs ms

end

/-- One edit of the members of an object whose reader knows some keys, and takes null for nothing at
some of them. -/
inductive MembersEdited (known nullable : List String) :
    List (List UInt16 × Tree) → List (List UInt16 × Tree) → Prop
  /-- The members are reordered. -/
  | reorder {ms ms'} (hperm : ms.Perm ms') : MembersEdited known nullable ms ms'
  /-- A member with an unknown key is inserted, whatever its value is. -/
  | insert {before after} {name : String} {v : Tree} (hname : name ∉ known) :
      MembersEdited known nullable (before ++ after) (before ++ (utf16 name, v) :: after)
  /-- A member with an unknown key is dropped. -/
  | drop {before after} {name : String} {v : Tree} (hname : name ∉ known) :
      MembersEdited known nullable (before ++ (utf16 name, v) :: after) (before ++ after)
  /-- A value that is absent is written as null. -/
  | writeNull {before after} {name : String} (hname : name ∈ nullable)
      (hnew : ∀ m ∈ before ++ after, m.1 ≠ utf16 name) :
      MembersEdited known nullable (before ++ after) (before ++ (utf16 name, .null) :: after)
  /-- A value that is written as null is left out. -/
  | omitNull {before after} {name : String} (hname : name ∈ nullable) :
      MembersEdited known nullable (before ++ (utf16 name, .null) :: after) (before ++ after)

end Tree

namespace Decoder

variable {fields : List (Field σ)} {initial : σ} {nullable : List String}
  {ms ms' before after : List (List UInt16 × Tree)} {s s' : σ}

/-- A record that can be edited: no field must be written, the fields may be written in any order,
and at some keys null is read as nothing. -/
structure Editable (fields : List (Field σ)) (initial : σ) (nullable : List String) : Prop where
  optional : ∀ field ∈ fields, field.presence ≠ .required
  independent : Field.Independent fields
  idle : ∀ name ∈ nullable, ∃ field, fields.find? (·.key == name) = some field ∧
    ∀ room, field.Idle room initial

namespace Editable

variable (hfields : Editable fields initial nullable)

include hfields

/-- What gathers from the members of one object and also from those of another is read from both. -/
theorem transfers_object
    (h : ∀ room s, Gathers fields room (Tree.memberDocs ms) initial s →
      Gathers fields room (Tree.memberDocs ms') initial s) :
    (record fields initial).Transfers (Tree.object ms).doc (Tree.object ms').doc := by
  intro room s hs
  cases room with
  | zero => exact nomatch hs
  | succ room =>
    exact (record_object_eq_ok_iff hfields.optional).mpr
      (h room s ((record_object_eq_ok_iff hfields.optional).mp hs))

/-- It does not matter where a member stands. -/
theorem gathers_insert_iff {key : List UInt16} {v : Tree} :
    Gathers fields room (Tree.memberDocs (before ++ (key, v) :: after)) s s' ↔
      Gathers fields room ((lexeme key, v.doc) :: Tree.memberDocs (before ++ after)) s s' := by
  simp only [Tree.memberDocs_eq_map, List.map_append, List.map_cons]
  exact gathers_middle_iff hfields.independent

/-- An object that is edited is read alike. -/
theorem transfers_edited (h : Tree.MembersEdited (fields.map (·.key)) nullable ms ms') :
    (record fields initial).Transfers (Tree.object ms).doc (Tree.object ms').doc := by
  have hunknown {name : String} (hname : name ∉ fields.map (·.key)) :
      fields.find? (·.key == name) = none := by
    refine List.find?_eq_none.mpr fun field hfield heq ↦ hname ?_
    exact List.mem_map.mpr ⟨field, hfield, beq_iff_eq.mp heq⟩
  refine hfields.transfers_object fun room s hs ↦ ?_
  cases h with
  | reorder hperm =>
    rw [Tree.memberDocs_eq_map] at hs ⊢
    exact hs.perm hfields.independent (hperm.map _)
  | @insert before after name v hname =>
    rw [hfields.gathers_insert_iff,
      gathers_cons_of_unknown (Quoted.lexeme_utf16 name) (hunknown hname)]
    exact ⟨v.pass_doc, hs⟩
  | @drop before after name v hname =>
    rw [hfields.gathers_insert_iff,
      gathers_cons_of_unknown (Quoted.lexeme_utf16 name) (hunknown hname)] at hs
    exact hs.2
  | @writeNull before after name hname hnew =>
    obtain ⟨field, hfield, hidle⟩ := hfields.idle name hname
    obtain ⟨change, hchange, hinitial⟩ := hidle room
    rw [hfields.gathers_insert_iff, gathers_cons_of_known (Quoted.lexeme_utf16 name) hfield,
      Tree.memberDocs_eq_map, List.forall_mem_map]
    refine ⟨fun m hm heq ↦ hnew m hm (Quoted.lexeme_value_eq_ok_iff.mp heq), change, hchange, ?_⟩
    rwa [hinitial, ← Tree.memberDocs_eq_map]
  | @omitNull before after name hname =>
    obtain ⟨field, hfield, hidle⟩ := hfields.idle name hname
    obtain ⟨change, hchange, hinitial⟩ := hidle room
    rw [hfields.gathers_insert_iff,
      gathers_cons_of_known (Quoted.lexeme_utf16 name) hfield] at hs
    obtain ⟨-, change', hchange', hrest⟩ := hs
    obtain rfl := Except.ok.inj (hchange.symm.trans hchange')
    rwa [hinitial] at hrest

/-- A value may be replaced by one that its field reads alike. -/
theorem transfers_member {field : Field σ} {name : String} {v v' : Tree}
    (hfield : fields.find? (·.key == name) = some field)
    (h : field.change.Transfers v.doc v'.doc) :
    (record fields initial).Transfers (Tree.object (before ++ (utf16 name, v) :: after)).doc
      (Tree.object (before ++ (utf16 name, v') :: after)).doc := by
  refine hfields.transfers_object fun room s hs ↦ ?_
  rw [hfields.gathers_insert_iff, gathers_cons_of_known (Quoted.lexeme_utf16 name) hfield] at hs ⊢
  obtain ⟨hnew, change, hchange, hrest⟩ := hs
  exact ⟨hnew, change, h room change hchange, hrest⟩

end Editable

end Decoder

end Listing.Json
