import Listing.Json.Scalar
import Listing.Proofs.Json.Acceptance
import Listing.Proofs.Json.Tree

/-!
# What was read is the text of a value

A document is intact if the text makes sense throughout: no value is missing, every container ends
with its bracket, and every lexeme has a value or can be passed over. An intact text is a text of a
value (`exists_spells_of_intact`): inside its open containers a text can only go on with further
items or members and the brackets that are due (`Document.Closes`).

A decoder is thorough if it reads nothing but intact documents (`Decoder.Thorough`). All of them
are, as they go through the document to its end, so what they read is a text of a value
(`exists_spells_of_decodeText`).
-/

set_option autoImplicit false
set_option relaxedAutoImplicit false

namespace Listing.Json

/-- The lexeme has a value or can be passed over. -/
def Lexeme.Intact {α : Type} (l : Lexeme α) : Prop := (∃ a, l.value = .ok a) ∨ l.passing = .ok ()

/-- No value is missing, every container ends well, and every lexeme is intact. -/
inductive Doc.Intact : Doc → Prop
  | plain {l : Lexeme Plain} (hl : l.Intact) : Intact (.plain l)
  | string {l : Lexeme String} (hl : l.Intact) : Intact (.string l)
  | array {items : List Doc} (hitems : ∀ d ∈ items, Intact d) : Intact (.array items (.ok ()))
  | object {members : List (Lexeme String × Doc)} (hkeys : ∀ m ∈ members, m.1.Intact)
      (hvalues : ∀ m ∈ members, Intact m.2) : Intact (.object members (.ok ()))

/-- The value is intact, and nothing follows it. -/
structure Document.Intact (document : Document) : Prop where
  root : document.root.Intact
  trailing : document.trailing = false

/-! ### From documents to values -/

namespace Document

variable {d : Doc} {frame : Frame} {frames : List Frame} {ts : List Token} {ss : List Symbol}

/-- A container that does not end well is not intact. -/
theorem not_intact_close (frame : Frame) (d : Doc) (fault : Fault) :
    ¬(frame.close d (.error fault)).Intact := by
  have harray (items : List Doc) : ¬(Doc.array items (.error fault)).Intact := nofun
  have hobject (members) : ¬(Doc.object members (.error fault)).Intact := nofun
  cases frame with
  | array items => exact harray _
  | object members key => exact hobject _

/-- Nothing that is cut off is intact. -/
theorem not_intact_cut (hd : ¬d.Intact) (frames : List Frame) : ¬(cut d frames).Intact := by
  rintro ⟨hroot, -⟩
  induction frames generalizing d with
  | nil => exact hd hroot
  | cons frame frames ih => exact ih (not_intact_close frame d .cutShort) hroot

theorem not_intact_cut_missing (why : Fault) (frames : List Frame) :
    ¬(cut (.missing why) frames).Intact := by
  have hmissing : ¬(Doc.missing why).Intact := nofun
  exact not_intact_cut hmissing frames

/-- An open container is not intact. -/
theorem not_intact_cut_cons (d : Doc) (frame : Frame) (frames : List Frame) :
    ¬(cut d (frame :: frames)).Intact :=
  fun h ↦ not_intact_cut (not_intact_close frame d .cutShort) frames h

/-- A container that goes on with a wrong token is not intact. -/
theorem not_intact_cut_close (d : Doc) (frame : Frame) (frames : List Frame) :
    ¬(cut (frame.close d (.error .malformed)) frames).Intact :=
  not_intact_cut (not_intact_close frame d .malformed) frames

/-- A value at which a text breaks off is not intact, and nor is the text. -/
theorem not_intact_afterValue_nil (hd : ¬d.Intact) (frames : List Frame) :
    ¬(afterValue d frames []).Intact := by
  cases frames with
  | nil => exact fun h ↦ hd h.root
  | cons frame frames => exact not_intact_cut hd (frame :: frames)

/-- The symbols complete the open containers: each goes on with items or members and ends. -/
def Closes : List Frame → List Symbol → Prop
  | [], ss => ss = []
  | .array _ :: frames, ss => ∃ vs rest, ss = Tree.itemSymbols vs ++ rest ∧ Closes frames rest
  | .object _ _ :: frames, ss =>
    ∃ ms rest, ss = Tree.memberSymbols ms ++ rest ∧ Closes frames rest

/-- Where a value or a key is due, a break is not intact. -/
theorem not_intact_atValue_break (hts : IsBreak ts) : ¬(atValue frames ts).Intact := by
  rcases hts with rfl | ⟨t, rfl, ht⟩
  · exact not_intact_cut_missing .cutShort frames
  · cases ht with
    | stray => exact not_intact_cut_missing .malformed frames
    | plain hvalue hpassing =>
      refine not_intact_afterValue_nil ?_ frames
      rintro (⟨⟨a, ha⟩ | hpass⟩)
      · exact hvalue a ha
      · exact hpassing hpass
    | string hvalue hpassing =>
      refine not_intact_afterValue_nil ?_ frames
      rintro (⟨⟩ | ⟨⟨a, ha⟩ | hpass⟩)
      · exact hvalue a ha
      · exact hpassing hpass

theorem not_intact_atKey_break {members : List (Lexeme String × Doc)} (hts : IsBreak ts) :
    ¬(atKey members frames ts).Intact := by
  rcases hts with rfl | ⟨t, rfl, ht⟩
  · exact not_intact_cut_missing .cutShort _
  · cases ht with
    | string => exact not_intact_cut_missing .cutShort _
    | _ => exact not_intact_cut_missing .malformed _

/-- Behind a value, a break is not intact unless the text is over. -/
theorem closes_of_afterValue_break (hts : IsBreak ts) (h : (afterValue d frames ts).Intact) :
    ts = [] ∧ Closes frames [] := by
  rcases hts with rfl | ⟨t, rfl, ht⟩
  · cases frames with
    | nil => exact ⟨rfl, rfl⟩
    | cons frame frames => exact absurd h (not_intact_cut_cons d frame frames)
  · cases frames with
    | nil => exact nomatch h.trailing
    | cons frame frames =>
      cases frame <;> cases ht <;> exact absurd h (not_intact_cut_close d _ frames)

/-- An array is closed at once, or entered. -/
theorem eq_cons_or_of_intact_openArray {tail : List Token} (htail : IsBreak tail)
    (h : (atValue frames (.mark .openArray :: (ss.map Symbol.token ++ tail))).Intact) :
    (∃ rest, ss = .mark .closeArray :: rest ∧
        (afterValue (.array [] (.ok ())) frames (rest.map Symbol.token ++ tail)).Intact) ∨
      (atValue (.array [] :: frames) (ss.map Symbol.token ++ tail)).Intact := by
  cases ss with
  | nil =>
    rcases htail with rfl | ⟨t, rfl, ht⟩
    · exact .inr h
    · cases ht <;> exact .inr h
  | cons s ss =>
    cases s with
    | mark m =>
      cases m with
      | closeArray => exact .inl ⟨ss, rfl, h⟩
      | _ => exact .inr h
    | _ => exact .inr h

/-- An object is closed at once, or entered. -/
theorem eq_cons_or_of_intact_openObject {tail : List Token} (htail : IsBreak tail)
    (h : (atValue frames (.mark .openObject :: (ss.map Symbol.token ++ tail))).Intact) :
    (∃ rest, ss = .mark .closeObject :: rest ∧
        (afterValue (.object [] (.ok ())) frames (rest.map Symbol.token ++ tail)).Intact) ∨
      (atKey [] frames (ss.map Symbol.token ++ tail)).Intact := by
  cases ss with
  | nil =>
    rcases htail with rfl | ⟨t, rfl, ht⟩
    · exact .inr h
    · cases ht <;> exact .inr h
  | cons s ss =>
    cases s with
    | mark m =>
      cases m with
      | closeObject => exact .inl ⟨ss, rfl, h⟩
      | _ => exact .inr h
    | _ => exact .inr h

/-- Where a key is due, an intact text goes on with a key, a colon and what follows them. -/
theorem exists_key_of_intact_atKey {members : List (Lexeme String × Doc)} {tail : List Token}
    (htail : IsBreak tail) (h : (atKey members frames (ss.map Symbol.token ++ tail)).Intact) :
    ∃ (key : List UInt16) (rest : List Symbol), ss = .string key :: .mark .colon :: rest ∧
      (atValue (.object members (Quoted.lexeme key) :: frames)
        (rest.map Symbol.token ++ tail)).Intact := by
  cases ss with
  | nil => exact absurd h (not_intact_atKey_break htail)
  | cons s ss =>
    cases s with
    | string key =>
      cases ss with
      | nil =>
        rcases htail with rfl | ⟨t, rfl, ht⟩
        · exact absurd h (not_intact_cut_missing .cutShort _)
        · cases ht <;> exact absurd h (not_intact_cut_missing .malformed _)
      | cons s ss =>
        cases s with
        | mark m =>
          cases m with
          | colon => exact ⟨key, ss, rfl, h⟩
          | _ => exact absurd h (not_intact_cut_missing .malformed _)
        | _ => exact absurd h (not_intact_cut_missing .malformed _)
    | _ => exact absurd h (not_intact_cut_missing .malformed _)

mutual

/-- Where a value is due, an intact text goes on with a value and completes the containers. -/
theorem exists_of_intact_atValue (frames : List Frame) {tail : List Token} (htail : IsBreak tail) :
    ∀ ss : List Symbol, (atValue frames (ss.map Symbol.token ++ tail)).Intact →
      tail = [] ∧ ∃ (v : Tree) (rest : List Symbol), ss = v.symbols ++ rest ∧ Closes frames rest
  | [], h => absurd h (not_intact_atValue_break htail)
  | .null :: ss, h => by
    obtain ⟨hnil, hcloses⟩ := closes_of_intact_afterValue htail _ frames ss h
    exact ⟨hnil, .null, ss, rfl, hcloses⟩
  | .bool b :: ss, h => by
    obtain ⟨hnil, hcloses⟩ := closes_of_intact_afterValue htail _ frames ss h
    exact ⟨hnil, .bool b, ss, rfl, hcloses⟩
  | .numeral n :: ss, h => by
    obtain ⟨hnil, hcloses⟩ := closes_of_intact_afterValue htail _ frames ss h
    exact ⟨hnil, .numeral n, ss, rfl, hcloses⟩
  | .string units :: ss, h => by
    obtain ⟨hnil, hcloses⟩ := closes_of_intact_afterValue htail _ frames ss h
    exact ⟨hnil, .string units, ss, rfl, hcloses⟩
  | .mark .openArray :: ss, h => by
    rcases eq_cons_or_of_intact_openArray htail h with ⟨ss', rfl, h⟩ | h
    · obtain ⟨hnil, hcloses⟩ := closes_of_intact_afterValue htail _ frames ss' h
      exact ⟨hnil, .array [], ss', rfl, hcloses⟩
    · obtain ⟨hnil, v, rest, rfl, vs, rest', rfl, hcloses⟩ :=
        exists_of_intact_atValue (.array [] :: frames) htail ss h
      refine ⟨hnil, .array (v :: vs), rest', ?_, hcloses⟩
      rw [Tree.symbols, List.cons_append, List.cons_append, List.append_assoc]
  | .mark .openObject :: ss, h => by
    rcases eq_cons_or_of_intact_openObject htail h with ⟨ss', rfl, h⟩ | h
    · obtain ⟨hnil, hcloses⟩ := closes_of_intact_afterValue htail _ frames ss' h
      exact ⟨hnil, .object [], ss', rfl, hcloses⟩
    · obtain ⟨hnil, key, v, ms, rest, rfl, hcloses⟩ := exists_of_intact_atKey [] frames htail ss h
      refine ⟨hnil, .object ((key, v) :: ms), rest, ?_, hcloses⟩
      rw [Tree.symbols]
      simp only [List.cons_append, List.append_assoc]
  | .mark .closeArray :: _, h => absurd h (not_intact_cut_missing .malformed frames)
  | .mark .closeObject :: _, h => absurd h (not_intact_cut_missing .malformed frames)
  | .mark .colon :: _, h => absurd h (not_intact_cut_missing .malformed frames)
  | .mark .comma :: _, h => absurd h (not_intact_cut_missing .malformed frames)
termination_by ss => ss.length

/-- Where a key is due, an intact text goes on with members and completes the containers. -/
theorem exists_of_intact_atKey (members : List (Lexeme String × Doc)) (frames : List Frame)
    {tail : List Token} (htail : IsBreak tail) (ss : List Symbol)
    (h : (atKey members frames (ss.map Symbol.token ++ tail)).Intact) :
    tail = [] ∧ ∃ (key : List UInt16) (v : Tree) (ms : List (List UInt16 × Tree))
      (rest : List Symbol), ss = .string key :: .mark .colon :: v.symbols ++
        (Tree.memberSymbols ms ++ rest) ∧ Closes frames rest := by
  obtain ⟨key, ss', rfl, h⟩ := exists_key_of_intact_atKey htail h
  obtain ⟨hnil, v, rest, rfl, ms, rest', rfl, hcloses⟩ :=
    exists_of_intact_atValue (.object members (Quoted.lexeme key) :: frames) htail ss' h
  exact ⟨hnil, key, v, ms, rest', rfl, hcloses⟩
termination_by ss.length

/-- Behind a value, an intact text completes the containers. -/
theorem closes_of_intact_afterValue {tail : List Token} (htail : IsBreak tail) (d : Doc) :
    ∀ (frames : List Frame) (ss : List Symbol),
      (afterValue d frames (ss.map Symbol.token ++ tail)).Intact → tail = [] ∧ Closes frames ss
  | _, [], h => closes_of_afterValue_break htail h
  | [], _ :: _, h => nomatch h.trailing
  | .array items :: frames, s :: ss, h => by
    have hwrong := not_intact_cut_close d (.array items) frames
    cases s with
    | mark m =>
      cases m with
      | comma =>
        obtain ⟨hnil, v, rest, rfl, vs, rest', rfl, hcloses⟩ :=
          exists_of_intact_atValue (.array (d :: items) :: frames) htail ss h
        refine ⟨hnil, v :: vs, rest', ?_, hcloses⟩
        rw [Tree.itemSymbols, List.cons_append, List.cons_append, List.append_assoc]
      | closeArray =>
        obtain ⟨hnil, hcloses⟩ := closes_of_intact_afterValue htail _ frames ss h
        exact ⟨hnil, [], ss, rfl, hcloses⟩
      | _ => exact absurd h hwrong
    | _ => exact absurd h hwrong
  | .object members key :: frames, s :: ss, h => by
    have hwrong := not_intact_cut_close d (.object members key) frames
    cases s with
    | mark m =>
      cases m with
      | comma =>
        obtain ⟨hnil, key', v, ms, rest, rfl, hcloses⟩ :=
          exists_of_intact_atKey ((key, d) :: members) frames htail ss h
        refine ⟨hnil, (key', v) :: ms, rest, ?_, hcloses⟩
        rw [Tree.memberSymbols]
        simp only [List.cons_append, List.append_assoc]
      | closeObject =>
        obtain ⟨hnil, hcloses⟩ := closes_of_intact_afterValue htail _ frames ss h
        exact ⟨hnil, [], ss, rfl, hcloses⟩
      | _ => exact absurd h hwrong
    | _ => exact absurd h hwrong
termination_by _ ss => ss.length

end

/-- An intact document is that of a text of a value. -/
theorem exists_spells_of_intact {s : String} (h : (ofText s).Intact) : ∃ v : Tree, v.Spells s := by
  obtain ⟨ss, tail, htokens, htail, hspaced⟩ := isCut_tokens s.toList
  rw [ofText, ofTokens, htokens] at h
  obtain ⟨hnil, v, rest, rfl, hrest⟩ := exists_of_intact_atValue [] htail ss h
  obtain rfl : rest = [] := hrest
  rw [List.append_nil] at hspaced
  exact ⟨v, hspaced hnil⟩

end Document

/-! ### Thorough decoders -/

namespace Doc

mutual

/-- What can be passed over is intact. -/
theorem intact_of_pass : ∀ d : Doc, d.pass = .ok () → d.Intact
  | .missing _, h => nomatch h
  | .plain _, h => .plain (.inr h)
  | .string _, h => .string (.inr h)
  | .array items ending, h => by
    obtain ⟨⟨⟩, hitems, rfl⟩ := exists_of_bind_eq_ok h
    exact .array (intact_of_passItems items hitems)
  | .object members ending, h => by
    obtain ⟨⟨⟩, hmembers, rfl⟩ := exists_of_bind_eq_ok h
    have hintact := intact_of_passMembers members hmembers
    exact .object (fun m hm ↦ (hintact m hm).1) fun m hm ↦ (hintact m hm).2

theorem intact_of_passItems : ∀ ds : List Doc, passItems ds = .ok () → ∀ d ∈ ds, d.Intact
  | [], _ => nofun
  | d :: ds, h => by
    obtain ⟨⟨⟩, hd, hds⟩ := exists_of_bind_eq_ok h
    exact List.forall_mem_cons.mpr ⟨intact_of_pass d hd, intact_of_passItems ds hds⟩

theorem intact_of_passMembers : ∀ ms : List (Lexeme String × Doc), passMembers ms = .ok () →
    ∀ m ∈ ms, m.1.Intact ∧ m.2.Intact
  | [], _ => nofun
  | (key, d) :: ms, h => by
    obtain ⟨⟨⟩, hkey, h⟩ := exists_of_bind_eq_ok h
    obtain ⟨⟨⟩, hd, hms⟩ := exists_of_bind_eq_ok h
    exact List.forall_mem_cons.mpr ⟨⟨.inr hkey, intact_of_pass d hd⟩, intact_of_passMembers ms hms⟩

end

end Doc

namespace Decoder

variable {α β σ τ : Type} {read : Decoder α}

/-- Whatever document is read is intact. -/
def Thorough (read : Decoder α) : Prop := ∀ room d a, read room d = .ok a → d.Intact

namespace Thorough

theorem string : Thorough string := by
  intro room d s h
  cases d with
  | string l => exact .string (.inl ⟨s, h⟩)
  | _ => exact nomatch h

theorem plain : Thorough plain := by
  intro room d a h
  cases d with
  | plain l => exact .plain (.inl ⟨a, h⟩)
  | _ => exact nomatch h

theorem map (f : α → β) (h : Thorough read) : Thorough (read.map f) := by
  intro room d b hb
  obtain ⟨a, ha, -⟩ := exists_of_map_eq_ok hb
  exact h room d a ha

theorem filterMap (f : α → Option β) (h : Thorough read) : Thorough (read.filterMap f) := by
  intro room d b hb
  obtain ⟨a, ha, -⟩ := exists_of_bind_eq_ok hb
  exact h room d a ha

theorem bool : Thorough bool := .filterMap _ .plain

theorem int64 : Thorough int64 := .filterMap _ (.filterMap _ .plain)

theorem instant : Thorough instant := .filterMap _ .string

theorem optional (h : Thorough read) : Thorough (Decoder.optional read) := by
  intro room d o ho
  cases d with
  | plain l =>
    rw [Decoder.optional] at ho
    split at ho
    · rename_i hnull
      exact .plain (.inl ⟨.null, hnull⟩)
    · exact h.map some room _ o ho
  | missing why => exact h.map some room _ o ho
  | string l => exact h.map some room _ o ho
  | array items ending => exact h.map some room _ o ho
  | object members ending => exact h.map some room _ o ho

/-- Items that are read one after the other are intact. -/
theorem mapM (h : Thorough read) {room : Nat} {ds : List Doc} {as : List α}
    (hread : ds.mapM (read room) = .ok as) : ∀ d ∈ ds, d.Intact := by
  induction ds generalizing as with
  | nil => exact nofun
  | cons d ds ih =>
    rw [List.mapM_cons] at hread
    obtain ⟨a, ha, hread⟩ := exists_of_bind_eq_ok hread
    obtain ⟨as', has, -⟩ := exists_of_bind_eq_ok hread
    exact List.forall_mem_cons.mpr ⟨h room d a ha, ih has⟩

theorem list (h : Thorough read) : Thorough (Decoder.list read) := by
  intro room d as has
  cases room with
  | zero => cases d <;> exact nomatch has
  | succ room =>
    cases d with
    | array items ending =>
      obtain ⟨values, hvalues, has⟩ := exists_of_bind_eq_ok has
      obtain ⟨⟨⟩, rfl, -⟩ := exists_of_bind_eq_ok has
      exact .array (h.mapM hvalues)
    | _ => exact nomatch has

variable {fields : List (Field σ)}

/-- Members that are read into a record are intact. -/
theorem members (hfields : ∀ field ∈ fields, field.change.Thorough) {room : Nat}
    {entries : List (Lexeme String × Doc)} {seen seen' : List String} {s s' : σ}
    (h : members fields room entries seen s = .ok (seen', s')) :
    ∀ m ∈ entries, m.1.Intact ∧ m.2.Intact := by
  induction entries generalizing seen s with
  | nil => exact nofun
  | cons entry rest ih =>
    obtain ⟨key, d⟩ := entry
    obtain ⟨name, hkey, h⟩ := exists_of_bind_eq_ok h
    rw [List.forall_mem_cons]
    cases hfind : fields.find? (·.key == name) with
    | none =>
      simp only [hfind] at h
      obtain ⟨⟨⟩, hd, h⟩ := exists_of_bind_eq_ok h
      exact ⟨⟨.inl ⟨name, hkey⟩, Doc.intact_of_pass d hd⟩, ih h⟩
    | some field =>
      simp only [hfind] at h
      split at h
      · exact nomatch h
      · obtain ⟨change, hd, h⟩ := exists_of_bind_eq_ok h
        exact ⟨⟨.inl ⟨name, hkey⟩, hfields field (List.mem_of_find?_eq_some hfind) room d change hd⟩,
          ih h⟩

/-- Items that are read into a record are intact, and their array ends well. -/
theorem positions (hfields : ∀ field ∈ fields, field.change.Thorough) {room : Nat}
    {ending : Ending} {ds : List Doc} {s s' : σ}
    (h : positions room ending fields ds s = .ok s') :
    (∀ d ∈ ds, d.Intact) ∧ ending = .ok () := by
  induction fields generalizing ds s with
  | nil =>
    cases ds with
    | nil =>
      obtain ⟨⟨⟩, hending, -⟩ := exists_of_bind_eq_ok h
      exact ⟨nofun, hending⟩
    | cons d ds => exact nomatch h
  | cons field fields ih =>
    obtain ⟨hfield, hfields⟩ := List.forall_mem_cons.mp hfields
    cases ds with
    | nil =>
      obtain ⟨⟨⟩, hending, -⟩ := exists_of_bind_eq_ok h
      exact ⟨nofun, hending⟩
    | cons d ds =>
      obtain ⟨change, hd, h⟩ := exists_of_bind_eq_ok h
      obtain ⟨hds, hending⟩ := ih hfields h
      exact ⟨List.forall_mem_cons.mpr ⟨hfield room d change hd, hds⟩, hending⟩

/-- A record is read throughout if its fields are. -/
theorem record (hfields : ∀ field ∈ fields, field.change.Thorough) (initial : σ) :
    Thorough (Decoder.record fields initial) := by
  intro room d s h
  cases room with
  | zero => cases d <;> exact nomatch h
  | succ room =>
    cases d with
    | array items ending =>
      obtain ⟨hitems, rfl⟩ := positions hfields h
      exact .array hitems
    | object entries ending =>
      obtain ⟨⟨seen, s'⟩, hmembers, h⟩ := exists_of_bind_eq_ok h
      obtain ⟨⟨⟩, rfl, -⟩ := exists_of_bind_eq_ok h
      have hintact := members hfields hmembers
      exact .object (fun m hm ↦ (hintact m hm).1) fun m hm ↦ (hintact m hm).2
    | _ => exact nomatch h

end Thorough

end Decoder

/-- Whatever a thorough decoder reads is a text of a value. -/
theorem exists_spells_of_decodeText {α : Type} {read : Decoder α} (hthorough : read.Thorough)
    {s : String} {a : α} (h : decodeText read s = .ok a) : ∃ v : Tree, v.Spells s := by
  obtain ⟨a', hread, h⟩ := exists_of_bind_eq_ok h
  refine Document.exists_spells_of_intact ⟨hthorough depthLimit _ a' hread, ?_⟩
  split at h
  · exact nomatch h
  · exact Bool.eq_false_iff.mpr ‹_›

end Listing.Json
