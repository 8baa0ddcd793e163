import Listing.Proofs.Json.Acceptance
import Listing.Proofs.Text.Pieces
import Listing.Proofs.Text.Uppercase
import Listing.Request.Query
import Mathlib.Data.List.Forall2

/-!
# What the parameters of a request spell

A parameter is a text in one of a few spellings. `SpellsFilter`, `SpellsList` and `SpellsDirection`
say which filter, which items and which direction a text spells, without saying how it is read. Each
reader gives what its text spells, and fails for the one reason that is left
(`readFilter_eq_ok_iff`, `readFilter_eq_error_iff` and the same for lists and directions).

`ListParams.Describes` puts the parameters together: it says which request they describe, whether or
not its fields are declared and its page is allowed.
-/

set_option autoImplicit false
set_option relaxedAutoImplicit false

namespace Listing

open Json (Fault decodeText)

/-! ### Steps that may fail -/

section Steps

variable {ε ε' α β : Type} {x : Except ε α}

theorem mapError_eq_ok_iff {f : ε → ε'} {a : α} : x.mapError f = .ok a ↔ x = .ok a := by
  cases x <;> simp [Except.mapError]

theorem mapError_eq_error_iff {f : ε → ε'} {e' : ε'} :
    x.mapError f = .error e' ↔ ∃ e, x = .error e ∧ f e = e' := by
  cases x <;> simp [Except.mapError]

theorem map_eq_ok_iff {f : α → β} {b : β} : x.map f = .ok b ↔ ∃ a, x = .ok a ∧ f a = b := by
  cases x <;> simp [Except.map]

theorem map_eq_error_iff {f : α → β} {e : ε} : x.map f = .error e ↔ x = .error e := by
  cases x <;> simp [Except.map]

variable {f : α → Except ε β}

/-- Steps that are taken one after the other succeed if each of them does. -/
theorem mapM_eq_ok_iff {as : List α} {bs : List β} :
    as.mapM f = .ok bs ↔ List.Forall₂ (fun a b ↦ f a = .ok b) as bs := by
  constructor
  · intro h
    induction as generalizing bs with
    | nil => exact Except.ok.inj h ▸ .nil
    | cons a as ih =>
      rw [List.mapM_cons] at h
      obtain ⟨b, hb, h⟩ := exists_of_bind_eq_ok h
      obtain ⟨bs', hbs, h⟩ := exists_of_bind_eq_ok h
      exact Except.ok.inj h ▸ .cons hb (ih hbs)
  · intro h
    induction h with
    | nil => rfl
    | cons hb _ ih => rw [List.mapM_cons, hb, ih]; rfl

/-- The first step that fails decides how the row of steps fails. -/
theorem mapM_eq_error_iff {as : List α} {e : ε} :
    as.mapM f = .error e ↔ ∃ before a after, as = before ++ a :: after ∧
      (∀ b ∈ before, ∃ c, f b = .ok c) ∧ f a = .error e := by
  constructor
  · intro h
    induction as with
    | nil => exact nomatch h
    | cons a as ih =>
      rw [List.mapM_cons] at h
      cases ha : f a with
      | error e' =>
        rw [ha] at h
        have he : e' = e := Except.error.inj h
        exact ⟨[], a, as, rfl, nofun, he ▸ ha⟩
      | ok b =>
        rw [ha] at h
        cases has : as.mapM f with
        | ok bs => rw [has] at h; exact nomatch h
        | error e' =>
          rw [has] at h
          have he : e' = e := Except.error.inj h
          obtain ⟨before, a', after, rfl, hbefore, ha'⟩ := ih (he ▸ has)
          exact ⟨a :: before, a', after, rfl, List.forall_mem_cons.mpr ⟨⟨b, ha⟩, hbefore⟩, ha'⟩
  · rintro ⟨before, a, after, rfl, hbefore, ha⟩
    induction before with
    | nil => rw [List.nil_append, List.mapM_cons, ha]; rfl
    | cons b before ih =>
      obtain ⟨⟨c, hc⟩, hbefore⟩ := List.forall_mem_cons.mp hbefore
      rw [List.cons_append, List.mapM_cons, hc, ih hbefore]
      rfl

end Steps

/-! ### Filters -/

variable {shape : Shape}

/-- The filter that a parameter spells: none if it is absent or blank. -/
inductive SpellsFilter : Option String → Option (Filter shape) → Prop
  | absent : SpellsFilter none none
  | blank {s : String} (hblank : Text.trim s = "") : SpellsFilter (some s) none
  | json {s : String} {f : Filter shape} (hblank : Text.trim s ≠ "")
      (hfilter : decodeText Filter.decoder (Text.trim s) = .ok f) : SpellsFilter (some s) (some f)

theorem readFilter_some (s : String) : readFilter shape (some s) =
    if Text.trim s = "" then .ok none
    else ((decodeText Filter.decoder (Text.trim s)).map some).mapError .invalidFilter := by
  unfold readFilter
  split
  · rename_i h
    exact nomatch h
  · rename_i h
    rw [if_pos (Option.some.inj h)]
  · rename_i text hblank h
    obtain rfl := Option.some.inj h
    rw [if_neg hblank]
    cases decodeText Filter.decoder (Text.trim s) <;> rfl

/-- A filter is read if the parameter spells it. -/
theorem readFilter_eq_ok_iff {raw : Option String} {o : Option (Filter shape)} :
    readFilter shape raw = .ok o ↔ SpellsFilter raw o := by
  cases raw with
  | none => exact ⟨fun h ↦ Except.ok.inj h ▸ .absent, fun | .absent => rfl⟩
  | some s =>
    rw [readFilter_some]
    by_cases hblank : Text.trim s = ""
    · rw [if_pos hblank]
      refine ⟨fun h ↦ Except.ok.inj h ▸ .blank hblank, fun h ↦ ?_⟩
      cases h with
      | blank _ => rfl
      | json hne _ => exact absurd hblank hne
    · rw [if_neg hblank, mapError_eq_ok_iff, map_eq_ok_iff]
      constructor
      · rintro ⟨f, hf, rfl⟩
        exact .json hblank hf
      · intro h
        cases h with
        | blank h => exact absurd h hblank
        | json _ hf => exact ⟨_, hf, rfl⟩

/-- A filter is refused if the parameter is not blank and no filter. -/
theorem readFilter_eq_error_iff {raw : Option String} {e : RequestError} :
    readFilter shape raw = .error e ↔ ∃ s fault, raw = some s ∧ Text.trim s ≠ "" ∧
      decodeText (@Filter.decoder shape) (Text.trim s) = .error fault ∧
        RequestError.invalidFilter fault = e := by
  cases raw with
  | none => exact ⟨nofun, fun ⟨s, _, h, _⟩ ↦ nomatch h⟩
  | some s =>
    rw [readFilter_some]
    by_cases hblank : Text.trim s = ""
    · rw [if_pos hblank]
      exact ⟨nofun, fun ⟨s', _, hs, hne, _⟩ ↦ absurd (Option.some.inj hs ▸ hblank) hne⟩
    · rw [if_neg hblank, mapError_eq_error_iff]
      simp only [map_eq_error_iff]
      constructor
      · rintro ⟨fault, hfault, rfl⟩
        exact ⟨s, fault, rfl, hblank, hfault, rfl⟩
      · rintro ⟨s', fault, hs, -, hfault, rfl⟩
        obtain rfl := Option.some.inj hs
        exact ⟨fault, hfault, rfl⟩

/-! ### Lists -/

/-- The items that a parameter spells: none if it is absent or blank, those of a JSON array if it
begins with a bracket, and else the trimmed pieces between its commas. -/
inductive SpellsList : Option String → List String → Prop
  | absent : SpellsList none []
  | blank {s : String} (hblank : Text.trim s = "") : SpellsList (some s) []
  | json {s : String} {items : List String} (hopen : (Text.trim s).toList.head? = some '[')
      (hitems : decodeText (.list .string) (Text.trim s) = .ok items) : SpellsList (some s) items
  | commas {s : String} {pieces : List (List Char)} (hblank : Text.trim s ≠ "")
      (hopen : (Text.trim s).toList.head? ≠ some '[') (hpieces : pieces ≠ [])
      (hcomma : ∀ piece ∈ pieces, ',' ∉ piece)
      (hjoin : [','].intercalate pieces = (Text.trim s).toList) :
      SpellsList (some s) (pieces.map fun piece ↦ String.ofList (Text.trimChars piece))

theorem readList_some (parameter : ListParameter) (s : String) : readList parameter (some s) =
    if Text.trim s = "" then .ok []
    else if (Text.trim s).toList.head? = some '[' then
      (decodeText (.list .string) (Text.trim s)).mapError (.invalidSort parameter)
    else .ok ((Text.splitOn ',' (Text.trim s).toList).map fun piece ↦
      String.ofList (Text.trimChars piece)) := by
  rw [Text.trim, String.toList_ofList, readList, Option.map_some]
  cases Text.trimChars s.toList with
  | nil => rfl
  | cons c cs =>
    have hne : String.ofList (c :: cs) ≠ "" := by
      rw [Ne, String.ofList_eq_empty_iff]
      exact List.cons_ne_nil c cs
    rw [if_neg hne, List.head?_cons]
    split
    · rename_i h
      exact nomatch h
    · rename_i h
      exact nomatch h
    · rename_i tail h
      obtain ⟨rfl, rfl⟩ := List.cons.inj (Option.some.inj h)
      rw [if_pos rfl]
      cases decodeText (.list .string) (String.ofList ('[' :: cs)) <;> rfl
    · rename_i text _ hother h
      obtain rfl := Option.some.inj h
      have hopen : some c ≠ some '[' := fun h ↦ hother cs (Option.some.inj h ▸ rfl)
      rw [if_neg hopen]

/-- The items are read that the parameter spells. -/
theorem readList_eq_ok_iff {parameter : ListParameter} {raw : Option String}
    {items : List String} : readList parameter raw = .ok items ↔ SpellsList raw items := by
  cases raw with
  | none => exact ⟨fun h ↦ Except.ok.inj h ▸ .absent, fun | .absent => rfl⟩
  | some s =>
    rw [readList_some]
    by_cases hblank : Text.trim s = ""
    · rw [if_pos hblank]
      have hopen : (Text.trim s).toList.head? ≠ some '[' := by rw [hblank]; exact nofun
      refine ⟨fun h ↦ Except.ok.inj h ▸ .blank hblank, fun h ↦ ?_⟩
      cases h with
      | blank _ => rfl
      | json h _ => exact absurd h hopen
      | commas hne _ _ _ _ => exact absurd hblank hne
    rw [if_neg hblank]
    by_cases hopen : (Text.trim s).toList.head? = some '['
    · rw [if_pos hopen, mapError_eq_ok_iff]
      refine ⟨.json hopen, fun h ↦ ?_⟩
      cases h with
      | blank h => exact absurd h hblank
      | json _ h => exact h
      | commas _ h _ _ _ => exact absurd hopen h
    · rw [if_neg hopen]
      constructor
      · intro h
        obtain ⟨hpieces, hcomma, hjoin⟩ := Text.splitOn_eq_iff.mp (rfl : Text.splitOn ',' _ = _)
        exact Except.ok.inj h ▸ .commas hblank hopen hpieces hcomma hjoin
      · intro h
        cases h with
        | blank h => exact absurd h hblank
        | json h _ => exact absurd h hopen
        | commas _ _ hpieces hcomma hjoin =>
          rw [Text.splitOn_eq_iff.mpr ⟨hpieces, hcomma, hjoin⟩]

/-- A list is refused if it begins as a JSON array and is no array of strings. -/
theorem readList_eq_error_iff {parameter : ListParameter} {raw : Option String}
    {e : RequestError} :
    readList parameter raw = .error e ↔ ∃ s fault, raw = some s ∧
      (Text.trim s).toList.head? = some '[' ∧
        decodeText (.list .string) (Text.trim s) = .error fault ∧
          RequestError.invalidSort parameter fault = e := by
  cases raw with
  | none => exact ⟨nofun, fun ⟨s, _, h, _⟩ ↦ nomatch h⟩
  | some s =>
    rw [readList_some]
    by_cases hopen : (Text.trim s).toList.head? = some '['
    · have hblank : Text.trim s ≠ "" := by
        intro h
        rw [h] at hopen
        exact nomatch hopen
      rw [if_neg hblank, if_pos hopen, mapError_eq_error_iff]
      constructor
      · rintro ⟨fault, hfault, rfl⟩
        exact ⟨s, fault, rfl, hopen, hfault, rfl⟩
      · rintro ⟨s', fault, hs, -, hfault, rfl⟩
        obtain rfl := Option.some.inj hs
        exact ⟨fault, hfault, rfl⟩
    · rw [if_neg hopen]
      refine ⟨fun h ↦ ?_, fun ⟨s', _, hs, h, _⟩ ↦ absurd (Option.some.inj hs ▸ h) hopen⟩
      split at h <;> exact nomatch h

/-! ### Directions -/

/-- Lists are related item by item if they are by a relation with the same answers on the items of
the second list. -/
theorem forall₂_congr_of_mem {α β : Type} {P Q : α → β → Prop} {as : List α} {bs : List β}
    (h : ∀ b ∈ bs, ∀ a, P a b ↔ Q a b) : List.Forall₂ P as bs ↔ List.Forall₂ Q as bs := by
  induction bs generalizing as with
  | nil => simp only [List.forall₂_nil_right_iff]
  | cons b bs ih =>
    obtain ⟨hb, hbs⟩ := List.forall_mem_cons.mp h
    simp only [List.forall₂_cons_right_iff, hb, ih hbs]

/-- The direction that an item spells: with the blanks around it removed it is the name of the
direction, with any of the letters small. -/
def SpellsDirection (item : String) (d : Direction) : Prop :=
  List.Forall₂ (fun c letter ↦ c = letter ∨ c = letter.toLower) (Text.trimChars item.toList)
    d.text.toList

theorem Direction.ofText?_eq_some_iff {s : String} {d : Direction} :
    ofText? s = some d ↔ s = d.text := by
  unfold ofText?
  constructor
  · intro h
    split at h
    · rename_i hs
      exact Option.some.inj h ▸ hs
    · split at h
      · rename_i hs
        exact Option.some.inj h ▸ hs
      · exact nomatch h
  · rintro rfl
    cases d <;> rfl

/-- The names of the directions are written in capital letters of ASCII. -/
theorem Direction.capital_of_mem_text (d : Direction) :
    ∀ letter ∈ d.text.toList, 0x41 ≤ letter.toNat ∧ letter.toNat ≤ 0x5A := by
  have hall : (d.text.toList.all fun letter ↦
      decide (0x41 ≤ letter.toNat ∧ letter.toNat ≤ 0x5A)) = true := by
    cases d <;> rfl
  exact fun letter hletter ↦ of_decide_eq_true (List.all_eq_true.mp hall letter hletter)

/-- A direction is read if the item spells it. -/
theorem Direction.parse?_eq_some_iff {item : String} {d : Direction} :
    parse? item = some d ↔ SpellsDirection item d := by
  rw [parse?, ofText?_eq_some_iff, ← String.toList_inj, String.toList_ofList,
    ← List.forall₂_eq_eq_eq, List.forall₂_map_left_iff]
  refine forall₂_congr_of_mem fun letter hletter c ↦ ?_
  exact Text.toUpper_eq_iff (d.capital_of_mem_text letter hletter)

theorem readDirection_eq_ok_iff {item : String} {d : Direction} :
    readDirection item = .ok d ↔ SpellsDirection item d := by
  rw [← Direction.parse?_eq_some_iff, readDirection]
  cases Direction.parse? item <;> simp

/-- An item that spells no direction is named as it stands between its blanks. -/
theorem readDirection_eq_error_iff {item : String} {e : RequestError} :
    readDirection item = .error e ↔
      (∀ d, ¬SpellsDirection item d) ∧ RequestError.invalidDirection (Text.trim item) = e := by
  simp only [← Direction.parse?_eq_some_iff, readDirection]
  cases Direction.parse? item <;> simp

/-! ### Fields to sort by -/

theorem SortSpec.unsortable_iff {allowed : List String} {field : String} :
    (field.isEmpty || !allowed.contains field) = true ↔ ¬(field ≠ "" ∧ field ∈ allowed) := by
  rw [not_and_or, not_not, Bool.or_eq_true, String.isEmpty_iff, Bool.not_eq_true',
    List.contains_eq_mem, decide_eq_false_iff_not]

/-- The first field is named that may not be sorted by. -/
theorem SortSpec.unknownField?_eq_some_iff {s : SortSpec} {allowed : List String}
    {field : String} :
    s.unknownField? allowed = some field ↔ ∃ before after, s.fields = before ++ field :: after ∧
      (∀ f ∈ before, f ≠ "" ∧ f ∈ allowed) ∧ ¬(field ≠ "" ∧ field ∈ allowed) := by
  rw [unknownField?, List.find?_eq_some_iff_append, unsortable_iff]
  simp only [Bool.not_eq_true', Bool.eq_false_iff, ne_eq, unsortable_iff, not_not]
  constructor
  · rintro ⟨hfield, before, after, hfields, hbefore⟩
    exact ⟨before, after, hfields, hbefore, hfield⟩
  · rintro ⟨before, after, hfields, hbefore, hfield⟩
    exact ⟨hfield, before, after, hfields, hbefore⟩

/-- No field is refused if all of them may be sorted by. -/
theorem SortSpec.unknownField?_eq_none_iff {s : SortSpec} {allowed : List String} :
    s.unknownField? allowed = none ↔ ∀ f ∈ s.fields, f ≠ "" ∧ f ∈ allowed := by
  simp only [unknownField?, List.find?_eq_none, unsortable_iff, not_not]

/-! ### Pages -/

/-- The page that parameters describe: none without a number and a size, else the first one if no
number is given, and the size cut down to the largest one. -/
def ListParams.describedPage (params : ListParams) (defaults : PageDefaults) :
    Option PageRequest :=
  if params.page = none ∧ params.size = none then none
  else some ⟨params.page.getD 0, min (params.size.getD defaults.size) defaults.maxSize⟩

theorem readPage_eq (params : ListParams) (defaults : PageDefaults) :
    readPage params defaults =
      if params.size = some 0 then .error .zeroPageSize
      else .ok (params.describedPage defaults) := by
  rw [readPage, ListParams.describedPage]
  cases params.page with
  | some page =>
    have hgiven : ¬(some page = none ∧ params.size = none) := fun h ↦ nomatch h.1
    rw [if_neg hgiven]
  | none =>
    cases params.size with
    | none => rfl
    | some size =>
      have hgiven : ¬((none : Option Count) = none ∧ some size = none) := fun h ↦ nomatch h.2
      rw [if_neg hgiven]

/-! ### Requests -/

/-- The parameters describe the request: each part of it is what its parameters spell. -/
structure ListParams.Describes (params : ListParams) (defaults : PageDefaults)
    (q : ListQuery shape) : Prop where
  filter : SpellsFilter params.filter q.filter
  fields : SpellsList params.sort q.sort.fields
  directions : ∃ items, SpellsList params.order items ∧
    List.Forall₂ SpellsDirection items q.sort.directions
  page : q.page = params.describedPage defaults

/-- A request is read if the parameters describe it, all its fields are declared and the page size
is not zero. -/
theorem ListQuery.ofParams_eq_ok_iff {params : ListParams} {defaults : PageDefaults}
    {q : ListQuery shape} :
    ofParams shape params defaults = .ok q ↔ params.Describes defaults q ∧
      (∀ field ∈ q.sort.fields, field ≠ "" ∧ field ∈ shape.names) ∧ params.size ≠ some 0 := by
  constructor
  · intro h
    obtain ⟨filter, hfilter, h⟩ := exists_of_bind_eq_ok h
    obtain ⟨fields, hfields, h⟩ := exists_of_bind_eq_ok h
    split at h
    · exact nomatch h
    · rename_i hdeclared
      obtain ⟨items, hitems, h⟩ := exists_of_bind_eq_ok h
      obtain ⟨directions, hdirections, h⟩ := exists_of_bind_eq_ok h
      obtain ⟨page, hpage, h⟩ := exists_of_bind_eq_ok h
      obtain rfl := Except.ok.inj h
      rw [readPage_eq] at hpage
      split at hpage
      · exact nomatch hpage
      · rename_i hsize
        refine ⟨⟨readFilter_eq_ok_iff.mp hfilter, readList_eq_ok_iff.mp hfields, ⟨items, ?_, ?_⟩,
          (Except.ok.inj hpage).symm⟩, SortSpec.unknownField?_eq_none_iff.mp hdeclared, hsize⟩
        · exact readList_eq_ok_iff.mp hitems
        · exact (mapM_eq_ok_iff.mp hdirections).imp fun _ _ ↦ readDirection_eq_ok_iff.mp
  · rintro ⟨⟨hfilter, hfields, ⟨items, hitems, hdirections⟩, hpage⟩, hdeclared, hsize⟩
    have hnone : (SortSpec.mk q.sort.fields []).unknownField? shape.names = none :=
      SortSpec.unknownField?_eq_none_iff.mpr hdeclared
    have hread : items.mapM readDirection = .ok q.sort.directions :=
      mapM_eq_ok_iff.mpr (hdirections.imp fun _ _ ↦ readDirection_eq_ok_iff.mpr)
    rw [ofParams, readFilter_eq_ok_iff.mpr hfilter, readList_eq_ok_iff.mpr hfields]
    simp only [bind, Except.bind, hnone, readList_eq_ok_iff.mpr hitems, hread, readPage_eq,
      if_neg hsize, ← hpage]
    rfl

end Listing
