import Listing.Proofs.Filter.Meaning
import Listing.Proofs.Json.Margins
import Listing.Proofs.Request.Reading

/-!
# The two spellings of a list

The fields to sort by and their directions are written as JSON arrays of strings or with commas
between them. `SpellsWords` says that a parameter is one of the two spellings of some words, with
any blanks around the words and around the whole; `readList_of_spellsWords` that the words are read
from it, if they are identifiers. So a request does not depend on the spellings of its lists
(`ListQuery.ofParams_eq_of_spellsWords`).
-/

set_option autoImplicit false
set_option relaxedAutoImplicit false

namespace Listing

open Json (Decoder Doc Lexeme Spaced Symbol Tree decodeText decodeText_of_spells depthLimit)
open Json.Quoted (utf16)
open Text (isBlank Blanks Padded)

/-! ### Words -/

/-- The name is not empty and can stand between commas: it has no comma, no blank and no opening
bracket. -/
structure IsIdentifier (name : String) : Prop where
  ne_empty : name ≠ ""
  no_comma : ',' ∉ name.toList
  no_bracket : '[' ∉ name.toList
  no_blank : ∀ c ∈ name.toList, isBlank c = false

/-- The word is the name of the direction, with any of the letters small. -/
def NamesDirection (word : String) (d : Direction) : Prop :=
  List.Forall₂ (fun c letter ↦ c = letter ∨ c = letter.toLower) word.toList d.text.toList

/-- The words as a JSON array of strings. -/
def wordsTree (words : List String) : Tree := .array (words.map fun word ↦ .string (utf16 word))

/-- The parameter spells the words: no words by its absence or by blanks alone, any words as a JSON
array of strings, and one or more words with commas between them. There may be blanks around the
whole, and around the words between the commas. -/
inductive SpellsWords (words : List String) : Option String → Prop
  | absent (hwords : words = []) : SpellsWords words none
  | blank {s : String} (hwords : words = []) (hs : Blanks s.toList) : SpellsWords words (some s)
  | json {text s : String} (htext : (wordsTree words).Spells text)
      (hs : Padded text.toList s.toList) : SpellsWords words (some s)
  | commas {pieces : List (List Char)} {s : String} (hwords : words ≠ [])
      (hpieces : List.Forall₂ (fun word piece ↦ Padded word.toList piece) words pieces)
      (hs : Padded ([','].intercalate pieces) s.toList) : SpellsWords words (some s)

variable {words : List String} {raw : Option String} {text : String}

/-! ### Reading words -/

/-- A JSON array of strings is read as its strings. -/
theorem decodeText_of_spells_words (htext : (wordsTree words).Spells text) :
    decodeText (.list .string) text = .ok words := by
  have hitems : ((words.map fun word ↦ Tree.string (utf16 word)).map Tree.doc).mapM
      (Decoder.string 126) = .ok words := by
    rw [List.map_map, mapM_eq_ok_iff, List.forall₂_map_left_iff]
    refine List.forall₂_same.mpr fun word _ ↦ ?_
    exact Json.Quoted.lexeme_utf16 word
  rw [decodeText_of_spells _ htext, wordsTree, Tree.doc, Tree.docs_eq_map]
  change (_ >>= fun values ↦ Except.ok values) = _
  rw [hitems]
  rfl

/-- A word with blanks around it holds no comma and no bracket, and is the word when it is
trimmed. -/
theorem IsIdentifier.padded {word : String} {cs : List Char} (hword : IsIdentifier word)
    (hcs : Padded word.toList cs) :
    ',' ∉ cs ∧ '[' ∉ cs ∧ String.ofList (Text.trimChars cs) = word := by
  refine ⟨fun hc ↦ ?_, fun hc ↦ ?_, ?_⟩
  · exact (hcs.mem hc).elim (fun hblank ↦ absurd hblank (by decide)) hword.no_comma
  · exact (hcs.mem hc).elim (fun hblank ↦ absurd hblank (by decide)) hword.no_bracket
  · rw [hcs.trimChars_eq, Text.trimChars_of_not_blank hword.no_blank, String.ofList_toList]

/-- Assumes: identifiers. With blanks around them they hold no comma and no bracket, and they are
what is left when the blanks are trimmed. -/
theorem identifiers_of_padded {pieces : List (List Char)}
    (hwords : ∀ word ∈ words, IsIdentifier word)
    (hpieces : List.Forall₂ (fun word piece ↦ Padded word.toList piece) words pieces) :
    (∀ piece ∈ pieces, ',' ∉ piece ∧ '[' ∉ piece) ∧
      (pieces.map fun piece ↦ String.ofList (Text.trimChars piece)) = words := by
  induction hpieces with
  | nil => exact ⟨nofun, rfl⟩
  | cons hpiece _ ih =>
    obtain ⟨hword, hwords⟩ := List.forall_mem_cons.mp hwords
    obtain ⟨hcomma, hbracket, htrim⟩ := hword.padded hpiece
    obtain ⟨hplain, hrest⟩ := ih hwords
    exact ⟨List.forall_mem_cons.mpr ⟨⟨hcomma, hbracket⟩, hplain⟩, congrArg₂ List.cons htrim hrest⟩

/-- Assumes: identifiers, at least one of them. They are read from the pieces between the commas. -/
theorem readList_of_commas (parameter : ListParameter) {pieces : List (List Char)}
    (hwords : ∀ word ∈ words, IsIdentifier word) (hne : words ≠ [])
    (hpieces : List.Forall₂ (fun word piece ↦ Padded word.toList piece) words pieces)
    {s : String} (hs : Padded ([','].intercalate pieces) s.toList) :
    readList parameter (some s) = .ok words := by
  obtain ⟨hplain, hmap⟩ := identifiers_of_padded hwords hpieces
  have hsplit : Text.splitOn ',' ([','].intercalate pieces) = pieces := by
    refine Text.splitOn_eq_iff.mpr ⟨?_, fun piece hpiece ↦ (hplain piece hpiece).1, rfl⟩
    rintro rfl
    exact hne hmap.symm
  -- Whether the whole is trimmed before it is cut or not, the trimmed pieces are the words.
  have hread : ((Text.splitOn ',' (Text.trimChars ([','].intercalate pieces))).map fun piece ↦
      String.ofList (Text.trimChars piece)) = words := by
    have hcomma : isBlank ',' = false := by decide
    have htrimmed := congrArg (List.map String.ofList)
      (Text.map_trimChars_splitOn_trimChars hcomma ([','].intercalate pieces))
    rw [hsplit, List.map_map, List.map_map] at htrimmed
    exact htrimmed.trans hmap
  have htrim : Text.trim s = String.ofList (Text.trimChars ([','].intercalate pieces)) := by
    rw [Text.trim, hs.trimChars_eq]
  have hblank : Text.trim s ≠ "" := by
    rw [htrim, Ne, String.ofList_eq_empty_iff]
    intro hnil
    rw [hnil] at hread
    obtain rfl : [""] = words := hread
    exact (hwords "" List.mem_cons_self).ne_empty rfl
  have hopen : (Text.trim s).toList.head? ≠ some '[' := by
    rw [htrim, String.toList_ofList]
    intro hhead
    have hnone : ∀ c ∈ [','].intercalate pieces, c ≠ '[' :=
      Text.forall_mem_intercalate (by decide) fun piece hpiece c hc heq ↦
        (hplain piece hpiece).2 (heq ▸ hc)
    exact hnone '[' (Text.mem_of_mem_trimChars (List.mem_of_mem_head? hhead)) rfl
  rw [readList_some, if_neg hblank, if_neg hopen, htrim, String.toList_ofList, hread]

/-- Assumes: identifiers. The words are read that the parameter spells. -/
theorem readList_of_spellsWords (parameter : ListParameter)
    (hwords : ∀ word ∈ words, IsIdentifier word) (h : SpellsWords words raw) :
    readList parameter raw = .ok words := by
  cases h with
  | absent hwords =>
    rw [hwords]
    rfl
  | @blank s hwords hs =>
    have htrim : Text.trim s = "" := by
      rw [Text.trim, Text.trimChars_of_blanks hs]
    rw [readList_some, if_pos htrim, hwords]
  | @json text s htext hs =>
    have htrim : Text.trim s = Text.trim text := by
      rw [Text.trim, hs.trimChars_eq, Text.trim]
    rw [readList_eq_ok_iff]
    refine .json ?_ ?_
    · rw [htrim]
      exact htext.head?_trim_array
    · rw [htrim]
      exact decodeText_of_spells_words htext.trim
  | commas hne hpieces hs => exact readList_of_commas parameter hwords hne hpieces hs

/-! ### Directions -/

theorem NamesDirection.of_text (d : Direction) : NamesDirection d.text d :=
  List.forall₂_same.mpr fun _ _ ↦ .inl rfl

/-- The name of a direction is an identifier. -/
theorem NamesDirection.isIdentifier {word : String} {d : Direction} (h : NamesDirection word d) :
    IsIdentifier word := by
  have hupper : word.toList.map Char.toUpper = d.text.toList := by
    rw [← List.forall₂_eq_eq_eq, List.forall₂_map_left_iff]
    refine (forall₂_congr_of_mem fun letter hletter c ↦ ?_).mpr h
    exact Text.toUpper_eq_iff (d.capital_of_mem_text letter hletter)
  have hcapital : ∀ c ∈ word.toList, 0x41 ≤ c.toUpper.toNat ∧ c.toUpper.toNat ≤ 0x5A :=
    fun c hc ↦ d.capital_of_mem_text _ (hupper ▸ List.mem_map_of_mem hc)
  refine ⟨?_, fun hc ↦ ?_, fun hc ↦ ?_, fun c hc ↦ ?_⟩
  · rintro rfl
    cases d <;> exact nomatch hupper
  · exact absurd (hcapital ',' hc) (by decide)
  · exact absurd (hcapital '[' hc) (by decide)
  · have hletter := hcapital c hc
    rw [Text.toNat_toUpper] at hletter
    rw [Bool.eq_false_iff]
    intro hblank
    simp only [isBlank, Bool.or_eq_true, Bool.and_eq_true, decide_eq_true_eq, beq_iff_eq] at hblank
    split at hletter <;> omega

/-- A direction is read from its name. -/
theorem NamesDirection.readDirection {word : String} {d : Direction} (h : NamesDirection word d) :
    readDirection word = .ok d := by
  rw [readDirection_eq_ok_iff, SpellsDirection, Text.trimChars_of_not_blank h.isIdentifier.no_blank]
  exact h

/-- The parameter spells words that name the directions. -/
def SpellsDirections (directions : List Direction) (raw : Option String) : Prop :=
  ∃ words, List.Forall₂ NamesDirection words directions ∧ SpellsWords words raw

/-- The directions are read that the parameter spells. -/
theorem exists_words_of_spellsDirections {directions : List Direction}
    (h : SpellsDirections directions raw) :
    ∃ words, readList .order raw = .ok words ∧ words.mapM readDirection = .ok directions := by
  obtain ⟨words, hnames, hwords⟩ := h
  have hidentifiers : ∀ word ∈ words, IsIdentifier word := by
    clear hwords
    induction hnames with
    | nil => exact nofun
    | cons hname _ ih => exact List.forall_mem_cons.mpr ⟨hname.isIdentifier, ih⟩
  exact ⟨words, readList_of_spellsWords .order hidentifiers hwords,
    mapM_eq_ok_iff.mpr (hnames.imp fun _ _ hname ↦ hname.readDirection)⟩

/-! ### Requests -/

namespace ListQuery

variable {shape : Shape}

/-- Assumes: declared fields, whose names are identifiers. What is left to be read of a request whose
lists spell the fields and directions is its filter and its page. -/
theorem ofParams_of_spellsWords (hnames : ∀ name ∈ shape.names, IsIdentifier name)
    {fields : List String} (hfields : ∀ field ∈ fields, field ∈ shape.names)
    {directions : List Direction} {params : ListParams} (hsort : SpellsWords fields params.sort)
    (horder : SpellsDirections directions params.order) (defaults : PageDefaults) :
    ofParams shape params defaults = do
      let filter ← readFilter shape params.filter
      let page ← readPage params defaults
      return ⟨filter, ⟨fields, directions⟩, page⟩ := by
  have hread : readList .sort params.sort = .ok fields :=
    readList_of_spellsWords .sort (fun field hfield ↦ hnames field (hfields field hfield)) hsort
  have hdeclared : (SortSpec.mk fields []).unknownField? shape.names = none :=
    SortSpec.unknownField?_eq_none_iff.mpr fun field hfield ↦
      ⟨(hnames field (hfields field hfield)).ne_empty, hfields field hfield⟩
  obtain ⟨words, hwords, hdirections⟩ := exists_words_of_spellsDirections horder
  rw [ofParams, hread, hwords]
  simp only [bind, Except.bind, hdeclared, hdirections]

/-- A request does not depend on the spellings of its lists.

Let the names of the fields of the shape be identifiers. Of two requests with the same other
parameters, let the lists of fields spell the same declared fields, and the lists of directions the
same directions, each list as a JSON array or with commas. Then both are read alike: as the same
request, which sorts by the fields in these directions, or with the same error. -/
theorem ofParams_eq_of_spellsWords (hnames : ∀ name ∈ shape.names, IsIdentifier name)
    {fields : List String} (hfields : ∀ field ∈ fields, field ∈ shape.names)
    {directions : List Direction} {sort sort' order order' : Option String}
    (hsort : SpellsWords fields sort) (hsort' : SpellsWords fields sort')
    (horder : SpellsDirections directions order) (horder' : SpellsDirections directions order')
    (params : ListParams) (defaults : PageDefaults) :
    ofParams shape { params with sort := sort, order := order } defaults =
        ofParams shape { params with sort := sort', order := order' } defaults ∧
      ∀ q, ofParams shape { params with sort := sort, order := order } defaults = .ok q →
        q.sort = ⟨fields, directions⟩ := by
  have hread {sort order : Option String} (hsort : SpellsWords fields sort)
      (horder : SpellsDirections directions order) :
      ofParams shape { params with sort := sort, order := order } defaults = do
        let filter ← readFilter shape params.filter
        let page ← readPage params defaults
        return ⟨filter, ⟨fields, directions⟩, page⟩ :=
    ofParams_of_spellsWords hnames hfields hsort horder defaults
  refine ⟨(hread hsort horder).trans (hread hsort' horder').symm, fun q hq ↦ ?_⟩
  rw [hread hsort horder] at hq
  obtain ⟨filter, -, hq⟩ := exists_of_bind_eq_ok hq
  obtain ⟨page, -, hq⟩ := exists_of_bind_eq_ok hq
  rw [← Except.ok.inj hq]

/-- Courses sorted by title, then by the number of seats in descending order. -/
theorem ofParams_eq_of_spellsWords_courses :
    (∀ name ∈ Courses.shape.names, IsIdentifier name) ∧
      ofParams Courses.shape
          { sort := some "[ \"title\",\"\\u0073eats\"]", order := some "asc ,Desc" } {} =
        ofParams Courses.shape
          { sort := some " title\u3000, seats", order := some "[\"ASC\",\"DESC\"]" } {} := by
  have hnames : ∀ name ∈ Courses.shape.names, IsIdentifier name := by
    have htitle : IsIdentifier "title" := ⟨by decide, by decide, by decide, Text.not_blank_of_any rfl⟩
    have hseats : IsIdentifier "seats" := ⟨by decide, by decide, by decide, Text.not_blank_of_any rfl⟩
    exact List.forall_mem_cons.mpr ⟨htitle, List.forall_mem_singleton.mpr hseats⟩
  have hsort : SpellsWords ["title", "seats"] (some "[ \"title\",\"\\u0073eats\"]") := by
    have htitle : Json.Quoted.Spells (utf16 "title") ['t', 'i', 't', 'l', 'e'] :=
      Json.Quoted.spells_plain rfl
    have hseats : Json.Quoted.Spells (utf16 "seats")
        ['\\', 'u', '0', '0', '7', '3', 'e', 'a', 't', 's'] :=
      .digits rfl (Json.Quoted.spells_plain rfl)
    have htext : (wordsTree ["title", "seats"]).Spells "[ \"title\",\"\\u0073eats\"]" :=
      .mark rfl (.blank rfl (.string htitle (.mark rfl (.string hseats (.mark rfl .empty)))))
    exact .json htext (.self _)
  have hsort' : SpellsWords ["title", "seats"] (some " title\u3000, seats") := by
    have htitle : Padded "title".toList " title\u3000".toList :=
      ⟨[' '], ['\u3000'], by decide, by decide, rfl⟩
    have hseats : Padded "seats".toList " seats".toList := ⟨[' '], [], by decide, nofun, rfl⟩
    exact .commas nofun (.cons htitle (.cons hseats .nil)) (.self _)
  have hdirections : SpellsDirections [.asc, .desc] (some "asc ,Desc") := by
    have hasc : Padded "asc".toList "asc ".toList := ⟨[], [' '], by decide, by decide, rfl⟩
    have hsmall : NamesDirection "asc" .asc :=
      .cons (.inr rfl) (.cons (.inr rfl) (.cons (.inr rfl) .nil))
    have hmixed : NamesDirection "Desc" .desc :=
      .cons (.inl rfl) (.cons (.inr rfl) (.cons (.inr rfl) (.cons (.inr rfl) .nil)))
    exact ⟨["asc", "Desc"], .cons hsmall (.cons hmixed .nil),
      .commas nofun (.cons hasc (.cons (.self _) .nil)) (.self _)⟩
  have hdirections' : SpellsDirections [.asc, .desc] (some "[\"ASC\",\"DESC\"]") := by
    have hasc : Json.Quoted.Spells (utf16 "ASC") ['A', 'S', 'C'] :=
      Json.Quoted.spells_plain rfl
    have hdesc : Json.Quoted.Spells (utf16 "DESC") ['D', 'E', 'S', 'C'] :=
      Json.Quoted.spells_plain rfl
    have htext : (wordsTree ["ASC", "DESC"]).Spells "[\"ASC\",\"DESC\"]" :=
      .mark rfl (.string hasc (.mark rfl (.string hdesc (.mark rfl .empty))))
    exact ⟨["ASC", "DESC"], .cons (.of_text .asc) (.cons (.of_text .desc) .nil),
      .json htext (.self _)⟩
  exact ⟨hnames, (ofParams_eq_of_spellsWords hnames (by decide) hsort hsort' hdirections
    hdirections' {} {}).1⟩

end ListQuery

end Listing
