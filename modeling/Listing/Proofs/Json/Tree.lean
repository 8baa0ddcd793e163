import Listing.Json.Decoder
import Listing.Proofs.Json.Symbols

/-!
# Texts as trees

A `Tree` is a JSON value without its presentation: of a text it leaves out the blanks between the
symbols and the way its strings are written, and keeps the order of the members and everything that
a reader passes over. `Tree.Spells` says that a string is a text of the tree. A reader meets the same
document in every text of a tree (`Document.ofText_of_spells`).
-/

set_option autoImplicit false
set_option relaxedAutoImplicit false

namespace Listing.Json

/-- A JSON value, with strings as units of UTF-16. -/
inductive Tree where
  | null
  | bool (b : Bool)
  | numeral (n : Numeral)
  | string (units : List UInt16)
  | array (items : List Tree)
  | object (members : List (List UInt16 × Tree))

namespace Tree

mutual

/-- The symbols of a value. -/
def symbols : Tree → List Symbol
  | .null => [.null]
  | .bool b => [.bool b]
  | .numeral n => [.numeral n]
  | .string units => [.string units]
  | .array [] => [.mark .openArray, .mark .closeArray]
  | .array (v :: vs) => .mark .openArray :: v.symbols ++ itemSymbols vs
  | .object [] => [.mark .openObject, .mark .closeObject]
  | .object ((key, v) :: ms) =>
    .mark .openObject :: .string key :: .mark .colon :: v.symbols ++ memberSymbols ms

/-- The symbols of the further items of an array, and of its end. -/
def itemSymbols : List Tree → List Symbol
  | [] => [.mark .closeArray]
  | v :: vs => .mark .comma :: v.symbols ++ itemSymbols vs

/-- The symbols of the further members of an object, and of its end. -/
def memberSymbols : List (List UInt16 × Tree) → List Symbol
  | [] => [.mark .closeObject]
  | (key, v) :: ms =>
    .mark .comma :: .string key :: .mark .colon :: v.symbols ++ memberSymbols ms

end

mutual

/-- The document of a value. -/
def doc : Tree → Doc
  | .null => .plain (.ofValue .null)
  | .bool b => .plain (.ofValue (.bool b))
  | .numeral n => .plain ⟨n.value.map .number, .ok ()⟩
  | .string units => .string (Quoted.lexeme units)
  | .array items => .array (docs items) (.ok ())
  | .object members => .object (memberDocs members) (.ok ())

/-- The documents of items. -/
def docs : List Tree → List Doc
  | [] => []
  | v :: vs => v.doc :: docs vs

/-- The documents of members. -/
def memberDocs : List (List UInt16 × Tree) → List (Lexeme String × Doc)
  | [] => []
  | (key, v) :: ms => (Quoted.lexeme key, v.doc) :: memberDocs ms

end

/-- The string is a text of the value, with any blanks between its symbols and any spelling of its
strings. -/
def Spells (v : Tree) (s : String) : Prop := Spaced v.symbols s.toList

theorem docs_eq_map (vs : List Tree) : docs vs = vs.map doc := by
  induction vs with
  | nil => rfl
  | cons v vs ih => rw [docs, ih, List.map_cons]

theorem memberDocs_eq_map (ms : List (List UInt16 × Tree)) :
    memberDocs ms = ms.map fun m ↦ (Quoted.lexeme m.1, m.2.doc) := by
  induction ms with
  | nil => rfl
  | cons m ms ih => rw [memberDocs, ih, List.map_cons]

/-! ### Neighbouring symbols -/

variable {m : Mark} {s : Symbol} {ss : List Symbol}

/-- A mark is apart from whatever follows. -/
theorem apart_mark (h : Apart ss) : Apart (.mark m :: ss) :=
  List.IsChain.cons h fun _ _ ↦ .inl ⟨m, rfl⟩

/-- Whatever comes before a mark is apart from it. -/
theorem apart_of_mark (hmark : ∀ s ∈ ss.head?, s.IsMark) (h : Apart ss) : Apart (s :: ss) :=
  List.IsChain.cons h fun s' hs' ↦ .inr (hmark s' hs')

theorem head?_itemSymbols (vs : List Tree) (ss : List Symbol) :
    ∀ s ∈ (itemSymbols vs ++ ss).head?, s.IsMark := by
  cases vs with
  | nil => exact fun _ hs ↦ ⟨.closeArray, (Option.some.inj hs).symm⟩
  | cons v vs => exact fun _ hs ↦ ⟨.comma, (Option.some.inj hs).symm⟩

theorem head?_memberSymbols (ms : List (List UInt16 × Tree)) (ss : List Symbol) :
    ∀ s ∈ (memberSymbols ms ++ ss).head?, s.IsMark := by
  cases ms with
  | nil => exact fun _ hs ↦ ⟨.closeObject, (Option.some.inj hs).symm⟩
  | cons m ms => exact fun _ hs ↦ ⟨.comma, (Option.some.inj hs).symm⟩

/-- A key is apart from the colon behind it. -/
theorem apart_key {key : List UInt16} (h : Apart ss) :
    Apart (.string key :: .mark .colon :: ss) :=
  apart_of_mark (fun _ hs ↦ ⟨.colon, (Option.some.inj hs).symm⟩) (apart_mark h)

mutual

/-- The symbols of a value are apart, also from a mark that follows. -/
theorem apart_symbols_append : ∀ (v : Tree) {ss : List Symbol}, (∀ s ∈ ss.head?, s.IsMark) →
    Apart ss → Apart (v.symbols ++ ss)
  | .null, _, hmark, h => apart_of_mark hmark h
  | .bool _, _, hmark, h => apart_of_mark hmark h
  | .numeral _, _, hmark, h => apart_of_mark hmark h
  | .string _, _, hmark, h => apart_of_mark hmark h
  | .array [], _, _, h => apart_mark (apart_mark h)
  | .array (v :: vs), ss, _, h => by
    rw [symbols, List.cons_append, List.cons_append, List.append_assoc]
    exact apart_mark
      (apart_symbols_append v (head?_itemSymbols vs ss) (apart_itemSymbols_append vs h))
  | .object [], _, _, h => apart_mark (apart_mark h)
  | .object ((key, v) :: ms), ss, _, h => by
    rw [symbols]
    simp only [List.cons_append, List.append_assoc]
    exact apart_mark (apart_key
      (apart_symbols_append v (head?_memberSymbols ms ss) (apart_memberSymbols_append ms h)))

/-- So are the symbols of further items. -/
theorem apart_itemSymbols_append : ∀ (vs : List Tree) {ss : List Symbol}, Apart ss →
    Apart (itemSymbols vs ++ ss)
  | [], _, h => apart_mark h
  | v :: vs, ss, h => by
    rw [itemSymbols, List.cons_append, List.cons_append, List.append_assoc]
    exact apart_mark
      (apart_symbols_append v (head?_itemSymbols vs ss) (apart_itemSymbols_append vs h))

/-- So are the symbols of further members. -/
theorem apart_memberSymbols_append : ∀ (ms : List (List UInt16 × Tree)) {ss : List Symbol},
    Apart ss → Apart (memberSymbols ms ++ ss)
  | [], _, h => apart_mark h
  | (key, v) :: ms, ss, h => by
    rw [memberSymbols]
    simp only [List.cons_append, List.append_assoc]
    exact apart_mark (apart_key
      (apart_symbols_append v (head?_memberSymbols ms ss) (apart_memberSymbols_append ms h)))

end

/-- No two symbols of a value need a blank between them. -/
theorem apart_symbols (v : Tree) : Apart v.symbols := by
  have h : Apart (v.symbols ++ []) := v.apart_symbols_append nofun .nil
  rwa [List.append_nil] at h

end Tree

/-! ### From tokens to documents -/

namespace Document

open Json.Tree (docs memberDocs itemSymbols memberSymbols)

/-- An array with a first item is entered. -/
theorem atValue_openArray_symbols (frames : List Frame) (v : Tree) (ts : List Token) :
    atValue frames (.mark .openArray :: (v.symbols.map Symbol.token ++ ts)) =
      atValue (.array [] :: frames) (v.symbols.map Symbol.token ++ ts) := by
  cases v with
  | array items => cases items <;> rfl
  | object members => cases members <;> rfl
  | _ => rfl

mutual

/-- Where a value is due, the symbols of a value are read as its document. -/
theorem atValue_symbols : ∀ (v : Tree) (frames : List Frame) (ts : List Token),
    atValue frames (v.symbols.map Symbol.token ++ ts) = afterValue v.doc frames ts
  | .null, _, _ => rfl
  | .bool _, _, _ => rfl
  | .numeral _, _, _ => rfl
  | .string _, _, _ => rfl
  | .array [], _, _ => rfl
  | .object [], _, _ => rfl
  | .array (v :: vs), frames, ts => by
    rw [Tree.symbols]
    simp only [List.cons_append, List.map_cons, List.map_append, List.append_assoc]
    refine (atValue_openArray_symbols frames v _).trans ?_
    rw [atValue_symbols v, afterValue_itemSymbols vs]
    rfl
  | .object ((key, v) :: ms), frames, ts => by
    rw [Tree.symbols]
    simp only [List.cons_append, List.map_cons, List.map_append, List.append_assoc]
    change atValue (.object [] (Quoted.lexeme key) :: frames) (v.symbols.map Symbol.token ++ _) = _
    rw [atValue_symbols v, afterValue_memberSymbols ms]
    rfl

/-- Behind an item, the symbols of the further items complete the array. -/
theorem afterValue_itemSymbols : ∀ (vs : List Tree) (d : Doc) (items : List Doc)
    (frames : List Frame) (ts : List Token),
    afterValue d (.array items :: frames) ((itemSymbols vs).map Symbol.token ++ ts) =
      afterValue (.array ((d :: items).reverse ++ docs vs) (.ok ())) frames ts
  | [], _, _, _, _ => by
    rw [docs, List.append_nil]
    rfl
  | v :: vs, d, items, frames, ts => by
    rw [itemSymbols]
    simp only [List.cons_append, List.map_cons, List.map_append, List.append_assoc]
    change atValue (.array (d :: items) :: frames) (v.symbols.map Symbol.token ++ _) = _
    rw [atValue_symbols v, afterValue_itemSymbols vs, docs, List.reverse_cons, List.append_assoc]
    rfl

/-- Behind a member, the symbols of the further members complete the object. -/
theorem afterValue_memberSymbols : ∀ (ms : List (List UInt16 × Tree)) (d : Doc)
    (key : Lexeme String) (members : List (Lexeme String × Doc)) (frames : List Frame)
    (ts : List Token),
    afterValue d (.object members key :: frames) ((memberSymbols ms).map Symbol.token ++ ts) =
      afterValue (.object (((key, d) :: members).reverse ++ memberDocs ms) (.ok ())) frames ts
  | [], _, _, _, _, _ => by
    rw [memberDocs, List.append_nil]
    rfl
  | (key', v) :: ms, d, key, members, frames, ts => by
    rw [memberSymbols]
    simp only [List.cons_append, List.map_cons, List.map_append, List.append_assoc]
    change atValue (.object ((key, d) :: members) (Quoted.lexeme key') :: frames)
      (v.symbols.map Symbol.token ++ _) = _
    rw [atValue_symbols v, afterValue_memberSymbols ms, memberDocs, List.reverse_cons,
      List.append_assoc]
    rfl

end

/-- Every text of a value has its document, and nothing follows. -/
theorem ofText_of_spells {v : Tree} {s : String} (h : v.Spells s) : ofText s = ⟨v.doc, false⟩ := by
  have htokens : tokens s.toList = v.symbols.map Symbol.token ++ [] := by
    rw [List.append_nil]
    exact h.tokens_eq v.apart_symbols
  rw [ofText, htokens]
  exact atValue_symbols v [] []

end Document

/-- Every text of a value is decoded as its document is. -/
theorem decodeText_of_spells {α : Type} (read : Decoder α) {v : Tree} {s : String}
    (h : v.Spells s) : decodeText read s = read depthLimit v.doc := by
  rw [decodeText, Document.ofText_of_spells h]
  cases read depthLimit v.doc <;> rfl

end Listing.Json
