import Listing.Json.Decoder
import Listing.Proofs.Json.Lexing

/-!
# The document of a written value

The text of a value is read as the document that the value is (`Document.ofText_render`): every
container closes, every key has its value, and nothing follows.
-/

set_option autoImplicit false
set_option relaxedAutoImplicit false

namespace Listing.Json

namespace Value

mutual

/-- The document of a value. -/
def doc : Value → Doc
  | .null => .plain (.ofValue .null)
  | .bool b => .plain (.ofValue (.bool b))
  | .integer n => .plain ⟨(Numeral.ofInteger n).value.map .number, .ok ()⟩
  | .string s => .string (.ofValue s)
  | .array items => .array (docs items) (.ok ())
  | .object members => .object (memberDocs members) (.ok ())

/-- The documents of items. -/
def docs : List Value → List Doc
  | [] => []
  | v :: vs => v.doc :: docs vs

/-- The documents of members. -/
def memberDocs : List (String × Value) → List (Lexeme String × Doc)
  | [] => []
  | (key, v) :: ms => (.ofValue key, v.doc) :: memberDocs ms

end

end Value

namespace Document

open Value (docs memberDocs itemTokens memberTokens)

/-- An array with a first item is entered. -/
theorem atValue_openArray (frames : List Frame) (v : Value) (ts : List Token) :
    atValue frames (.mark .openArray :: (v.tokens ++ ts)) =
      atValue (.array [] :: frames) (v.tokens ++ ts) := by
  cases v with
  | array items => cases items <;> rfl
  | object members => cases members <;> rfl
  | _ => rfl

mutual

/-- Where a value is due, the tokens of a value are read as its document. -/
theorem atValue_tokens : ∀ (v : Value) (frames : List Frame) (ts : List Token),
    atValue frames (v.tokens ++ ts) = afterValue v.doc frames ts
  | .null, _, _ => rfl
  | .bool _, _, _ => rfl
  | .integer _, _, _ => rfl
  | .string _, _, _ => rfl
  | .array [], _, _ => rfl
  | .object [], _, _ => rfl
  | .array (v :: vs), frames, ts => by
    rw [Value.tokens, List.cons_append, List.cons_append, List.append_assoc, atValue_openArray,
      atValue_tokens v, afterValue_itemTokens vs]
    rfl
  | .object ((key, v) :: ms), frames, ts => by
    rw [Value.tokens]
    simp only [List.cons_append, List.append_assoc]
    change atValue (.object [] (.ofValue key) :: frames) (v.tokens ++ (memberTokens ms ++ ts)) = _
    rw [atValue_tokens v, afterValue_memberTokens ms]
    rfl

/-- Behind an item, the tokens of the further items complete the array. -/
theorem afterValue_itemTokens : ∀ (vs : List Value) (d : Doc) (items : List Doc)
    (frames : List Frame) (ts : List Token),
    afterValue d (.array items :: frames) (itemTokens vs ++ ts) =
      afterValue (.array ((d :: items).reverse ++ docs vs) (.ok ())) frames ts
  | [], _, _, _, _ => by
    rw [docs, List.append_nil]
    rfl
  | v :: vs, d, items, frames, ts => by
    rw [itemTokens]
    simp only [List.cons_append, List.append_assoc]
    change atValue (.array (d :: items) :: frames) (v.tokens ++ (itemTokens vs ++ ts)) = _
    rw [atValue_tokens v, afterValue_itemTokens vs, docs, List.reverse_cons, List.append_assoc]
    rfl

/-- Behind a member, the tokens of the further members complete the object. -/
theorem afterValue_memberTokens : ∀ (ms : List (String × Value)) (d : Doc) (key : Lexeme String)
    (members : List (Lexeme String × Doc)) (frames : List Frame) (ts : List Token),
    afterValue d (.object members key :: frames) (memberTokens ms ++ ts) =
      afterValue (.object (((key, d) :: members).reverse ++ memberDocs ms) (.ok ())) frames ts
  | [], _, _, _, _, _ => by
    rw [memberDocs, List.append_nil]
    rfl
  | (key', v) :: ms, d, key, members, frames, ts => by
    rw [memberTokens]
    simp only [List.cons_append, List.append_assoc]
    change atValue (.object ((key, d) :: members) (.ofValue key') :: frames)
      (v.tokens ++ (memberTokens ms ++ ts)) = _
    rw [atValue_tokens v, afterValue_memberTokens ms, memberDocs, List.reverse_cons,
      List.append_assoc]
    rfl

end

/-- The text of a value is read as its document, and nothing follows. -/
theorem ofText_render (v : Value) : ofText v.render = ⟨v.doc, false⟩ := by
  have htokens : tokens v.write = v.tokens ++ [] := by
    have hwrite : tokens (v.write ++ []) = v.tokens ++ tokens [] :=
      v.tokens_write fun c hc ↦ nomatch hc
    rwa [List.append_nil, tokens] at hwrite
  rw [ofText, Value.render, String.toList_ofList, htokens]
  exact atValue_tokens v [] []

end Document

/-- A written value is decoded as its document is. -/
theorem decodeText_render {α : Type} (read : Decoder α) (v : Value) :
    decodeText read v.render = read depthLimit v.doc := by
  rw [decodeText, Document.ofText_render]
  cases read depthLimit v.doc <;> rfl

end Listing.Json
