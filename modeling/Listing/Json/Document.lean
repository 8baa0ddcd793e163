import Listing.Json.Token

/-!
# JSON documents

A `Doc` is a value as far as its text can be read. Where the text breaks off or stops making sense,
the value that is due there is `missing`, or the container does not end well; all that comes before
is kept. So every text has a document (`Document.ofTokens`), and a reader that goes through the
document from left to right meets the first fault of the text first.

Every comma in a container announces an item: if none follows, that item is `missing`. In an object
it announces a key, and anything but a string in the place of a key is malformed.
-/

set_option autoImplicit false
set_option relaxedAutoImplicit false

namespace Listing.Json

/-- How a container ends: with its closing bracket, or with a fault after its last item. -/
abbrev Ending := Except Fault Unit

/-- A value as far as its text can be read. -/
inductive Doc where
  /-- No value begins here. -/
  | missing (why : Fault)
  | plain (l : Lexeme Plain)
  | string (l : Lexeme String)
  | array (items : List Doc) (ending : Ending)
  /-- The members are keys with their values. -/
  | object (members : List (Lexeme String × Doc)) (ending : Ending)

namespace Doc

/-! ### Passing over a value -/

mutual

/-- The first fault that a reader meets who passes over a value. -/
def pass : Doc → Except Fault Unit
  | .missing why => .error why
  | .plain l => l.passing
  | .string l => l.passing
  | .array items ending => do passItems items; ending
  | .object members ending => do passMembers members; ending

/-- The first fault in a row of items. -/
def passItems : List Doc → Except Fault Unit
  | [] => .ok ()
  | d :: ds => do pass d; passItems ds

/-- The first fault in a row of members. -/
def passMembers : List (Lexeme String × Doc) → Except Fault Unit
  | [] => .ok ()
  | (key, d) :: ds => do key.passing; pass d; passMembers ds

end

end Doc

/-! ### Building a document -/

/-- A container that is not closed yet: what it holds so far, the last item first, and in an object
the key that waits for its value. -/
inductive Frame where
  | array (items : List Doc)
  | object (members : List (Lexeme String × Doc)) (key : Lexeme String)

/-- Puts a last value into a container and ends it. -/
def Frame.close (d : Doc) (ending : Ending) : Frame → Doc
  | .array items => .array (d :: items).reverse ending
  | .object members key => .object ((key, d) :: members).reverse ending

/-- A text as a document: its value, and whether more than blanks follows. -/
structure Document where
  root : Doc
  trailing : Bool

/-- Ends a text inside its open containers: the value is the last item of the innermost one. -/
def Document.cut (d : Doc) (frames : List Frame) : Document :=
  ⟨frames.foldl (fun d frame ↦ frame.close d (.error .cutShort)) d, false⟩

mutual

/-- A text from a place where a value is due. -/
def Document.atValue (frames : List Frame) : List Token → Document
  | [] => .cut (.missing .cutShort) frames
  | .plain l :: ts => .afterValue (.plain l) frames ts
  | .string l :: ts => .afterValue (.string l) frames ts
  | .mark .openArray :: .mark .closeArray :: ts => .afterValue (.array [] (.ok ())) frames ts
  | .mark .openArray :: ts => .atValue (.array [] :: frames) ts
  | .mark .openObject :: .mark .closeObject :: ts => .afterValue (.object [] (.ok ())) frames ts
  | .mark .openObject :: ts => .atKey [] frames ts
  | _ :: _ => .cut (.missing .malformed) frames
termination_by structural ts => ts

/-- A text from a place where a key is due. -/
def Document.atKey (members : List (Lexeme String × Doc)) (frames : List Frame) :
    List Token → Document
  | [] => .cut (.missing .cutShort) (.object members (.ofFault .cutShort) :: frames)
  | [.string key] => .cut (.missing .cutShort) (.object members key :: frames)
  | .string key :: .mark .colon :: ts => .atValue (.object members key :: frames) ts
  | .string key :: _ => .cut (.missing .malformed) (.object members key :: frames)
  | _ :: _ => .cut (.missing .malformed) (.object members (.ofFault .malformed) :: frames)
termination_by structural ts => ts

/-- A text from the end of a value. -/
def Document.afterValue (d : Doc) : List Frame → List Token → Document
  | [], ts => ⟨d, !ts.isEmpty⟩
  | frames, [] => .cut d frames
  | .array items :: frames, .mark .comma :: ts => .atValue (.array (d :: items) :: frames) ts
  | .array items :: frames, .mark .closeArray :: ts =>
    .afterValue (.array (d :: items).reverse (.ok ())) frames ts
  | .object members key :: frames, .mark .comma :: ts => .atKey ((key, d) :: members) frames ts
  | .object members key :: frames, .mark .closeObject :: ts =>
    .afterValue (.object ((key, d) :: members).reverse (.ok ())) frames ts
  | frame :: frames, _ :: _ => .cut (frame.close d (.error .malformed)) frames
termination_by structural _ ts => ts

end

/-- The document that a row of tokens is. -/
def Document.ofTokens (ts : List Token) : Document := .atValue [] ts

/-- The document of a text. -/
def Document.ofText (s : String) : Document := .ofTokens (tokens s.toList)

end Listing.Json
