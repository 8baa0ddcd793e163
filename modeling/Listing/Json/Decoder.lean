import Listing.Json.Document

/-!
# Reading typed values

A `Decoder` turns a document into a value of a type. It goes through the document in the order of
the text and reports the first fault it meets; that a value is of the wrong kind is a fault at the
value's start, so the inside of a container of the wrong kind is never looked at.

A decoder is told how many containers may still be entered. What it passes over does not count.

A record is written as an object, or as an array of its fields in their order (`Decoder.record`).
`decodeText` reads a whole text.
-/

set_option autoImplicit false
set_option relaxedAutoImplicit false

namespace Listing.Json

/-- Reads a value, given how many containers may still be entered. -/
abbrev Decoder (α : Type) := Nat → Doc → Except Fault α

/-- The fault of a value that is of another kind than the one asked for: its own fault if it has
one. -/
def Doc.refusal : Doc → Fault
  | .missing why => why
  | .plain l => match l.value with
    | .ok _ => .unfit
    | .error fault => fault
  | .string l => match l.value with
    | .ok _ => .unfit
    | .error fault => fault
  | .array _ _ => .unfit
  | .object _ _ => .unfit

namespace Decoder

variable {α β σ : Type}

/-- Reads a value and transforms it. -/
def map (f : α → β) (read : Decoder α) : Decoder β := fun room d ↦ (read room d).map f

/-- Reads a value that must pass a test. -/
def filterMap (f : α → Option β) (read : Decoder α) : Decoder β := fun room d ↦ do
  match f (← read room d) with
  | some b => .ok b
  | none => .error .unfit

/-- Reads a string. -/
def string : Decoder String
  | _, .string l => l.value
  | _, d => .error d.refusal

/-- Reads a word or a number. -/
def plain : Decoder Plain
  | _, .plain l => l.value
  | _, d => .error d.refusal

/-- Reads `true` or `false`. -/
def bool : Decoder Bool := plain.filterMap fun
  | .bool b => some b
  | _ => none

/-- Reads an integer. -/
def integer : Decoder Int := plain.filterMap fun
  | .number (.integer n) => some n
  | _ => none

/-- Reads `null`. -/
def null : Decoder Unit := plain.filterMap fun
  | .null => some ()
  | _ => none

/-- Reads `null` as no value, and anything else as a value. -/
def optional (read : Decoder α) : Decoder (Option α)
  | room, d@(.plain l) => match l.value with
    | .ok .null => .ok none
    | _ => (read room d).map some
  | room, d => (read room d).map some

/-- Reads the items of an array one after the other. -/
def list (read : Decoder α) : Decoder (List α)
  | 0, .array _ _ => .error .malformed
  | room + 1, .array items ending => do
    let values ← items.mapM (read room)
    ending
    return values
  | _, d => .error d.refusal

/-- Reads one of several words. A word may also be written as an object with that word as its only
key and `null` as its value. -/
def word (word? : String → Option α) : Decoder α
  | room, d@(.string _) => string.filterMap word? room d
  | 0, .object _ _ => .error .malformed
  | room + 1, .object members ending => match members with
    | [] => .error .malformed
    | (key, d) :: rest => do
      let some value := word? (← key.value) | .error .unfit
      null room d
      match rest with
      | [] => ending
      | _ :: _ => .error .malformed
      return value
  | _, .missing why => .error why
  | _, _ => .error .malformed

end Decoder

/-! ### Records -/

/-- What it means that a field is not written. -/
inductive Presence where
  /-- The field must be written. -/
  | required
  /-- The field may be left out of an object, but not off the end of an array. -/
  | optional
  /-- The field may be left out of an object and off the end of an array. -/
  | defaulted
deriving DecidableEq

/-- A field of a record: reading it gives the change that it makes to the record. -/
structure Field (σ : Type) where
  key : String
  presence : Presence
  change : Decoder (σ → σ)

namespace Field

variable {α σ τ : Type}

/-- A field with a value to store. -/
def of (key : String) (presence : Presence) (read : Decoder α) (store : α → σ → σ) : Field σ :=
  ⟨key, presence, read.map store⟩

/-- A field of a part of a record is a field of the whole. -/
def lift (within : (σ → σ) → τ → τ) (field : Field σ) : Field τ :=
  ⟨field.key, field.presence, field.change.map within⟩

end Field

namespace Decoder

variable {σ : Type}

/-- Reads the members of an object: a known key must be new, an unknown one is passed over with its
value. The result comes with the known keys that were met. -/
def members (fields : List (Field σ)) (room : Nat) :
    List (Lexeme String × Doc) → List String → σ → Except Fault (List String × σ)
  | [], seen, s => .ok (seen, s)
  | (key, d) :: rest, seen, s => do
    let name ← key.value
    match fields.find? (·.key == name) with
    | none => do
      d.pass
      members fields room rest seen s
    | some field =>
      if seen.contains name then .error .unfit
      else do
        let change ← field.change room d
        members fields room rest (name :: seen) (change s)

/-- Reads the items of an array as the fields in their order. -/
def positions (room : Nat) (ending : Ending) : List (Field σ) → List Doc → σ → Except Fault σ
  | [], [], s => do ending; return s
  | [], _ :: _, _ => .error .malformed
  | field :: fields, [], s => do
    ending
    if field.presence = .defaulted then positions room ending fields [] s else .error .unfit
  | field :: fields, d :: ds, s => do
    let change ← field.change room d
    positions room ending fields ds (change s)

/-- Reads a record, from its value when nothing is written. -/
def record (fields : List (Field σ)) (initial : σ) : Decoder σ
  | 0, .array _ _ => .error .malformed
  | 0, .object _ _ => .error .malformed
  | room + 1, .array items ending => positions room ending fields items initial
  | room + 1, .object entries ending => do
    let (seen, s) ← members fields room entries [] initial
    ending
    if fields.all fun field ↦ field.presence != .required || seen.contains field.key then .ok s
    else .error .unfit
  | _, d => .error d.refusal

end Decoder

/-- How many containers may be entered, one inside the other. -/
def depthLimit : Nat := 127

/-- Reads a text that holds one value and nothing else. -/
def decodeText {α : Type} (read : Decoder α) (s : String) : Except Fault α := do
  let document := Document.ofText s
  let value ← read depthLimit document.root
  if document.trailing then .error .malformed else .ok value

end Listing.Json
