import Listing.Json.Numeral
import Listing.Json.Quoted

/-!
# JSON tokens

`tokens` cuts a text into marks, words, numbers and strings and drops the blanks between them. The
cut stops after a lexeme that cannot be passed over, because nothing after it can be told apart from
it; the lexeme itself keeps the fault.
-/

set_option autoImplicit false
set_option relaxedAutoImplicit false

namespace Listing.Json

/-- The characters that structure a text. -/
inductive Mark where
  | openObject
  | closeObject
  | openArray
  | closeArray
  | colon
  | comma
deriving DecidableEq

/-- A value that is neither a string nor a container. -/
inductive Plain where
  | null
  | bool (b : Bool)
  | number (n : Number)
deriving DecidableEq

/-- A token of a text. -/
inductive Token where
  | mark (m : Mark)
  | plain (l : Lexeme Plain)
  | string (l : Lexeme String)
  /-- A character that begins no token. -/
  | stray

/-- The characters that may stand between two tokens. -/
def isSpace (c : Char) : Bool := c == ' ' || c == '\n' || c == '\t' || c == '\r'

/-- The mark that a character is. -/
def mark? (c : Char) : Option Mark :=
  match c with
  | '\x7b' => some .openObject
  | '\x7d' => some .closeObject
  | '[' => some .openArray
  | ']' => some .closeArray
  | ':' => some .colon
  | ',' => some .comma
  | _ => none

/-- The word that begins with a character, as its value and its further letters. -/
def word? (c : Char) : Option (Plain × List Char) :=
  match c with
  | 'n' => some (.null, ['u', 'l', 'l'])
  | 't' => some (.bool true, ['r', 'u', 'e'])
  | 'f' => some (.bool false, ['a', 'l', 's', 'e'])
  | _ => none

/-- What follows the expected letters. -/
def afterLetters : List Char → List Char → Except Fault (List Char)
  | [], cs => .ok cs
  | _ :: _, [] => .error .cutShort
  | e :: expected, c :: cs => if c = e then afterLetters expected cs else .error .malformed

theorem length_of_afterLetters {expected cs rest : List Char}
    (h : afterLetters expected cs = .ok rest) : rest.length ≤ cs.length := by
  induction expected generalizing cs with
  | nil =>
    simp only [afterLetters, Except.ok.injEq] at h
    exact Nat.le_of_eq (congrArg List.length h.symm)
  | cons e expected ih =>
    cases cs with
    | nil => simp [afterLetters] at h
    | cons c cs =>
      simp only [afterLetters] at h
      split at h
      · have := ih h
        rw [List.length_cons]
        omega
      · contradiction

/-- The tokens of a text, up to the first one that cannot be passed over. A numeral that cannot be
read cannot be passed over either, and is then malformed even if the text merely ends in it. -/
def tokens (cs : List Char) : List Token :=
  match cs with
  | [] => []
  | c :: rest =>
    if isSpace c then tokens rest
    else if c = '"' then
      .string (Quoted.scan rest).lexeme ::
        match h : (Quoted.scan rest).rest with
        | .ok rest' =>
          have := Quoted.length_of_scan h
          tokens rest'
        | .error _ => []
    else if c = '-' ∨ c.isDigit = true then
      match h : Numeral.scan (c :: rest) with
      | .ok (n, rest') =>
        have := Numeral.length_of_scan h
        .plain ⟨n.value.map .number, .ok ()⟩ :: tokens rest'
      | .error fault => [.plain ⟨.error fault, .error .malformed⟩]
    else
      match mark? c, word? c with
      | some m, _ => .mark m :: tokens rest
      | none, some (value, letters) =>
        match h : afterLetters letters rest with
        | .ok rest' =>
          have := length_of_afterLetters h
          .plain (.ofValue value) :: tokens rest'
        | .error fault => [.plain (.ofFault fault)]
      | none, none => [.stray]
termination_by cs.length
decreasing_by all_goals (simp only [List.length_cons] at *; omega)

end Listing.Json
