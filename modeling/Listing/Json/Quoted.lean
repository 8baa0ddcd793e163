import Listing.Json.Fault

/-!
# JSON strings

A string stands between quotation marks; a quotation mark, a backslash and the control characters
are written as escapes, and any character may be. An escape `\u` names a unit of UTF-16, so that a
character beyond the first plane takes two of them, a high surrogate and a low one.

`Quoted.scan` goes over the string as far as its last quotation mark and only asks that its escapes
are well formed. `Quoted.decode` then reads the characters, and refuses a surrogate without its
partner. `Quoted.write` is the shortest spelling.
-/

set_option autoImplicit false
set_option relaxedAutoImplicit false

namespace Listing.Json.Quoted

/-- One character of a string, or one unit that an escape names. -/
inductive Part where
  | char (c : Char)
  | unit (n : Nat)
deriving DecidableEq

/-! ### Scanning -/

/-- The value of a hexadecimal digit. -/
def hexValue? (c : Char) : Option Nat :=
  if c.isDigit then some (c.toNat - '0'.toNat)
  else if 'a' ≤ c ∧ c ≤ 'f' then some (c.toNat - 'a'.toNat + 10)
  else if 'A' ≤ c ∧ c ≤ 'F' then some (c.toNat - 'A'.toNat + 10)
  else none

/-- The value of four hexadecimal digits. -/
def unitValue? (a b c d : Char) : Option Nat := do
  let a ← hexValue? a
  let b ← hexValue? b
  let c ← hexValue? c
  let d ← hexValue? d
  return ((a * 16 + b) * 16 + c) * 16 + d

/-- The character that a one-letter escape names. -/
def shortEscape? (c : Char) : Option Char :=
  match c with
  | '"' => some '"'
  | '\\' => some '\\'
  | '/' => some '/'
  | 'b' => some '\x08'
  | 'f' => some '\x0c'
  | 'n' => some '\n'
  | 'r' => some '\r'
  | 't' => some '\t'
  | _ => none

/-- Whether a character must be escaped because it controls the output. -/
def isControl (c : Char) : Bool := c.toNat < 0x20

/-- The length of a text in bytes of UTF-8. -/
def byteLength (cs : List Char) : Nat := cs.foldr (fun c n ↦ c.utf8Size + n) 0

/-- The fault of an escape that is not followed by four digits: the text is cut short if not even
four bytes follow. -/
def shortUnitFault (rest : List Char) : Fault :=
  if byteLength rest < 4 then .cutShort else .malformed

/-- What a scan finds: the parts up to the last quotation mark and the text after it, or the parts
up to a fault. -/
structure Scan where
  parts : List Part
  rest : Except Fault (List Char)

/-- A scan that finds one part more in front. -/
def Scan.cons (part : Part) (s : Scan) : Scan := ⟨part :: s.parts, s.rest⟩

/-- Scans what follows the first quotation mark. -/
def scan : List Char → Scan
  | [] => ⟨[], .error .cutShort⟩
  | '"' :: rest => ⟨[], .ok rest⟩
  | '\\' :: [] => ⟨[], .error .cutShort⟩
  | '\\' :: 'u' :: a :: b :: c :: d :: rest =>
    match unitValue? a b c d with
    | some n => (scan rest).cons (.unit n)
    | none => ⟨[], .error .malformed⟩
  | '\\' :: 'u' :: rest => ⟨[], .error (shortUnitFault rest)⟩
  | '\\' :: e :: rest =>
    match shortEscape? e with
    | some c => (scan rest).cons (.char c)
    | none => ⟨[], .error .malformed⟩
  | c :: rest =>
    if isControl c then ⟨[], .error .malformed⟩ else (scan rest).cons (.char c)

/-! ### Decoding -/

/-- Whether a unit is the first of a pair. -/
def isHigh (n : Nat) : Bool := 0xD800 ≤ n && n ≤ 0xDBFF

/-- Whether a unit is the second of a pair. -/
def isLow (n : Nat) : Bool := 0xDC00 ≤ n && n ≤ 0xDFFF

/-- The character that two units name together. -/
def paired (high low : Nat) : Char :=
  Char.ofNat (0x10000 + (high - 0xD800) * 0x400 + (low - 0xDC00))

/-- The characters that the parts name. The ending is the fault after the last part, if there is
one; a high surrogate at the very end leaves it to that fault whether its partner is missing. -/
def decode (ending : Option Fault) : List Part → Except Fault (List Char)
  | [] => match ending with
    | none => .ok []
    | some fault => .error fault
  | .char c :: parts => (decode ending parts).map (c :: ·)
  | .unit n :: parts =>
    if isLow n then .error .malformed
    else if isHigh n then
      match parts with
      | [] => .error (ending.getD .malformed)
      | .unit m :: parts =>
        if isLow m then (decode ending parts).map (paired n m :: ·) else .error .malformed
      | .char _ :: _ => .error .malformed
    else (decode ending parts).map (Char.ofNat n :: ·)

/-- The scanned string as a lexeme. -/
def Scan.lexeme (s : Scan) : Lexeme String where
  value :=
    let ending := match s.rest with
      | .ok _ => none
      | .error fault => some fault
    (decode ending s.parts).map String.ofList
  passing := s.rest.map fun _ ↦ ()

/-! ### Writing -/

/-- The hexadecimal digit of a value below 16. -/
def hexDigit (n : Nat) : Char := Nat.digitChar n

/-- The shortest spelling of one character: an escape only where one is needed. -/
def writeChar (c : Char) : List Char :=
  match c with
  | '"' => ['\\', '"']
  | '\\' => ['\\', '\\']
  | '\x08' => ['\\', 'b']
  | '\x0c' => ['\\', 'f']
  | '\n' => ['\\', 'n']
  | '\r' => ['\\', 'r']
  | '\t' => ['\\', 't']
  | c =>
    if isControl c then ['\\', 'u', '0', '0', hexDigit (c.toNat / 16), hexDigit (c.toNat % 16)]
    else [c]

/-- The shortest spelling of a string, with its quotation marks. -/
def write (cs : List Char) : List Char := '"' :: cs.flatMap writeChar ++ ['"']

/-! ### Laws -/

/-- What follows a string is shorter than what follows its first quotation mark. -/
theorem length_of_scan {cs rest : List Char} (h : (scan cs).rest = .ok rest) :
    rest.length < cs.length := by
  fun_induction scan cs with
  | case1 => simp at h
  | case2 r =>
    simp only [Except.ok.injEq] at h
    simp [h]
  | case3 => simp at h
  | case4 a b c d r n hn ih =>
    have := ih h
    simp only [List.length_cons]
    omega
  | case5 => simp at h
  | case6 => simp at h
  | case7 e r _ _ c hc ih =>
    have := ih h
    simp only [List.length_cons]
    omega
  | case8 => simp at h
  | case9 => simp at h
  | case10 c r _ _ _ _ _ _ ih =>
    have := ih h
    simp only [List.length_cons]
    omega

end Listing.Json.Quoted
