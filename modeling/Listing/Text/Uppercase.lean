import Listing.Text.UppercaseTable

/-!
# Upper-casing

`uppercase` replaces each character of a string by its full upper-case form, which may be longer
than one character (`ß` becomes `SS`). No character looks at its neighbours, and none vanishes
(`uppercaseChar_ne_nil`).
-/

set_option autoImplicit false
set_option relaxedAutoImplicit false

namespace Listing.Text

/-- The full upper-case form of one character. -/
def uppercaseChar (c : Char) : List Char :=
  let n := c.toNat
  if n < 0x80 then [c.toUpper]
  else match Uppercase.runs.find? (·.covers n) with
    | some run => [Char.ofNat (run.apply n)]
    | none => match Uppercase.expansions.find? (·.1 == n) with
      | some (_, first :: rest) => Char.ofNat first :: rest.map Char.ofNat
      | _ => [c]

/-- The full upper-case form of a text, character by character. -/
def uppercaseChars (cs : List Char) : List Char := cs.flatMap uppercaseChar

/-- The full upper-case form of a string. -/
def uppercase (s : String) : String := String.ofList (uppercaseChars s.toList)

/-- The text that a comparison looks at: upper-cased if the comparison ignores case. -/
def fold (ignoreCase : Bool) (s : String) : String := if ignoreCase then uppercase s else s

/-! ### Laws -/

/-- The upper-case form of a character is never empty. -/
theorem uppercaseChar_ne_nil (c : Char) : uppercaseChar c ≠ [] := by
  unfold uppercaseChar
  dsimp only
  split
  · simp
  · split
    · simp
    · split <;> simp

@[simp]
theorem uppercaseChars_nil : uppercaseChars [] = [] := rfl

@[simp]
theorem uppercaseChars_cons (c : Char) (cs : List Char) :
    uppercaseChars (c :: cs) = uppercaseChar c ++ uppercaseChars cs := rfl

end Listing.Text
