/-!
# Blank characters

The characters that carry the Unicode property `White_Space`, and what is built on them: removing
the blanks around a text (`trim`) and cutting a text at a separator (`splitOn`). Both work on the
list of characters, where their laws are short: trimming what starts and ends without a blank
changes nothing (`trimChars_eq_self`), and the pieces of a cut, joined by the separator again, are
the text (`intercalate_splitOn`).
-/

set_option autoImplicit false
set_option relaxedAutoImplicit false

namespace Listing.Text

/-- Whether a character has the Unicode property `White_Space`. -/
def isBlank (c : Char) : Bool :=
  let n := c.toNat
  (0x0009 ≤ n && n ≤ 0x000D) || n == 0x0020 || n == 0x0085 || n == 0x00A0 || n == 0x1680 ||
    (0x2000 ≤ n && n ≤ 0x200A) || n == 0x2028 || n == 0x2029 || n == 0x202F || n == 0x205F ||
    n == 0x3000

/-- The text without the blanks it starts with. -/
def trimStart (cs : List Char) : List Char := cs.dropWhile isBlank

/-- The text without the blanks it ends with. -/
def trimEnd (cs : List Char) : List Char := (trimStart cs.reverse).reverse

/-- The text without the blanks around it. -/
def trimChars (cs : List Char) : List Char := trimEnd (trimStart cs)

/-- The string without the blanks around it. -/
def trim (s : String) : String := String.ofList (trimChars s.toList)

/-- The pieces between the separators; there is one piece more than there are separators. -/
def splitOn (separator : Char) : List Char → List (List Char)
  | [] => [[]]
  | c :: cs =>
    if c = separator then [] :: splitOn separator cs
    else match splitOn separator cs with
      | [] => [[c]]
      | piece :: pieces => (c :: piece) :: pieces

/-! ### Laws -/

/-- A text that starts with no blank keeps its start. -/
theorem trimStart_eq_self {cs : List Char} (h : ∀ c ∈ cs.head?, isBlank c = false) :
    trimStart cs = cs := by
  cases cs with
  | nil => rfl
  | cons c cs =>
    have hc : isBlank c = false := h c rfl
    rw [trimStart, List.dropWhile_cons_of_neg (by simp [hc])]

/-- A text that ends with no blank keeps its end. -/
theorem trimEnd_eq_self {cs : List Char} (h : ∀ c ∈ cs.getLast?, isBlank c = false) :
    trimEnd cs = cs := by
  have hrev : trimStart cs.reverse = cs.reverse :=
    trimStart_eq_self (by simpa [List.head?_reverse] using h)
  rw [trimEnd, hrev, List.reverse_reverse]

/-- A text with no blank at either end is its own trimmed form. -/
theorem trimChars_eq_self {cs : List Char} (hfirst : ∀ c ∈ cs.head?, isBlank c = false)
    (hlast : ∀ c ∈ cs.getLast?, isBlank c = false) : trimChars cs = cs := by
  rw [trimChars, trimStart_eq_self hfirst, trimEnd_eq_self hlast]

/-- A cut never yields the empty list of pieces. -/
theorem splitOn_ne_nil (separator : Char) (cs : List Char) : splitOn separator cs ≠ [] := by
  cases cs with
  | nil => simp [splitOn]
  | cons c cs =>
    rw [splitOn]
    split
    · simp
    · split <;> simp

/-- The pieces of a cut, joined by the separator, are the text. -/
theorem intercalate_splitOn (separator : Char) (cs : List Char) :
    [separator].intercalate (splitOn separator cs) = cs := by
  induction cs with
  | nil => rfl
  | cons c cs ih =>
    have hne := splitOn_ne_nil separator cs
    rw [splitOn]
    revert hne ih
    cases splitOn separator cs with
    | nil => simp
    | cons piece pieces =>
      intro ih _
      split
      · subst c
        simpa [List.intercalate, List.intersperse] using ih
      · cases pieces <;> simp_all [List.intercalate, List.intersperse]

end Listing.Text
