/-!
# Occurrence of a text in a text

`occurs needle text` decides whether `needle` stands somewhere in `text` as a block of neighbouring
characters; `occurs_iff` says so with the list relation of that meaning.
-/

set_option autoImplicit false
set_option relaxedAutoImplicit false

namespace Listing.Text

/-- Whether the needle starts at the head of the text or at some later character. -/
def occurs (needle : List Char) : List Char → Bool
  | [] => needle.isEmpty
  | c :: cs => needle.isPrefixOf (c :: cs) || occurs needle cs

/-- Whether the second string occurs in the first. -/
def contains (text needle : String) : Bool := occurs needle.toList text.toList

theorem occurs_iff (needle text : List Char) : occurs needle text = true ↔ needle <:+: text := by
  induction text with
  | nil => simp [occurs, List.isEmpty_iff, List.infix_nil]
  | cons c cs ih =>
    rw [occurs, Bool.or_eq_true, ih, List.isPrefixOf_iff_prefix, List.infix_cons_iff]

end Listing.Text
