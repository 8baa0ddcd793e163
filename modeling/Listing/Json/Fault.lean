/-!
# Why a JSON text is refused

The three kinds of fault, and the two views of a lexeme. A fault is kept where it stands in the
text, so that a reader which goes from left to right meets the first one first.
-/

set_option autoImplicit false
set_option relaxedAutoImplicit false

namespace Listing.Json

/-- Why a text is refused. -/
inductive Fault where
  /-- The characters are not JSON. -/
  | malformed
  /-- The text ends inside a value. -/
  | cutShort
  /-- The text is JSON, but not of the form that is asked for. -/
  | unfit
deriving DecidableEq, Repr

/-- A word, number or string of a text. A reader may ask for its value or pass over it, and there
are lexemes that have no value and can still be passed over. -/
structure Lexeme (α : Type) where
  /-- The value, or the fault that a reader of the value meets. -/
  value : Except Fault α
  /-- Whether a reader can pass over the lexeme. -/
  passing : Except Fault Unit

/-- A lexeme with a value. -/
def Lexeme.ofValue {α : Type} (a : α) : Lexeme α := ⟨.ok a, .ok ()⟩

/-- The place of a lexeme where the text has none. -/
def Lexeme.ofFault {α : Type} (why : Fault) : Lexeme α := ⟨.error why, .error why⟩

end Listing.Json
