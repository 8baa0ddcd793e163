import Listing.Json.Value
import Listing.Text.Blank
import Mathlib.Data.List.Basic

/-!
# The ends of a written container

A container begins with a bracket and ends with one, so trimming its text changes nothing
(`Value.trim_render_array`, `Value.trim_render_object`).
-/

set_option autoImplicit false
set_option relaxedAutoImplicit false

namespace Listing.Json.Value

theorem getLast?_writeItems (vs : List Value) : (writeItems vs).getLast? = some ']' := by
  induction vs with
  | nil => rfl
  | cons v vs ih => rw [writeItems, List.getLast?_append, ih, Option.some_or]

theorem getLast?_writeMembers (ms : List (String × Value)) :
    (writeMembers ms).getLast? = some '\x7d' := by
  induction ms with
  | nil => rfl
  | cons m ms ih => rw [writeMembers, List.getLast?_append, ih, Option.some_or]

/-- A text between two characters that are no blanks is its own trimmed form. -/
theorem trim_render {v : Value} {first last : Char} (hfirst : v.write.head? = some first)
    (hlast : v.write.getLast? = some last) (hblank : Text.isBlank first = false)
    (hblank' : Text.isBlank last = false) : Text.trim v.render = v.render := by
  rw [Text.trim, render, String.toList_ofList]
  refine congrArg String.ofList (Text.trimChars_eq_self (fun c hc ↦ ?_) fun c hc ↦ ?_)
  · obtain rfl : first = c := Option.some.inj (hfirst.symm.trans hc)
    exact hblank
  · obtain rfl : last = c := Option.some.inj (hlast.symm.trans hc)
    exact hblank'

theorem render_ne_empty {v : Value} {first : Char} (hfirst : v.write.head? = some first) :
    v.render ≠ "" := by
  intro h
  rw [render, String.ofList_eq_empty_iff] at h
  rw [h] at hfirst
  exact nomatch hfirst

/-- An array begins with its bracket. -/
theorem head?_write_array (items : List Value) : (array items).write.head? = some '[' := by
  cases items <;> rfl

/-- A written array has no blanks around it. -/
theorem trim_render_array (items : List Value) :
    Text.trim (array items).render = (array items).render := by
  have hlast : (array items).write.getLast? = some ']' := by
    cases items with
    | nil => rfl
    | cons v vs => rw [write, List.getLast?_append, getLast?_writeItems, Option.some_or]
  exact trim_render (head?_write_array items) hlast (by decide) (by decide)

/-- An object begins with its brace. -/
theorem head?_write_object (members : List (String × Value)) :
    (object members).write.head? = some '\x7b' := by
  cases members <;> rfl

theorem render_array_ne_empty (items : List Value) : (array items).render ≠ "" :=
  render_ne_empty (head?_write_array items)

theorem render_object_ne_empty (members : List (String × Value)) :
    (object members).render ≠ "" :=
  render_ne_empty (head?_write_object members)

/-- A written object has no blanks around it. -/
theorem trim_render_object (members : List (String × Value)) :
    Text.trim (object members).render = (object members).render := by
  have hlast : (object members).write.getLast? = some '\x7d' := by
    cases members with
    | nil => rfl
    | cons m ms => rw [write, List.getLast?_append, getLast?_writeMembers, Option.some_or]
  exact trim_render (head?_write_object members) hlast (by decide) (by decide)

end Listing.Json.Value
