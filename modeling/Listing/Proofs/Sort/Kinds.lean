import Listing.Proofs.Filter.Meaning
import Listing.Proofs.Filter.Skeleton

/-!
# Values of one kind

Values of one kind are ordered (`Kind.compare?_eq`), and comparing values as those of a kind is a
total preorder even where a value is missing or of another kind (`Kind.transCmp_compare`).
-/

set_option autoImplicit false
set_option relaxedAutoImplicit false

namespace Listing

/-- Comparing items by their images is a total preorder if comparing the images is one. -/
theorem transCmp_comap {α β : Type} (cmp : β → β → Ordering) [hcmp : Std.TransCmp cmp]
    (f : α → β) : Std.TransCmp fun a b ↦ cmp (f a) (f b) where
  eq_swap := hcmp.eq_swap
  isLE_trans := hcmp.isLE_trans

/-- The kind of a value. -/
def Value.kind : Value → Kind
  | .text _ => .text
  | .integer _ => .integer
  | .moment _ => .moment
  | .flag _ => .flag

/-- The characters of a text. -/
def Value.chars : Option Value → List Char
  | some (.text s) => s.toList
  | _ => []

/-- The number of an integer. -/
def Value.number : Option Value → Int
  | some (.integer n) => n.toInt
  | _ => 0

/-- The instant of a moment. -/
def Value.instant : Option Value → Instant
  | some (.moment t) => t
  | _ => Instant.epoch

/-- The truth value of a flag. -/
def Value.isSet : Option Value → Bool
  | some (.flag b) => b
  | _ => false

/-- Compares values as those of a kind, whatever they are. -/
def Kind.compare : Kind → Option Value → Option Value → Ordering
  | .text => compareOn Value.chars
  | .integer => compareOn Value.number
  | .moment => compareOn Value.instant
  | .flag => compareOn Value.isSet

/-- Compares records by their values in a field as those of a kind. -/
def Kind.compareField {R : Type} [Record R] (k : Kind) (field : String) (a b : R) : Ordering :=
  k.compare (Record.field a field) (Record.field b field)

/-- Comparing values as those of a kind is a total preorder. -/
instance Kind.transCmp_compare (k : Kind) : Std.TransCmp k.compare := by
  unfold Kind.compare
  cases k <;> infer_instance

/-- So is comparing records by a field. -/
instance Kind.transCmp_compareField {R : Type} [Record R] (k : Kind) (field : String) :
    Std.TransCmp (k.compareField (R := R) field) :=
  transCmp_comap k.compare (Record.field · field)

/-- Values of one kind are compared as those of the kind. -/
theorem Kind.compare?_eq {v w : Value} (h : w.kind = v.kind) :
    v.compare? w = some (v.kind.compare (some v) (some w)) := by
  cases v with
  | text s =>
    cases w with
    | text t => rfl
    | _ => exact nomatch h
  | integer m =>
    cases w with
    | integer n => rfl
    | _ => exact nomatch h
  | moment t =>
    cases w with
    | moment u => rfl
    | _ => exact nomatch h
  | flag b =>
    cases w with
    | flag c => rfl
    | _ => exact nomatch h

end Listing
