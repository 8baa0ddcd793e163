import Listing.Proofs.Filter.Meaning
import Mathlib.Data.List.Infix

/-!
# Bounds that ignore case

A bound on a text may look at upper-cased texts instead. Upper-casing may lengthen a text, but it
goes character by character, so equal texts stay equal and a text that occurs in another one still
does (`Text.uppercase_infix`). A value that lies in a bound therefore lies in the bound that ignores
case (`Test.admits_ignoringCase`), which knows no more of its own text than the upper-cased form.

A leaf filter is a conjunction of bounds, so ignoring case loses no record that it selects
(`TextFilter.ignoringCase_widens`).
-/

set_option autoImplicit false
set_option relaxedAutoImplicit false

namespace Listing

/-! ### Upper-cased texts -/

/-- A text that occurs in another one occurs in it when both are upper-cased. -/
theorem Text.uppercase_infix {s t : String} (h : s.toList <:+: t.toList) :
    (Text.uppercase s).toList <:+: (Text.uppercase t).toList := by
  rw [Text.uppercase, Text.uppercase, String.toList_ofList, String.toList_ofList]
  exact h.flatMap Text.uppercaseChar

/-! ### One bound -/

namespace Test

/-- The same bound without regard to case. -/
def ignoringCase : Test → Test
  | equals value _ => equals value true
  | contains value _ => contains value true
  | t => t

/-- A value that lies in a bound lies in it without regard to case. -/
theorem admits_ignoringCase {t : Test} {v : Value} (h : t.Admits v) : t.ignoringCase.Admits v := by
  cases t with
  | equals value ignoreCase =>
    cases ignoreCase with
    | true => exact h
    | false =>
      cases v with
      | text s => exact congrArg Text.uppercase (h : s = value)
      | _ => exact h.elim
  | contains value ignoreCase =>
    cases ignoreCase with
    | true => exact h
    | false =>
      cases v with
      | text s => exact Text.uppercase_infix h
      | _ => exact h.elim
  | _ => exact h

/-- Assumes: two texts with the same upper-cased form. Without regard to case, a value that lies in
the bound of the one lies in that of the other. -/
theorem accepts_congr_of_uppercase {value value' : String}
    (h : Text.uppercase value = Text.uppercase value') (v : Value) :
    (equals value true).accepts v = (equals value' true).accepts v ∧
      (contains value true).accepts v = (contains value' true).accepts v := by
  have hfold : Text.fold true value = Text.fold true value' := h
  cases v with
  | text s =>
    rw [accepts, accepts, accepts, accepts, hfold]
    exact ⟨rfl, rfl⟩
  | _ => exact ⟨rfl, rfl⟩

end Test

/-- A record that meets a constraint meets it without regard to case. -/
theorem Constraint.Meets.ignoringCase {R : Type} [Record R] {r : R} {field : String} {t : Test}
    (h : Constraint.Meets r ⟨field, t⟩) : Constraint.Meets r ⟨field, t.ignoringCase⟩ := by
  obtain ⟨v, hv, hadmits⟩ := h
  exact ⟨v, hv, Test.admits_ignoringCase hadmits⟩

/-- The constraints of two texts with the same upper-cased form are met by the same records if case
is ignored. -/
theorem Constraint.holds_congr_of_uppercase {R : Type} [Record R] (field : String)
    {value value' : String} (h : Text.uppercase value = Text.uppercase value') (r : R) :
    Constraint.holds ⟨field, .equals value true⟩ r =
        Constraint.holds ⟨field, .equals value' true⟩ r ∧
      Constraint.holds ⟨field, .contains value true⟩ r =
        Constraint.holds ⟨field, .contains value' true⟩ r := by
  unfold Constraint.holds
  cases Record.field r field with
  | none => exact ⟨rfl, rfl⟩
  | some v => exact Test.accepts_congr_of_uppercase h v

/-! ### All bounds of a leaf filter -/

namespace TextFilter

/-- The bounds of a leaf filter that ignores case are its bounds without regard to case. -/
theorem tests_ignoringCase (f : TextFilter) :
    f.ignoringCase.tests = f.tests.map Test.ignoringCase := by
  obtain ⟨equals, contains, ignoreCase⟩ := f
  cases equals <;> cases contains <;> rfl

/-- A record meets a leaf filter on a text if it meets all its bounds. -/
theorem accepts_ofLeaf_iff {R : Type} [Record R] (field : String) (f : TextFilter) (r : R) :
    (Predicate.ofLeaf (Matcher.backend R) field .text (some f)).accepts r = true ↔
      ∀ t ∈ f.tests, Constraint.Meets r ⟨field, t⟩ := by
  rw [Predicate.accepts_eq_value, Predicate.ofLeaf,
    Predicate.value_ofConstraints_iff (Matcher.lawful r)]
  refine List.forall_mem_map.trans (forall₂_congr fun t _ ↦ ?_)
  exact Constraint.holds_iff_meets ⟨field, t⟩ r

/-- Ignoring case only ever widens. A record that meets the constraint of a text meets it without
regard to case; what the constraint then depends on is the upper-cased text alone; and a leaf filter
that ignores case selects every record that it selects otherwise. -/
theorem ignoringCase_widens {R : Type} [Record R] (field : String) :
    (∀ (value : String) (r : R),
        ((Matcher.backend R).constraint ⟨field, .equals value false⟩ r = true →
          (Matcher.backend R).constraint ⟨field, .equals value true⟩ r = true) ∧
        ((Matcher.backend R).constraint ⟨field, .contains value false⟩ r = true →
          (Matcher.backend R).constraint ⟨field, .contains value true⟩ r = true)) ∧
      (∀ value value' : String, Text.uppercase value = Text.uppercase value' → ∀ r : R,
        (Matcher.backend R).constraint ⟨field, .equals value true⟩ r =
            (Matcher.backend R).constraint ⟨field, .equals value' true⟩ r ∧
          (Matcher.backend R).constraint ⟨field, .contains value true⟩ r =
            (Matcher.backend R).constraint ⟨field, .contains value' true⟩ r) ∧
      ∀ (f : TextFilter) (rs : List R),
        ((Predicate.ofLeaf (Matcher.backend R) field .text (some f)).select rs).Sublist
          ((Predicate.ofLeaf (Matcher.backend R) field .text (some f.ignoringCase)).select rs) := by
  have hwidens (t : Test) (r : R) (h : Constraint.holds ⟨field, t⟩ r = true) :
      Constraint.holds ⟨field, t.ignoringCase⟩ r = true := by
    rw [Constraint.holds_iff_meets] at h ⊢
    exact h.ignoringCase
  refine ⟨fun value r ↦ ⟨hwidens (.equals value false) r, hwidens (.contains value false) r⟩,
    fun value value' h r ↦ Constraint.holds_congr_of_uppercase field h r, fun f ↦ ?_⟩
  refine Predicate.select_sublist fun r hr ↦ ?_
  rw [accepts_ofLeaf_iff] at hr ⊢
  rw [tests_ignoringCase, List.forall_mem_map]
  exact fun t ht ↦ (hr t ht).ignoringCase

/-- In `Straße` the text `aß` occurs, and so it does without regard to case, though the upper-cased
forms are longer; and then `straße` and `STRASSE` are the same. -/
theorem ignoringCase_widens_sharpS :
    (Matcher.backend Row).constraint ⟨"title", .contains "aß" false⟩
        (Courses.row "Straße" none) = true ∧
      (Matcher.backend Row).constraint ⟨"title", .contains "aß" true⟩
        (Courses.row "Straße" none) = true ∧
      Text.uppercase "straße" = Text.uppercase "STRASSE" ∧
      (Matcher.backend Row).constraint ⟨"title", .equals "straße" true⟩
          (Courses.row "Strasse" none) =
        (Matcher.backend Row).constraint ⟨"title", .equals "STRASSE" true⟩
          (Courses.row "Strasse" none) := by
  have hoccurs : (Matcher.backend Row).constraint ⟨"title", .contains "aß" false⟩
      (Courses.row "Straße" none) = true := by decide
  have hsame : Text.uppercase "straße" = Text.uppercase "STRASSE" := by decide +kernel
  obtain ⟨hwidens, hcongr, -⟩ := ignoringCase_widens (R := Row) "title"
  exact ⟨hoccurs, (hwidens "aß" (Courses.row "Straße" none)).2 hoccurs, hsame,
    (hcongr "straße" "STRASSE" hsame (Courses.row "Strasse" none)).1⟩

end TextFilter

end Listing
