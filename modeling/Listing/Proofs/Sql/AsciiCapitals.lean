import Listing.Proofs.Sql.Agreement

/-!
# A database with the capital letters of ASCII only

SQLite without extensions folds only the small letters of ASCII (`Text.asciiUppercase`,
`Engine.sqlite`), but the value that a condition is compared with is upper-cased in full. On a row
that stores a text, the condition for a text that is equal without regard to case compares the two
(`finds_equals_iff`), and the one for a text that occurs asks whether the value occurs in the other
(`finds_contains_iff`).

The two ways to fold a text agree exactly if no character of it beyond ASCII has a capital letter of
its own (`Text.asciiUppercase_eq_iff`). These are the values whose exact matches are all found
(`keeps_exact_matches_iff`); of any other value already the row that stores it is lost, as in
`loses_exact_matches`.
-/

set_option autoImplicit false
set_option relaxedAutoImplicit false

namespace Listing

/-! ### Capital letters of ASCII -/

namespace Text

/-- The text with the small letters of ASCII replaced by their capitals. -/
def asciiUppercase (s : String) : String := String.ofList (s.toList.map Char.toUpper)

/-- No character of the text beyond ASCII has an upper-case form other than itself. -/
def CapitalsInAscii (s : String) : Prop :=
  ∀ c ∈ s.toList, 0x80 ≤ c.toNat → uppercaseChar c = [c]

/-- A character has the upper-case form of ASCII, unless it lies beyond ASCII and has another
one. -/
theorem uppercaseChar_eq_toUpper_iff (c : Char) :
    uppercaseChar c = [c.toUpper] ↔ (0x80 ≤ c.toNat → uppercaseChar c = [c]) := by
  by_cases hascii : c.toNat < 0x80
  · exact iff_of_true (if_pos hascii) fun hbeyond ↦ absurd hascii (Nat.not_lt.mpr hbeyond)
  · have hself : c.toUpper = c := toUpper_eq_self (.inr (by omega))
    rw [hself]
    exact ⟨fun h _ ↦ h, fun h ↦ h (Nat.not_lt.mp hascii)⟩

theorem length_uppercaseChar_pos (c : Char) : 0 < (uppercaseChar c).length :=
  List.length_pos_iff.mpr (uppercaseChar_ne_nil c)

/-- Upper-casing shortens no text. -/
theorem length_le_length_uppercaseChars (cs : List Char) :
    cs.length ≤ (uppercaseChars cs).length := by
  induction cs with
  | nil => exact Nat.le_refl 0
  | cons c cs ih =>
    have hchar := length_uppercaseChar_pos c
    rw [uppercaseChars_cons, List.length_append, List.length_cons]
    omega

/-- Upper-casing replaces each character by its capital of ASCII if it does so one by one. -/
theorem map_toUpper_eq_uppercaseChars_iff (cs : List Char) :
    cs.map Char.toUpper = uppercaseChars cs ↔ ∀ c ∈ cs, uppercaseChar c = [c.toUpper] := by
  induction cs with
  | nil => simp
  | cons c cs ih =>
    rw [List.map_cons, uppercaseChars_cons, List.forall_mem_cons, ← ih]
    constructor
    · intro (h : [c.toUpper] ++ cs.map Char.toUpper = uppercaseChar c ++ uppercaseChars cs)
      -- No form is empty, so a longer form of one character could not be made up for by the rest.
      have hchar := length_uppercaseChar_pos c
      have hrest := length_le_length_uppercaseChars cs
      have hlength := congrArg List.length h
      rw [List.length_append, List.length_append, List.length_singleton, List.length_map] at hlength
      have hone : [c.toUpper].length = (uppercaseChar c).length := by
        rw [List.length_singleton]
        omega
      obtain ⟨hhead, htail⟩ := List.append_inj h hone
      exact ⟨hhead.symm, htail⟩
    · rintro ⟨hhead, htail⟩
      rw [hhead, htail, List.singleton_append]

/-- The two ways to fold a text agree if no character beyond ASCII has a capital letter. -/
theorem asciiUppercase_eq_iff (s : String) :
    asciiUppercase s = uppercase s ↔ CapitalsInAscii s := by
  rw [asciiUppercase, uppercase, String.ofList_inj, map_toUpper_eq_uppercaseChars_iff]
  exact forall₂_congr fun c _ ↦ uppercaseChar_eq_toUpper_iff c

/-- A text with the capital letters of ASCII has no small letters of it. -/
theorem toUpper_of_mem_asciiUppercase {s : String} {d : Char}
    (h : d ∈ (asciiUppercase s).toList) : d.toUpper = d := by
  rw [asciiUppercase, String.toList_ofList] at h
  obtain ⟨c, -, rfl⟩ := List.mem_map.mp h
  exact toUpper_eq_self (awayFromSmall_toUpper c)

/-- A text that occurs in another one occurs in it when both have the capital letters of ASCII. -/
theorem asciiUppercase_infix {s t : String} (h : s.toList <:+: t.toList) :
    (asciiUppercase s).toList <:+: (asciiUppercase t).toList := by
  rw [asciiUppercase, asciiUppercase, String.toList_ofList, String.toList_ofList]
  exact h.map Char.toUpper

/-- An upper-cased text does not occur in the same text with the capital letters of ASCII, unless
the two are equal. -/
theorem eq_of_uppercase_infix {s : String}
    (h : (uppercase s).toList <:+: (asciiUppercase s).toList) : asciiUppercase s = uppercase s := by
  have hlength : (asciiUppercase s).toList.length ≤ (uppercase s).toList.length := by
    rw [asciiUppercase, uppercase, String.toList_ofList, String.toList_ofList, List.length_map]
    exact length_le_length_uppercaseChars s.toList
  exact (String.toList_inj.mp (h.eq_of_length_le hlength)).symm

end Text

/-! ### What the database finds -/

namespace Sql

/-- SQLite without extensions: it knows the capital letters of ASCII only. -/
def Engine.sqlite : Engine := { Engine.standard .sqlite with upper := Text.asciiUppercase }

theorem Engine.sqlite_like : sqlite.like = (standard .sqlite).like := rfl

/-- SQLite without extensions takes the condition for a constraint to be true on the row. -/
def Finds {R : Type} [Record R] (row : R) (c : Constraint) : Prop :=
  ((Condition.backend .sqlite).constraint c).value (Atom.value Engine.sqlite row) = .yes

section Row

variable {R : Type} [Record R] {row : R} {field s : String}

/-- The condition for a constraint is nothing but its comparison. -/
theorem finds_iff {c : Constraint} :
    Finds row c ↔ (Condition.atomOf .sqlite c).value Engine.sqlite row = .yes := Iff.rfl

/-- The upper-cased column comes to the stored text with the capital letters of ASCII. -/
theorem datum_upper (hs : Record.field row field = some (.text s)) :
    (Operand.upper field).datum Engine.sqlite row = some (.text (Text.asciiUppercase s)) := by
  rw [Operand.datum, hs]
  rfl

/-- The row is found by a text that is equal without regard to case if the two folded texts are
equal. -/
theorem finds_equals_iff (hs : Record.field row field = some (.text s)) (value : String) :
    Finds row ⟨field, .equals value true⟩ ↔ Text.asciiUppercase s = Text.uppercase value := by
  have hatom : Condition.atomOf .sqlite ⟨field, .equals value true⟩ =
      .compare (.upper field) .equal (.string (Text.uppercase value)) := rfl
  rw [finds_iff, hatom, Atom.value_compare (datum_upper hs) rfl, Truth.ofBool_eq_yes_iff,
    Comparison.accepts, isEq_compare_toList, beq_iff_eq]

/-- The row is found by a text that occurs without regard to case if the folded value occurs in the
folded text. -/
theorem finds_contains_iff (hs : Record.field row field = some (.text s)) (value : String) :
    Finds row ⟨field, .contains value true⟩ ↔
      (Text.uppercase value).toList <:+: (Text.asciiUppercase s).toList := by
  have hatom : Condition.atomOf .sqlite ⟨field, .contains value true⟩ =
      .like (.upper field) (.string (Condition.likePattern (Text.uppercase value))) := rfl
  -- `LIKE` ignores the case of ASCII letters, but neither of the folded texts has a small one.
  have hlike : Engine.sqlite.like (Condition.likePattern (Text.uppercase value))
      (Text.asciiUppercase s) = Text.contains (Text.asciiUppercase s) (Text.uppercase value) := by
    rw [Engine.sqlite_like]
    exact like_likePattern .sqlite (Text.asciiUppercase s) (Text.uppercase value) fun _ ha _ hb ↦
      Dialect.sameChar_iff .sqlite (Text.toUpper_of_mem_uppercase ha)
        (Text.toUpper_of_mem_asciiUppercase hb)
  rw [finds_iff, hatom, Atom.value_like (datum_upper hs), Truth.ofBool_eq_yes_iff, hlike,
    Text.contains_iff]

end Row

/-- Ignoring case loses no exact match of a value in SQLite exactly if no character of the value
beyond ASCII has a capital letter: then, and only then, every row that stores the value is found by
equality, and every row that stores a text in which the value occurs is found by occurrence. -/
theorem keeps_exact_matches_iff (field value : String) :
    ((∀ (R : Type) [Record R] (row : R) (s : String), Record.field row field = some (.text s) →
        value = s → Finds row ⟨field, .equals value true⟩) ↔ Text.CapitalsInAscii value) ∧
      ((∀ (R : Type) [Record R] (row : R) (s : String), Record.field row field = some (.text s) →
        value.toList <:+: s.toList → Finds row ⟨field, .contains value true⟩) ↔
          Text.CapitalsInAscii value) := by
  -- A row that stores the value itself shows that the condition is needed.
  have hstored : Record.field (⟨fun _ ↦ some (.text value)⟩ : Row) field = some (.text value) := rfl
  rw [← Text.asciiUppercase_eq_iff]
  refine ⟨⟨fun h ↦ ?_, ?_⟩, fun h ↦ ?_, ?_⟩
  · exact (finds_equals_iff hstored value).mp (h Row _ value hstored rfl)
  · rintro hfold R _ row s hs rfl
    exact (finds_equals_iff hs value).mpr hfold
  · exact Text.eq_of_uppercase_infix ((finds_contains_iff hstored value).mp
      (h Row _ value hstored (List.infix_refl _)))
  · intro hfold R _ row s hs hoccurs
    rw [finds_contains_iff hs, ← hfold]
    exact Text.asciiUppercase_infix hoccurs

/-- The row that stores `é` is found neither by equality with `é` nor by its occurrence. -/
theorem loses_exact_matches :
    Record.field (Courses.row "é" none) "title" = some (.text "é") ∧
      ¬Finds (Courses.row "é" none) ⟨"title", .equals "é" true⟩ ∧
      ¬Finds (Courses.row "é" none) ⟨"title", .contains "é" true⟩ := by
  have hstored : Record.field (Courses.row "é" none) "title" = some (.text "é") := rfl
  have hfolds : Text.asciiUppercase "é" ≠ Text.uppercase "é" := by decide +kernel
  refine ⟨hstored, fun h ↦ hfolds ((finds_equals_iff hstored "é").mp h), fun h ↦ ?_⟩
  exact hfolds (Text.eq_of_uppercase_infix ((finds_contains_iff hstored "é").mp h))

end Sql

end Listing
