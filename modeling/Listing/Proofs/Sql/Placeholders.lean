import Listing.Sql.Select
import Mathlib.Data.List.Basic

/-!
# Placeholders of a text

`Dialect.countPlaceholders` counts the placeholders in the text of a statement as a database does
that reads it: names are skipped from mark to mark, and a mark that is doubled inside a name ends
the name and begins it again. Whatever is quoted, the text of a statement has as many placeholders
as the statement binds values (`Select.countPlaceholders_text`).
-/

set_option autoImplicit false
set_option relaxedAutoImplicit false

namespace Listing.Sql

/-- The character that a placeholder begins with. -/
def Dialect.placeholderMark : Dialect → Char
  | .postgres => '$'
  | _ => '?'

/-- The number of placeholders in a text, if it is known whether the text begins inside a name. -/
def Dialect.countPlaceholders (d : Dialect) : Bool → List Char → Nat
  | _, [] => 0
  | insideName, c :: cs =>
    if c = d.nameMark then d.countPlaceholders (!insideName) cs
    else if c = d.placeholderMark ∧ insideName = false then d.countPlaceholders insideName cs + 1
    else d.countPlaceholders insideName cs

/-- The piece has no mark of a name or a placeholder in its text. -/
def Piece.Quiet (d : Dialect) : Piece → Prop
  | .verbatim s => ∀ c ∈ s.toList, c ≠ d.nameMark ∧ c ≠ d.placeholderMark
  | _ => True

instance (d : Dialect) (p : Piece) : Decidable (p.Quiet d) :=
  match p with
  | .verbatim s => List.decidableBAll (fun c ↦ c ≠ d.nameMark ∧ c ≠ d.placeholderMark) s.toList
  | .name _ => .isTrue trivial
  | .bound _ => .isTrue trivial

/-! ### Counting -/

namespace Dialect

variable (d : Dialect)

/-- A text without marks holds no placeholder. -/
theorem countPlaceholders_append {cs : List Char}
    (h : ∀ c ∈ cs, c ≠ d.nameMark ∧ c ≠ d.placeholderMark) (insideName : Bool)
    (rest : List Char) :
    d.countPlaceholders insideName (cs ++ rest) = d.countPlaceholders insideName rest := by
  induction cs with
  | nil => rfl
  | cons c cs ih =>
    obtain ⟨hname, hplaceholder⟩ := h c List.mem_cons_self
    rw [List.cons_append, countPlaceholders, if_neg hname, if_neg fun hc ↦ hplaceholder hc.1]
    exact ih fun c hc ↦ h c (List.mem_cons_of_mem _ hc)

/-- Behind the first mark a name goes on to its last mark, whatever it is. -/
theorem countPlaceholders_insideName (cs rest : List Char) :
    d.countPlaceholders true ((cs.flatMap fun c ↦ if c = d.nameMark then
      [d.nameMark, d.nameMark] else [c]) ++ d.nameMark :: rest) =
        d.countPlaceholders false rest := by
  induction cs with
  | nil =>
    rw [List.flatMap_nil, List.nil_append, countPlaceholders, if_pos rfl]
    rfl
  | cons c cs ih =>
    rw [List.flatMap_cons, List.append_assoc]
    by_cases hc : c = d.nameMark
    · -- The first of the two marks seems to end the name, the second one begins it again.
      rw [if_pos hc, List.cons_append, countPlaceholders, if_pos rfl, List.cons_append,
        countPlaceholders, if_pos rfl]
      exact ih
    · rw [if_neg hc, List.cons_append, countPlaceholders, if_neg hc,
        if_neg fun h ↦ Bool.noConfusion h.2]
      exact ih

/-- A name holds no placeholder. -/
theorem countPlaceholders_quoteName (name : String) (rest : List Char) :
    d.countPlaceholders false ((d.quoteName name).toList ++ rest) =
      d.countPlaceholders false rest := by
  rw [quoteName, String.toList_ofList, List.append_assoc, List.cons_append, countPlaceholders,
    if_pos rfl]
  exact d.countPlaceholders_insideName name.toList rest

/-- The digits of a number are no marks. -/
theorem quiet_toString (n : Nat) :
    ∀ c ∈ (toString n).toList, c ≠ d.nameMark ∧ c ≠ d.placeholderMark := by
  intro c hc
  have hdigit : c.isDigit = true := by
    rw [Nat.toString_eq_repr, Nat.toList_repr] at hc
    exact Nat.isDigit_of_mem_toDigits (by decide) (by decide) hc
  constructor
  · rintro rfl
    cases d <;> exact absurd hdigit (by decide)
  · rintro rfl
    cases d <;> exact absurd hdigit (by decide)

/-- A placeholder counts as one. -/
theorem countPlaceholders_placeholder (n : Nat) (rest : List Char) :
    d.countPlaceholders false ((d.placeholder n).toList ++ rest) =
      d.countPlaceholders false rest + 1 := by
  cases d with
  | postgres =>
    rw [placeholder, String.toList_append, List.append_assoc]
    exact congrArg (· + 1) (countPlaceholders_append _ (quiet_toString _ n) false rest)
  | sqlite => simp [placeholder, countPlaceholders, nameMark, placeholderMark]
  | mysql => simp [placeholder, countPlaceholders, nameMark, placeholderMark]

end Dialect

namespace Select

/-- The text of quiet pieces has a placeholder for each value that is bound. -/
theorem countPlaceholders_textFrom (d : Dialect) (n : Nat) {ps : List Piece}
    (h : ∀ p ∈ ps, p.Quiet d) :
    d.countPlaceholders false (textFrom d n ps).toList = (boundValues ps).length := by
  induction ps generalizing n with
  | nil => rfl
  | cons p ps ih =>
    have hrest : ∀ n, d.countPlaceholders false (textFrom d n ps).toList =
        (boundValues ps).length := fun n ↦ ih n fun p hp ↦ h p (List.mem_cons_of_mem _ hp)
    cases p with
    | verbatim s =>
      rw [textFrom, String.toList_append,
        Dialect.countPlaceholders_append d (h _ List.mem_cons_self)]
      exact hrest n
    | name s =>
      rw [textFrom, String.toList_append, Dialect.countPlaceholders_quoteName]
      exact hrest n
    | bound v =>
      rw [textFrom, String.toList_append, Dialect.countPlaceholders_placeholder, hrest]
      rfl

end Select

/-! ### The pieces of a statement -/

theorem Operand.quiet_pieces (d : Dialect) (o : Operand) : ∀ p ∈ o.pieces, p.Quiet d := by
  cases o <;> cases d <;> simp [pieces, Piece.Quiet] <;> decide

theorem Atom.quiet_pieces (d : Dialect) (a : Atom) : ∀ p ∈ a.pieces d, p.Quiet d := by
  cases a with
  | compare lhs comparison rhs =>
    refine List.forall_mem_append.mpr ⟨lhs.quiet_pieces d, ?_⟩
    cases comparison <;> cases d <;> simp [comparisonSign, Piece.Quiet] <;> decide
  | like lhs pattern =>
    refine List.forall_mem_append.mpr ⟨lhs.quiet_pieces d, ?_⟩
    cases d <;> simp [Dialect.backslashLiteral, Piece.Quiet] <;> decide

theorem quiet_parenthesized (d : Dialect) (needed : Bool) {ps : List Piece}
    (h : ∀ p ∈ ps, p.Quiet d) : ∀ p ∈ parenthesized needed ps, p.Quiet d := by
  cases needed with
  | false => exact h
  | true =>
    have hopening : (Piece.verbatim "(").Quiet d := by cases d <;> decide
    have hclosing : (Piece.verbatim ")").Quiet d := by cases d <;> decide
    rw [parenthesized, if_pos rfl]
    exact List.forall_mem_append.mpr
      ⟨List.forall_mem_cons.mpr ⟨hopening, h⟩, List.forall_mem_singleton.mpr hclosing⟩

theorem Clause.quiet_pieces (d : Dialect) (c : Clause) : ∀ p ∈ c.pieces d, p.Quiet d := by
  induction c with
  | truth =>
    have htruth : (Piece.verbatim "TRUE").Quiet d := by cases d <;> decide
    exact List.forall_mem_singleton.mpr htruth
  | atom a => exact a.quiet_pieces d
  | not c ih =>
    have hnot : (Piece.verbatim "NOT ").Quiet d := by cases d <;> decide
    exact List.forall_mem_cons.mpr ⟨hnot, quiet_parenthesized d _ ih⟩
  | join kind l r ihl ihr =>
    have hoperator : (Piece.verbatim kind.operator).Quiet d := by
      cases kind <;> cases d <;> decide
    exact List.forall_mem_append.mpr ⟨quiet_parenthesized d _ ihl,
      List.forall_mem_cons.mpr ⟨hoperator, quiet_parenthesized d _ ihr⟩⟩

theorem quiet_sortKeyPieces (d : Dialect) (k : SortKey) : ∀ p ∈ sortKeyPieces k, p.Quiet d := by
  obtain ⟨field, direction⟩ := k
  have hdirection : (Piece.verbatim (" " ++ direction.text)).Quiet d := by
    cases direction <;> cases d <;> decide
  exact List.forall_mem_cons.mpr ⟨trivial, List.forall_mem_singleton.mpr hdirection⟩

namespace Select

theorem quiet_conditionPieces (d : Dialect) (c : Option Condition) :
    ∀ p ∈ conditionPieces d c, p.Quiet d := by
  cases c with
  | none => exact List.forall_mem_nil _
  | some c =>
    have hwhere : (Piece.verbatim " WHERE ").Quiet d := by cases d <;> decide
    exact List.forall_mem_cons.mpr ⟨hwhere, c.clause.quiet_pieces d⟩

theorem quiet_orderPieces (d : Dialect) (o : SortOrder) : ∀ p ∈ orderPieces o, p.Quiet d := by
  obtain ⟨keys⟩ := o
  cases keys with
  | nil => exact List.forall_mem_nil _
  | cons k ks =>
    have horder : (Piece.verbatim " ORDER BY ").Quiet d := by cases d <;> decide
    have hcomma : (Piece.verbatim ", ").Quiet d := by cases d <;> decide
    refine List.forall_mem_append.mpr
      ⟨List.forall_mem_cons.mpr ⟨horder, quiet_sortKeyPieces d k⟩, ?_⟩
    intro p hp
    obtain ⟨key, -, hp⟩ := List.mem_flatMap.mp hp
    exact List.forall_mem_cons.mpr ⟨hcomma, quiet_sortKeyPieces d key⟩ p hp

theorem quiet_rangePieces (d : Dialect) (r : Option PageRange) :
    ∀ p ∈ rangePieces r, p.Quiet d := by
  cases r with
  | none => exact List.forall_mem_nil _
  | some r => cases d <;> simp [rangePieces, Piece.Quiet, Dialect.nameMark, Dialect.placeholderMark]

/-- The pieces of a statement are quiet. -/
theorem quiet_pieces (d : Dialect) (s : Select) : ∀ p ∈ s.pieces d, p.Quiet d := by
  have hsource : ∀ p ∈ [Piece.verbatim "SELECT ", .name s.source.table, .verbatim ".",
      .name s.source.column, .verbatim " FROM ", .name s.source.table], p.Quiet d := by
    cases d <;> simp [Piece.Quiet, Dialect.nameMark, Dialect.placeholderMark]
  rw [pieces]
  exact List.forall_mem_append.mpr ⟨List.forall_mem_append.mpr ⟨List.forall_mem_append.mpr
    ⟨hsource, quiet_conditionPieces d s.condition⟩, quiet_orderPieces d s.order⟩,
    quiet_rangePieces d s.range⟩

/-- The text of a statement has a placeholder for each value of the statement. -/
theorem countPlaceholders_text (d : Dialect) (s : Select) :
    d.countPlaceholders false (s.text d).toList = (s.values d).length :=
  countPlaceholders_textFrom d 1 (s.quiet_pieces d)

end Select

end Listing.Sql
