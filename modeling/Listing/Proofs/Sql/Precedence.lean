import Listing.Sql.Clause
import Mathlib.Data.List.Basic

/-!
# Reading by precedence

How a database makes one condition of a row of comparisons, operators and parentheses: `NOT` binds
more tightly than `AND`, and `AND` more tightly than `OR`; of two operators of one kind the left one
binds first. `Clause.ofItems?` reads the row from left to right. What waits for its right operand is
kept in front, and when an operator, a closing parenthesis or the end follows an operand, whatever
binds at least as tightly is completed first (`settle`).

The parentheses that are written around operands are the ones that are needed: a clause is read
again as it was written (`Clause.ofItems?_items`).
-/

set_option autoImplicit false
set_option relaxedAutoImplicit false

namespace Listing.Sql

/-- What a condition is written with, if comparisons count as one item. -/
inductive Item where
  | atom (a : Atom)
  | truth
  | not
  | operator (kind : Junction)
  | opening
  | closing
deriving DecidableEq

/-! ### Items of a clause -/

/-- Puts items into parentheses if asked to. -/
def Item.parenthesize (needed : Bool) (items : List Item) : List Item :=
  if needed then .opening :: items ++ [.closing] else items

/-- The items that a clause is written with. -/
def Clause.items : Clause → List Item
  | .truth => [.truth]
  | .atom a => [.atom a]
  | .not c => .not :: Item.parenthesize c.isJoin c.items
  | .join kind l r =>
    Item.parenthesize (l.guardedLeft kind) l.items ++
      .operator kind :: Item.parenthesize r.guardedRight r.items

/-! ### Reading items -/

/-- How tightly an operator binds. -/
def Junction.strength : Junction → Nat
  | .any => 1
  | .all => 2

/-- What waits for an operand. -/
inductive Pending where
  | opening
  | not
  | operator (kind : Junction) (l : Clause)

namespace Pending

/-- How tightly it binds; nothing reaches over an opening parenthesis. -/
def strength : Pending → Nat
  | opening => 0
  | operator kind _ => kind.strength
  | not => 3

/-- What becomes of it with its operand. -/
def complete : Pending → Clause → Clause
  | opening, c => c
  | not, c => .not c
  | operator kind l, c => .join kind l c

end Pending

/-- Completes with an operand what binds at least as tightly as what follows. -/
def settle (strength : Nat) : List Pending → Clause → List Pending × Clause
  | [], c => ([], c)
  | p :: ps, c =>
    if strength ≤ p.strength then settle strength ps (p.complete c) else (p :: ps, c)

/-- Where a reader stands: what waits for operands, the last one first, and the operand that was
read last, if the reader is behind one. -/
structure Reading where
  pending : List Pending
  operand : Option Clause

namespace Reading

/-- Reads one item. -/
def step : Reading → Item → Option Reading
  | ⟨ps, none⟩, .atom a => some ⟨ps, some (.atom a)⟩
  | ⟨ps, none⟩, .truth => some ⟨ps, some .truth⟩
  | ⟨ps, none⟩, .not => some ⟨.not :: ps, none⟩
  | ⟨ps, none⟩, .opening => some ⟨.opening :: ps, none⟩
  | ⟨ps, some c⟩, .operator kind =>
    let (rest, l) := settle kind.strength ps c
    some ⟨.operator kind l :: rest, none⟩
  | ⟨ps, some c⟩, .closing =>
    match settle 1 ps c with
    | (.opening :: rest, inner) => some ⟨rest, some inner⟩
    | _ => none
  | _, _ => none

/-- What was read, at the end. -/
def finish? : Reading → Option Clause
  | ⟨ps, some c⟩ =>
    match settle 1 ps c with
    | ([], whole) => some whole
    | _ => none
  | _ => none

end Reading

/-- Reads a row of items. -/
def Clause.ofItems? (items : List Item) : Option Clause :=
  (items.foldlM Reading.step ⟨[], none⟩).bind Reading.finish?

/-! ### Reading what was written -/

/-- Every operator binds. -/
theorem Junction.one_le_strength (kind : Junction) : 1 ≤ kind.strength := by
  cases kind <;> decide

/-- Every operator binds less tightly than `NOT`. -/
theorem Junction.strength_le (kind : Junction) : kind.strength ≤ 2 := by
  cases kind <;> decide

namespace Clause

/-- How tightly the parts of a clause hold together without parentheses. -/
def strength : Clause → Nat
  | .join kind _ _ => kind.strength
  | _ => 3

/-- Without parentheses the clause is read as one operand of what waits for it: what waits last
does not bind as tightly as the operator of the clause. -/
def Fits (ps : List Pending) : Clause → Prop
  | .join kind _ _ => ∀ p ∈ ps.head?, p.strength < kind.strength
  | _ => True

/-- The parts of every clause hold together. -/
theorem one_le_strength (c : Clause) : 1 ≤ c.strength := by
  cases c with
  | join kind _ _ => exact kind.one_le_strength
  | _ => exact Nat.le_add_left 1 2

/-- Where nothing waits, or only an opening parenthesis, every clause fits. -/
theorem fits_of_strength_eq_zero {ps : List Pending} (c : Clause)
    (h : ∀ p ∈ ps.head?, p.strength = 0) : c.Fits ps := by
  cases c with
  | join kind _ _ => exact fun p hp ↦ h p hp ▸ kind.one_le_strength
  | _ => trivial

end Clause

/-- The reader stands where it would stand behind the clause as a single operand, for all that
follows and binds at most as tightly as the given strength. -/
def Reading.IsBehind (r : Reading) (strength : Nat) (ps : List Pending) (c : Clause) : Prop :=
  ∃ qs x, r = ⟨qs, some x⟩ ∧ ∀ s ≤ strength, settle s qs x = settle s ps c

namespace Reading

theorem isBehind_self (strength : Nat) (ps : List Pending) (c : Clause) :
    IsBehind ⟨ps, some c⟩ strength ps c := ⟨ps, c, rfl, fun _ _ ↦ rfl⟩

theorem IsBehind.mono {r : Reading} {s t : Nat} {ps : List Pending} {c : Clause}
    (h : r.IsBehind t ps c) (hle : s ≤ t) : r.IsBehind s ps c := by
  obtain ⟨qs, x, hr, hsettle⟩ := h
  exact ⟨qs, x, hr, fun u hu ↦ hsettle u (Nat.le_trans hu hle)⟩

/-- Behind the operand of what waits last, the reader stands behind the clause that this becomes. -/
theorem IsBehind.complete {r : Reading} {s : Nat} {p : Pending} {ps : List Pending} {c : Clause}
    (h : r.IsBehind s (p :: ps) c) (hle : s ≤ p.strength) : r.IsBehind s ps (p.complete c) := by
  obtain ⟨qs, x, hr, hsettle⟩ := h
  refine ⟨qs, x, hr, fun t ht ↦ ?_⟩
  rw [hsettle t ht, settle, if_pos (Nat.le_trans ht hle)]

/-- What waits last is not completed if it binds less tightly. -/
theorem settle_eq_self {strength : Nat} {ps : List Pending} {c : Clause}
    (h : ∀ p ∈ ps.head?, p.strength < strength) : settle strength ps c = (ps, c) := by
  cases ps with
  | nil => rfl
  | cons p ps =>
    have hp : ¬strength ≤ p.strength := Nat.not_le_of_lt (h p rfl)
    rw [settle, if_neg hp]

variable {ps : List Pending} {c : Clause} {items : List Item}

/-- Assumes: the items of a clause are read as one operand behind an opening parenthesis. Then they
are read as one operand in parentheses. -/
theorem foldlM_parenthesize
    (h : ∃ r, items.foldlM step ⟨.opening :: ps, none⟩ = some r ∧
      r.IsBehind 1 (.opening :: ps) c) :
    (Item.parenthesize true items).foldlM step ⟨ps, none⟩ = some ⟨ps, some c⟩ := by
  obtain ⟨r, hr, qs, x, rfl, hsettle⟩ := h
  have hclose : settle 1 qs x = (.opening :: ps, c) := by
    rw [hsettle 1 (Nat.le_refl 1)]
    exact settle_eq_self fun p hp ↦ Option.some.inj hp ▸ Nat.one_pos
  have hclosing : step ⟨qs, some x⟩ .closing = some ⟨ps, some c⟩ := by
    rw [step, hclose]
  rw [Item.parenthesize, if_pos rfl, List.cons_append, List.foldlM_cons]
  change (items ++ [Item.closing]).foldlM step ⟨.opening :: ps, none⟩ = _
  rw [List.foldlM_append, hr]
  exact congrArg (· >>= fun r ↦ some r) hclosing

/-- Assumes: a clause is read as one operand wherever it fits. Then it is read as one operand
wherever it has the parentheses that it needs. -/
theorem foldlM_operand
    (hread : ∀ ps, c.Fits ps → ∃ r, c.items.foldlM step ⟨ps, none⟩ = some r ∧
      r.IsBehind c.strength ps c)
    {needed : Bool} {strength : Nat}
    (hneeded : needed = false → c.Fits ps ∧ strength ≤ c.strength) :
    ∃ r, (Item.parenthesize needed c.items).foldlM step ⟨ps, none⟩ = some r ∧
      r.IsBehind strength ps c := by
  cases needed with
  | false =>
    obtain ⟨hfits, hle⟩ := hneeded rfl
    obtain ⟨r, hr, hbehind⟩ := hread ps hfits
    exact ⟨r, hr, hbehind.mono hle⟩
  | true =>
    have hfits : c.Fits (.opening :: ps) :=
      c.fits_of_strength_eq_zero fun p hp ↦ Option.some.inj hp ▸ rfl
    obtain ⟨r, hr, hbehind⟩ := hread _ hfits
    exact ⟨_, foldlM_parenthesize ⟨r, hr, hbehind.mono c.one_le_strength⟩, isBehind_self _ _ _⟩

/-- Behind an operand, an operator that binds more tightly than what waits takes the operand. -/
theorem IsBehind.step_operator {r : Reading} {kind : Junction}
    (h : r.IsBehind kind.strength ps c) (hps : ∀ p ∈ ps.head?, p.strength < kind.strength) :
    r.step (.operator kind) = some ⟨.operator kind c :: ps, none⟩ := by
  obtain ⟨qs, x, rfl, hsettle⟩ := h
  rw [step, hsettle _ (Nat.le_refl _), settle_eq_self hps]

end Reading

namespace Clause

open Reading (step)

/-- A left operand without parentheses fits where the junction does, and binds as tightly. -/
theorem fits_of_guardedLeft_eq_false {kind : Junction} {l : Clause} {ps : List Pending}
    (h : l.guardedLeft kind = false) (hps : ∀ p ∈ ps.head?, p.strength < kind.strength) :
    l.Fits ps ∧ kind.strength ≤ l.strength := by
  cases l with
  | join k _ _ =>
    obtain rfl : k = kind := by simpa [guardedLeft] using h
    exact ⟨hps, Nat.le_refl _⟩
  | not c => exact nomatch h
  | _ => exact ⟨trivial, Nat.le_trans kind.strength_le (Nat.le_succ 2)⟩

/-- A clause is read as one operand wherever it fits. -/
theorem foldlM_items (c : Clause) (ps : List Pending) (hfits : c.Fits ps) :
    ∃ r, c.items.foldlM step ⟨ps, none⟩ = some r ∧ r.IsBehind c.strength ps c := by
  induction c generalizing ps with
  | truth => exact ⟨_, rfl, Reading.isBehind_self _ _ _⟩
  | atom a => exact ⟨_, rfl, Reading.isBehind_self _ _ _⟩
  | not c ih =>
    have hneeded : c.isJoin = false → c.Fits (.not :: ps) ∧ 3 ≤ c.strength := by
      intro hjoin
      cases c with
      | join _ _ _ => exact nomatch hjoin
      | _ => exact ⟨trivial, Nat.le_refl 3⟩
    obtain ⟨r, hr, hbehind⟩ := Reading.foldlM_operand ih hneeded
    exact ⟨r, hr, hbehind.complete (Nat.le_refl 3)⟩
  | join kind l r ihl ihr =>
    have hneededLeft : l.guardedLeft kind = false → l.Fits ps ∧ kind.strength ≤ l.strength :=
      fun hguarded ↦ fits_of_guardedLeft_eq_false hguarded hfits
    have hneededRight : r.guardedRight = false →
        r.Fits (.operator kind l :: ps) ∧ kind.strength ≤ r.strength := by
      intro hguarded
      cases r with
      | join _ _ _ => exact nomatch hguarded
      | not _ => exact nomatch hguarded
      | _ => exact ⟨trivial, Nat.le_trans kind.strength_le (Nat.le_succ 2)⟩
    -- The left operand is read behind what waits for the whole clause, the right one behind the
    -- operator too.
    obtain ⟨left, hleft, hbehindLeft⟩ := Reading.foldlM_operand ihl hneededLeft
    obtain ⟨right, hright, hbehindRight⟩ := Reading.foldlM_operand ihr hneededRight
    refine ⟨right, ?_, hbehindRight.complete (Nat.le_refl _)⟩
    rw [items, List.foldlM_append, hleft]
    change (Item.operator kind :: Item.parenthesize r.guardedRight r.items).foldlM step left = _
    rw [List.foldlM_cons, hbehindLeft.step_operator hfits]
    exact hright

/-- A clause is read again as it was written. -/
theorem ofItems?_items (c : Clause) : ofItems? c.items = some c := by
  have hfits : c.Fits [] := c.fits_of_strength_eq_zero fun p hp ↦ nomatch hp
  obtain ⟨r, hr, qs, x, rfl, hsettle⟩ := foldlM_items c [] hfits
  rw [ofItems?, hr, Option.bind_some, Reading.finish?, hsettle 1 c.one_le_strength]
  rfl

end Clause

end Listing.Sql
