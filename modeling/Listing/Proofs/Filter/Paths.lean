import Listing.Filter.Compile
import Listing.Proofs.Filter.RoundTrip

/-!
# Ways down through a filter

`Filter.Path` is a way from the root of a filter to one of its nodes, and says through which clauses
it goes. The depth of a filter is the number of nodes on its longest way down
(`Filter.depth_le_iff`). Each step of a way takes one container of the written filter if it goes
through `not`, and two if it goes through a list (`Filter.Path.levels_le`).

`Filter.foldWithin` is a fold with a stack of a given size. It ends with the result of the fold if
the stack is at least as large as the filter is deep, and overflows otherwise
(`Filter.foldWithin_eq`).
-/

set_option autoImplicit false
set_option relaxedAutoImplicit false

namespace Listing

namespace Filter

variable {shape : Shape} {α : Type}

/-! ### Paths -/

/-- The children that a node has in a clause. -/
def children (f : Filter shape) : Clause → List (Filter shape)
  | .and => f.and
  | .or => f.or
  | .not => f.not.toList

/-- A way down from a filter to a node of it, through these clauses. -/
inductive Path : Filter shape → List Clause → Filter shape → Prop
  | here (f : Filter shape) : Path f [] f
  | down {f g h : Filter shape} {clause : Clause} {clauses : List Clause}
      (hchild : g ∈ f.children clause) (hrest : Path g clauses h) : Path f (clause :: clauses) h

/-- A property of the children in every clause. -/
theorem forall_mem_children_iff {f : Filter shape} {P : Filter shape → Prop} :
    (∀ clause, ∀ g ∈ f.children clause, P g) ↔
      (∀ g ∈ f.and, P g) ∧ (∀ g ∈ f.or, P g) ∧ ∀ g ∈ f.not, P g := by
  constructor
  · intro h
    exact ⟨h .and, h .or, fun g hg ↦ h .not g (Option.mem_toList.mpr hg)⟩
  · rintro ⟨hand, hor, hnot⟩ clause g hg
    cases clause with
    | and => exact hand g hg
    | or => exact hor g hg
    | not => exact hnot g (Option.mem_toList.mp hg)

/-- A node has depth one more than the deepest of its children. -/
theorem depth_le_succ_iff {f : Filter shape} {n : Nat} :
    f.depth ≤ n + 1 ↔ ∀ clause, ∀ g ∈ f.children clause, g.depth ≤ n := by
  have hmax : ∀ ds : List Nat, ds.foldr max 0 ≤ n ↔ ∀ d ∈ ds, d ≤ n := by
    intro ds
    induction ds with
    | nil => exact iff_of_true (Nat.zero_le n) nofun
    | cons d ds ih => rw [List.foldr_cons, Nat.max_le, ih, List.forall_mem_cons]
  have hnot : (∀ d ∈ (f.not.map depth).toList, d ≤ n) ↔ ∀ g ∈ f.not, g.depth ≤ n := by
    cases f.not <;> simp
  rw [forall_mem_children_iff, depth, fold_eq, ← depth, Nat.add_comm, Nat.add_le_add_iff_right,
    hmax]
  simp only [List.forall_mem_append, List.forall_mem_map, hnot, and_assoc]

theorem depth_pos (f : Filter shape) : 0 < f.depth := by
  rw [depth, fold_eq, Nat.add_comm]
  exact Nat.succ_pos _

/-- A filter is as deep as its longest way down is long. -/
theorem depth_le_iff {f : Filter shape} {n : Nat} :
    f.depth ≤ n ↔ ∀ clauses g, f.Path clauses g → clauses.length < n := by
  induction n generalizing f with
  | zero =>
    refine iff_of_false (Nat.not_le.mpr f.depth_pos) fun h ↦ ?_
    exact Nat.not_lt_zero _ (h [] f (.here f))
  | succ n ih =>
    rw [depth_le_succ_iff]
    constructor
    · intro h clauses g hpath
      cases hpath with
      | here => exact Nat.succ_pos n
      | down hchild hrest => exact Nat.succ_lt_succ (ih.mp (h _ _ hchild) _ _ hrest)
    · intro h clause g hchild
      refine ih.mpr fun clauses g' hpath ↦ ?_
      exact Nat.lt_of_succ_lt_succ (h (clause :: clauses) g' (.down hchild hpath))

/-! ### Paths and containers -/

/-- How many containers of a written filter lie between a node and its child. -/
def Clause.levels : Clause → Nat
  | .and => 2
  | .or => 2
  | .not => 1

/-- How many containers lie between the nodes of a way down. -/
def levels : List Clause → Nat
  | [] => 0
  | clause :: clauses => clause.levels + levels clauses

/-- The containers between the nodes of a way are one for each step through `not` and two for each
step through a list. -/
theorem levels_eq (clauses : List Clause) :
    levels clauses = clauses.count .not + 2 * (clauses.count .and + clauses.count .or) := by
  induction clauses with
  | nil => rfl
  | cons clause clauses ih =>
    have hcount (c : Clause) :
        (clause :: clauses).count c = clauses.count c + if clause = c then 1 else 0 := by
      simp only [List.count_cons, beq_iff_eq]
    have hclause : clause.levels = (if clause = .not then 1 else 0) +
        2 * ((if clause = .and then 1 else 0) + if clause = .or then 1 else 0) := by
      cases clause <;> rfl
    rw [levels, ih, hclause, hcount, hcount, hcount]
    omega

/-- Every step of a way lies in a container of its own. -/
theorem length_le_levels (clauses : List Clause) : clauses.length ≤ levels clauses := by
  induction clauses with
  | nil => exact Nat.le_refl 0
  | cons clause clauses ih =>
    have hclause : 1 ≤ clause.levels := by
      cases clause <;> decide
    rw [levels, List.length_cons, Nat.add_comm]
    exact Nat.add_le_add hclause ih

theorem encode_depth_pos (f : Filter shape) : 0 < f.encode.depth := by
  rw [encode_eq, Json.Value.depth_record, Nat.add_comm]
  exact Nat.succ_pos _

/-- A child stands in the containers of its node, and in those that lie between. -/
theorem levels_add_depth_le {f g : Filter shape} {clause : Clause}
    (hchild : g ∈ f.children clause) : clause.levels + g.encode.depth ≤ f.encode.depth := by
  obtain ⟨room, hroom⟩ := Nat.exists_eq_succ_of_ne_zero (Nat.pos_iff_ne_zero.mp f.encode_depth_pos)
  have hfits : f.Fits room := fits_iff.mp (Nat.le_of_eq hroom)
  have hlist {fs : List (Filter shape)} (hg : g ∈ fs)
      (h : ∀ v ∈ encodeChildren (fs.map encode), v.depth ≤ room) : 1 + g.encode.depth ≤ room := by
    have hne : encodeChildren (fs.map encode) = some (.array (fs.map encode)) := by
      cases fs with
      | nil => exact absurd hg List.not_mem_nil
      | cons g' fs => rfl
    have hitems := Json.Value.depth_le_depthItems (List.mem_map_of_mem (f := encode) hg)
    exact Nat.le_trans (Nat.add_le_add_left hitems 1) (h _ hne)
  rw [hroom]
  cases clause with
  | and =>
    have := hlist hchild hfits.and
    rw [Clause.levels]
    omega
  | or =>
    have := hlist hchild hfits.or
    rw [Clause.levels]
    omega
  | not =>
    have := hfits.not g (Option.mem_toList.mp hchild)
    rw [Clause.levels]
    omega

/-- The nodes of a way stand in the containers that lie between them, and the first one in a
container of its own. -/
theorem Path.levels_le {f g : Filter shape} {clauses : List Clause} (h : f.Path clauses g) :
    1 + levels clauses ≤ f.encode.depth := by
  induction h with
  | here f => exact f.encode_depth_pos
  | @down f g h clause clauses hchild hrest ih =>
    have hstep : clause.levels + g.encode.depth ≤ f.encode.depth := levels_add_depth_le hchild
    rw [levels]
    omega

/-- A filter is at most as deep as it is nested when it is written. -/
theorem depth_le_depth_encode (f : Filter shape) : f.depth ≤ f.encode.depth := by
  refine depth_le_iff.mpr fun clauses g hpath ↦ ?_
  have hlevels := hpath.levels_le
  have hlength := length_le_levels clauses
  omega

/-! ### Folds with a bounded stack -/

/-- The fold with a stack of so many frames. Each call takes a frame for as long as it and the calls
that it makes are running; without a frame the stack overflows. -/
def foldWithin (node : Slots shape.fields → List α → List α → Option α → α) :
    Nat → Filter shape → Option α
  | 0, _ => none
  | frames + 1, f => do
    let and ← f.and.mapM (foldWithin node frames)
    let or ← f.or.mapM (foldWithin node frames)
    let not ← f.not.mapM (foldWithin node frames)
    return node f.own and or not

/-- Assumes: for each filter of a list, the call ends if the stack has as many frames as the filter
is deep. Calls that are made one after the other share the stack, so it must do for each of them. -/
theorem mapM_foldWithin_eq_some_iff
    {node : Slots shape.fields → List α → List α → Option α → α} {frames : Nat}
    {fs : List (Filter shape)} {as : List α}
    (h : ∀ g ∈ fs, ∀ a, foldWithin node frames g = some a ↔ g.depth ≤ frames ∧ fold node g = a) :
    fs.mapM (foldWithin node frames) = some as ↔
      (∀ g ∈ fs, g.depth ≤ frames) ∧ fs.map (fold node) = as := by
  induction fs generalizing as with
  | nil => simp
  | cons f fs ih =>
    obtain ⟨hf, hfs⟩ := List.forall_mem_cons.mp h
    simp only [List.mapM_cons, Option.bind_eq_bind, Option.bind_eq_some_iff, hf, ih hfs,
      List.forall_mem_cons, List.map_cons]
    constructor
    · rintro ⟨a, ⟨hdepth, rfl⟩, as', ⟨hdepths, rfl⟩, has⟩
      exact ⟨⟨hdepth, hdepths⟩, Option.some.inj has⟩
    · rintro ⟨⟨hdepth, hdepths⟩, rfl⟩
      exact ⟨_, ⟨hdepth, rfl⟩, _, ⟨hdepths, rfl⟩, rfl⟩

/-- A fold ends if the stack has as many frames as the filter is deep, and overflows otherwise. -/
theorem foldWithin_eq_some_iff {node : Slots shape.fields → List α → List α → Option α → α}
    {frames : Nat} {f : Filter shape} {a : α} :
    foldWithin node frames f = some a ↔ f.depth ≤ frames ∧ fold node f = a := by
  induction frames generalizing f a with
  | zero => exact iff_of_false nofun fun h ↦ Nat.not_lt_zero _ (Nat.lt_of_lt_of_le f.depth_pos h.1)
  | succ frames ih =>
    have hlist (fs : List (Filter shape)) (as : List α) :
        fs.mapM (foldWithin node frames) = some as ↔
          (∀ g ∈ fs, g.depth ≤ frames) ∧ fs.map (fold node) = as :=
      mapM_foldWithin_eq_some_iff fun _ _ _ ↦ ih
    have hoption (o : Option α) : f.not.mapM (foldWithin node frames) = some o ↔
        (∀ g ∈ f.not, g.depth ≤ frames) ∧ f.not.map (fold node) = o := by
      cases f.not with
      | none => simp
      | some g => simp [ih]
    rw [fold_eq, depth_le_succ_iff, forall_mem_children_iff]
    simp only [foldWithin, Option.bind_eq_bind, Option.bind_eq_some_iff, hlist, hoption]
    constructor
    · rintro ⟨and, ⟨hand, rfl⟩, or, ⟨hor, rfl⟩, not, ⟨hnot, rfl⟩, ha⟩
      exact ⟨⟨hand, hor, hnot⟩, Option.some.inj ha⟩
    · rintro ⟨⟨hand, hor, hnot⟩, rfl⟩
      exact ⟨_, ⟨hand, rfl⟩, _, ⟨hor, rfl⟩, _, ⟨hnot, rfl⟩, rfl⟩

end Filter

end Listing
