import SpecMatch.Proofs.Term.Keys
import SpecMatch.Term.Nesting

/-!
# Nesting of values

A child is nested less deeply than the container that it is in (`Term.nesting_lt_of_mem`), so what
is proved of a value may assume it of the children (`Term.children_induction`).
-/

namespace SpecMatch.Term

theorem nesting_pos (x : Term) : 0 < x.nesting := by
  cases x <;> exact Nat.succ_pos _

theorem nesting_le_of_mem_items {items : List Term} {x : Term} (mem : x ∈ items) :
    x.nesting ≤ nestingOfItems items := by
  induction items with
  | nil => cases mem
  | cons y ys ih =>
    rw [nestingOfItems]
    rcases List.mem_cons.1 mem with rfl | mem
    · exact Nat.le_max_left _ _
    · exact Nat.le_trans (ih mem) (Nat.le_max_right _ _)

theorem nesting_le_of_mem_pairs {pairs : List (Term × Term)} {p : Term × Term} (mem : p ∈ pairs) :
    p.2.nesting ≤ nestingOfPairs pairs := by
  induction pairs with
  | nil => cases mem
  | cons q qs ih =>
    rw [nestingOfPairs]
    rcases List.mem_cons.1 mem with rfl | mem
    · exact Nat.le_trans (Nat.le_max_right _ _) (Nat.le_max_left _ _)
    · exact Nat.le_trans (ih mem) (Nat.le_max_right _ _)

theorem nesting_le_of_mem_attributes {attributes : List (String × Term)} {a : String × Term}
    (mem : a ∈ attributes) : a.2.nesting ≤ nestingOfAttributes attributes := by
  induction attributes with
  | nil => cases mem
  | cons b bs ih =>
    rw [nestingOfAttributes]
    rcases List.mem_cons.1 mem with rfl | mem
    · exact Nat.le_max_left _ _
    · exact Nat.le_trans (ih mem) (Nat.le_max_right _ _)

/-- A child is nested less deeply than its container. -/
theorem nesting_lt_of_mem {x : Term} {e : Term × Term} (mem : e ∈ x.entries) :
    e.2.nesting < x.nesting := by
  cases x with
  | list items | tuple items =>
    obtain ⟨i, found, -⟩ := mem_positions.1 mem
    exact Nat.lt_succ_of_le (nesting_le_of_mem_items (List.mem_of_getElem? found))
  | map kind entries => exact Nat.lt_succ_of_le (nesting_le_of_mem_pairs mem)
  | fields attributes =>
    obtain ⟨a, ha, rfl⟩ := List.mem_map.1 mem
    exact Nat.lt_succ_of_le (nesting_le_of_mem_attributes ha)
  | _ => cases mem

/-- What holds of a term whenever it holds of the children holds of all terms. -/
@[elab_as_elim]
theorem children_induction {motive : Term → Prop}
    (step : ∀ x, (∀ e ∈ x.entries, motive e.2) → motive x) (x : Term) : motive x := by
  induction nesting : x.nesting using Nat.strongRecOn generalizing x with
  | _ n ih =>
  subst nesting
  exact step x fun e mem => ih _ (nesting_lt_of_mem mem) e.2 rfl

/-- What holds of every scalar, and of every container if it holds of the children, holds of all
terms. -/
@[elab_as_elim]
theorem container_induction {motive : Term → Prop}
    (scalar : ∀ x, x.isContainer = false → motive x)
    (container : ∀ x, x.isContainer → (∀ e ∈ x.entries, motive e.2) → motive x) (x : Term) :
    motive x := by
  induction x using children_induction with
  | step x ih =>
    cases form : x.isContainer with
    | false => exact scalar x form
    | true => exact container x form ih

/-! ## Sequences that are put together -/

theorem nestingOfItems_append (xs ys : List Term) :
    nestingOfItems (xs ++ ys) = max (nestingOfItems xs) (nestingOfItems ys) := by
  induction xs with
  | nil => simp [nestingOfItems]
  | cons x xs ih => rw [List.cons_append, nestingOfItems, ih, nestingOfItems, Nat.max_assoc]

theorem nestingOfPairs_append (ps qs : List (Term × Term)) :
    nestingOfPairs (ps ++ qs) = max (nestingOfPairs ps) (nestingOfPairs qs) := by
  induction ps with
  | nil => simp [nestingOfPairs]
  | cons p ps ih => simp only [List.cons_append, nestingOfPairs, ih, Nat.max_assoc]

theorem nestingOfAttributes_append (as bs : List (String × Term)) :
    nestingOfAttributes (as ++ bs) = max (nestingOfAttributes as) (nestingOfAttributes bs) := by
  induction as with
  | nil => simp [nestingOfAttributes]
  | cons a as ih =>
    rw [List.cons_append, nestingOfAttributes, ih, nestingOfAttributes, Nat.max_assoc]

end SpecMatch.Term
