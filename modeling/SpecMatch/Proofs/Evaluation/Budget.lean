import SpecMatch.Proofs.Evaluation.Invariant

/-!
# Budgets

A budget only limits how deep an evaluation may go. A match that does not run into the limit is the
same with any larger budget (`create_of_budget_le`). So a law of two matches that holds on every
level holds in the library, unless one of the matches runs into the limit (`create_unless_limit`).
-/

namespace SpecMatch

/-- The one evaluation does what the other does, unless it runs into the nesting limit. -/
def Eval.Below {α : Type} (m m' : Eval α) : Prop :=
  ∀ w, (∃ w', m w = .error .nestingLimit w') ∨ m w = m' w

theorem Eval.Below.refl {α : Type} (m : Eval α) : m.Below m := fun _ => .inr rfl

theorem Eval.Below.seq {α β : Type} {m m' : Eval α} {f f' : α → Eval β} (hm : m.Below m')
    (hf : ∀ a, (f a).Below (f' a)) : (m >>= f).Below (m' >>= f') := by
  intro w
  rw [Eval.bind_apply, Eval.bind_apply]
  obtain ⟨w', limit⟩ | same := hm w
  · exact .inl ⟨w', by rw [limit]⟩
  · rw [← same]
    cases m w with
    | ok a w' => exact hf a w'
    | error fault w' => exact .inr rfl

theorem Eval.below_congruence : Eval.Congruence fun _ m m' => m.Below m' where
  answer _ := .refl _
  fail _ := .refl _
  seq := .seq
  store := .refl _
  note _ _ := .refl _
  emit _ _ := .refl _
  setCell _ _ _ := .refl _
  resetCell _ := .refl _

/-- Levels with nothing below them are below the same levels above anything else. -/
theorem interp_below_interpAbove (ctx : Context) (base : Interp) (levels : Nat) :
    (interp ctx levels).Related (fun _ m m' => m.Below m') (interpAbove ctx base levels) := by
  rw [interp_eq_interpAbove]
  exact interpAbove_related Eval.below_congruence ctx
    ⟨fun _ _ _ _ w => .inl ⟨w, rfl⟩, fun _ _ w => .inl ⟨w, rfl⟩⟩ levels

/-- A smaller budget is below a larger one. -/
theorem interp_below (ctx : Context) {budget budget' : Nat} (le : budget ≤ budget') :
    (interp ctx budget).Related (fun _ m m' => m.Below m') (interp ctx budget') := by
  obtain ⟨extra, rfl⟩ := Nat.exists_eq_add_of_le le
  rw [interp_add_eq_interpAbove]
  exact interp_below_interpAbove ctx (interp ctx extra) budget

/-- Matching that stays within its levels does not depend on what is below them. -/
theorem create_interpAbove (ctx : Context) (base : Interp) {levels : Nat}
    {spec value key : Term} {closed : Bool} {w : World}
    (within : ∀ w', (interp ctx levels).create spec value key closed w ≠ .error .nestingLimit w') :
    (interpAbove ctx base levels).create spec value key closed w =
      (interp ctx levels).create spec value key closed w := by
  obtain ⟨w', limit⟩ | same := (interp_below_interpAbove ctx base levels).create spec value key
    closed w
  · exact absurd limit (within w')
  · exact same.symm

/-- Matching that stays within a budget is the same with a larger one. -/
theorem create_of_budget_le (ctx : Context) {budget budget' : Nat} (le : budget ≤ budget')
    {spec value key : Term} {closed : Bool} {w : World}
    (within : ∀ w', (interp ctx budget).create spec value key closed w ≠ .error .nestingLimit w') :
    (interp ctx budget').create spec value key closed w =
      (interp ctx budget).create spec value key closed w := by
  obtain ⟨extra, rfl⟩ := Nat.exists_eq_add_of_le le
  rw [interp_add_eq_interpAbove]
  exact create_interpAbove ctx (interp ctx extra) within

/-- An answer within a budget is the answer with a larger one. -/
theorem create_ok_of_budget_le (ctx : Context) {budget budget' : Nat} (le : budget ≤ budget')
    {spec value key : Term} {closed : Bool} {w w' : World} {verdict : Verdict}
    (run : (interp ctx budget).create spec value key closed w = .ok verdict w') :
    (interp ctx budget').create spec value key closed w = .ok verdict w' :=
  (create_of_budget_le ctx le (by simp [run])).trans run

/-- The library always has the levels of the reserve. -/
theorem Store.reserve_le_budget (s : Store) (spec : Term) (arguments : List Term) :
    reserve ≤ s.budget spec arguments := by
  simp only [budget]
  omega

/-- The library always has a level. -/
theorem Store.exists_budget_succ (s : Store) (spec : Term) (arguments : List Term) :
    ∃ levels, s.budget spec arguments = levels + 1 := by
  have positive : 0 < s.budget spec arguments :=
    Nat.lt_of_lt_of_le (by decide) (s.reserve_le_budget spec arguments)
  exact Nat.exists_eq_add_one_of_ne_zero (Nat.ne_of_gt positive)

/-- What holds of two matches on every level holds of them in the library, which gives each its own
budget, unless one of them runs out of levels. -/
theorem create_unless_limit (ctx : Context) {spec spec' value value' key key' : Term}
    {closed closed' : Bool} {w w' : World}
    {Q : EStateM.Result Fault World Verdict → EStateM.Result Fault World Verdict → Prop}
    (each : ∀ levels, Q ((interp ctx levels).create spec value key closed w)
      ((interp ctx levels).create spec' value' key' closed' w')) :
    let run := create ctx spec value key closed w
    let run' := create ctx spec' value' key' closed' w'
    Q run run' ∨ (∃ v, run = .error .nestingLimit v) ∨ ∃ v, run' = .error .nestingLimit v := by
  intro run run'
  let budget := w.store.budget spec [value, key]
  let budget' := w'.store.budget spec' [value', key']
  have below := interp_below ctx (Nat.le_max_left budget budget')
  have below' := interp_below ctx (Nat.le_max_right budget budget')
  rcases below.create spec value key closed w with limit | same
  · exact .inr (.inl limit)
  rcases below'.create spec' value' key' closed' w' with limit' | same'
  · exact .inr (.inr limit')
  · have larger := each (max budget budget')
    rw [← same, ← same'] at larger
    exact .inl larger

end SpecMatch
