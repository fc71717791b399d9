import SpecMatch.Proofs.Evaluation.Budget
import SpecMatch.Proofs.Evaluation.Outcome
import SpecMatch.Proofs.Matching.Forms
import SpecMatch.Proofs.Spec.MapForm

/-!
# Laws of the connectives

A conjunction is decided by the first rejection and a disjunction by the first acceptance. Apart
from this they are the same (`decided`), so what holds of the one holds of the other.

A negated connective is the other connective of the negations (`accepts_de_morgan`), and a
connective inside one of the same kind may as well be written in line (`connectives_flatten`). Both
laws hold with everything that the specs do on the way: the two sides stop at the same spec. The
first is about acceptance, since a negation forgets the payload; the second is about both
projections as well.
-/

namespace SpecMatch

/-- The connective that is decided by the first acceptance, or by the first rejection. -/
def Term.connective : (decisive : Bool) → List Term → Term
  | true => .anyOf
  | false => .allOf

/-- Matches specs in order up to the first one that decides, whose verdict is handed on. -/
def decided (i : Interp) (decisive : Bool) (value key : Term) : List Term → Eval Verdict
  | [] => pure (.when (!decisive) value)
  | spec :: rest => do
    let verdict ← i.create spec value key false
    if verdict.accepted = decisive then return .when decisive verdict.toTerm
    else decided i decisive value key rest

theorem allOf_eq_decided (i : Interp) (value key : Term) (specs : List Term) :
    allOf i value key specs = decided i false value key specs := by
  induction specs with
  | nil => rfl
  | cons spec rest ih =>
    rw [allOf, decided, ih]
    refine bind_congr fun verdict => ?_
    cases verdict <;> rfl

theorem anyOf_eq_decided (i : Interp) (value key : Term) (specs : List Term) :
    anyOf i value key specs = decided i true value key specs := by
  induction specs with
  | nil => rfl
  | cons spec rest ih =>
    rw [anyOf, decided, ih]
    refine bind_congr fun verdict => ?_
    cases verdict <;> rfl

theorem create_connective (ctx : Context) (levels : Nat) (decisive : Bool) (specs : List Term)
    (value key : Term) (closed : Bool) :
    (interp ctx (levels + 1)).create (.connective decisive specs) value key closed =
      decided (interp ctx levels) decisive value key specs := by
  cases decisive with
  | false => exact (create_allOf ..).trans (allOf_eq_decided ..)
  | true => exact (create_anyOf ..).trans (anyOf_eq_decided ..)

/-! ## Negations -/

section

variable (ctx : Context) (levels : Nat) (value key : Term)

/-- A negation accepts what its spec rejects. -/
theorem accepts_negation (spec : Term) :
    (interp ctx (levels + 1)).accepts (.negation spec) value key = (do
      return !(← (interp ctx levels).accepts spec value key)) := by
  simp only [Interp.accepts, create_negation, bind_assoc, pure_bind, Verdict.accepted_when]

theorem accepts_connective_nil (decisive : Bool) :
    (interp ctx (levels + 1)).accepts (.connective decisive []) value key = pure (!decisive) := by
  rw [Interp.accepts, create_connective, decided, pure_bind, Verdict.accepted_when]

/-- A connective accepts as its first spec does if that decides, else as the others do. -/
theorem accepts_connective_cons (decisive : Bool) (spec : Term) (rest : List Term) :
    (interp ctx (levels + 1)).accepts (.connective decisive (spec :: rest)) value key = (do
      if (← (interp ctx levels).accepts spec value key) = decisive then return decisive
      else (interp ctx (levels + 1)).accepts (.connective decisive rest) value key) := by
  simp only [Interp.accepts, create_connective, decided, bind_assoc, pure_bind]
  refine bind_congr fun verdict => ?_
  split
  · rw [pure_bind, Verdict.accepted_when]
  · rfl

/-- A negated connective is the other connective of the negations, on every level that leaves one
for the specs. -/
theorem accepts_negation_connective (decisive : Bool) (specs : List Term) :
    (interp ctx (levels + 2)).accepts (.negation (.connective decisive specs)) value key =
      (interp ctx (levels + 2)).accepts (.connective (!decisive) (specs.map .negation)) value
        key := by
  rw [accepts_negation]
  induction specs with
  | nil => rw [List.map_nil, accepts_connective_nil, accepts_connective_nil, pure_bind]
  | cons spec rest ih =>
    rw [List.map_cons, accepts_connective_cons, accepts_connective_cons, accepts_negation, ← ih]
    simp only [bind_assoc, pure_bind]
    refine bind_congr fun accepted => ?_
    cases accepted <;> cases decisive <;> rfl

theorem accepts_negation_negation (spec : Term) :
    (interp ctx (levels + 2)).accepts (.negation (.negation spec)) value key =
      (interp ctx levels).accepts spec value key := by
  simp only [accepts_negation, bind_assoc, pure_bind, Bool.not_not, bind_pure]

end

/-! ### Budgets -/

/-- The negations of some specs are a level above the specs. -/
theorem Term.deepest_negations (measure : Nat → Option Nat) (spec : Term) (rest : List Term) :
    deepest measure ((spec :: rest).map .negation) =
        (deepest measure (spec :: rest)).map (1 + ·) ∧
      nestingOfItems ((spec :: rest).map .negation) = nestingOfItems (spec :: rest) + 1 := by
  induction rest generalizing spec with
  | nil =>
    constructor
    · cases depth : depthWith measure spec <;> simp [deepest, depthWith, depth]
    · simp [nestingOfItems, nesting]
  | cons next rest ih =>
    obtain ⟨depth, nested⟩ := ih next
    rw [List.map_cons, deepest, nestingOfItems, depth, nested]
    constructor
    · rw [deepest.eq_2 measure spec]
      cases depthWith_spec : depthWith measure spec <;>
        cases deepest measure (next :: rest) <;>
        simp [depthWith, depthWith_spec, Nat.add_max_add_left]
    · exact Nat.add_max_add_right _ _ 1

/-- The two sides of De Morgan's law are given the same budget. -/
theorem Store.budget_negation_connective (s : Store) (decisive : Bool) (spec : Term)
    (rest arguments : List Term) :
    s.budget (.negation (.connective decisive (spec :: rest))) arguments =
      s.budget (.connective (!decisive) ((spec :: rest).map .negation)) arguments := by
  obtain ⟨depth, nested⟩ := Term.deepest_negations (s.varDepth s.depth?) spec rest
  refine Store.budget_congr ?_ arguments
  cases decisive with
  | false | true =>
    exact ⟨congrArg (Option.map (1 + ·)) depth.symm, congrArg (· + 1) nested.symm⟩

/-- A double negation has room for two levels more. -/
theorem Store.budget_negation_negation (s : Store) (spec : Term) (arguments : List Term) :
    s.budget spec arguments + 2 ≤ s.budget (.negation (.negation spec)) arguments := by
  have depth : s.depth? (.negation (.negation spec)) =
      ((s.depth? spec).map (1 + ·)).map (1 + ·) := by
    rw [s.depth?_eq]
    rfl
  have deeper : (s.depth? spec).getD 0 ≤
      (((s.depth? spec).map (1 + ·)).map (1 + ·)).getD 0 := by
    cases s.depth? spec with
    | none => exact Nat.le_refl 0
    | some d =>
      simp only [Option.map_some, Option.getD_some]
      omega
  have nested : spec.negation.negation.nesting = spec.nesting + 2 := rfl
  have programs (functions : Nat) :
      (s.constraintNesting + (spec.nesting + 2 + functions)) *
          (Term.totalNesting arguments + 2) =
        (s.constraintNesting + (spec.nesting + functions)) * (Term.totalNesting arguments + 2) +
          2 * (Term.totalNesting arguments + 2) := by
    rw [← Nat.add_mul]
    congr 1
    omega
  simp only [budget, depth, Term.totalNesting, nested, programs]
  omega

/-! ### De Morgan's laws -/

theorem accepts_apply (ctx : Context) (spec value key : Term) (w : World) :
    accepts ctx spec value key false w =
      (interp ctx (w.store.budget spec [value, key])).accepts spec value key false w := rfl

/-- De Morgan's law for both connectives: the two sides are the same in the library. -/
theorem accepts_library_negation_connective (ctx : Context) (decisive : Bool) (specs : List Term)
    (value key : Term) :
    accepts ctx (.negation (.connective decisive specs)) value key =
      accepts ctx (.connective (!decisive) (specs.map .negation)) value key := by
  funext w
  rw [accepts_apply, accepts_apply]
  have enough (spec : Term) : ∃ levels, w.store.budget spec [value, key] = levels + 2 :=
    Nat.exists_eq_add_of_le' (Nat.le_trans (by decide) (w.store.reserve_le_budget spec _))
  cases specs with
  | nil =>
    -- Without specs there are no negations of them, and the second side is given a level less.
    obtain ⟨levels, some_levels⟩ := enough (.negation (.connective decisive []))
    obtain ⟨levels', some_levels'⟩ := enough (.connective (!decisive) [])
    rw [some_levels, accepts_negation_connective, List.map_nil, some_levels',
      accepts_connective_nil, accepts_connective_nil]
  | cons spec rest =>
    obtain ⟨levels, some_levels⟩ := enough (.negation (.connective decisive (spec :: rest)))
    rw [← w.store.budget_negation_connective, some_levels, accepts_negation_connective]

/-- De Morgan's laws and the law of double negation, with all that the specs do: a negated
disjunction is the conjunction of the negations, a negated conjunction the disjunction of the
negations, and a spec negated twice is the spec. The two sides come to the same answer or the same
fault in the same world. For double negation this holds on every level, each negation taking one;
the library, which gives a longer spec more levels, keeps to it unless the spec runs out of them. -/
theorem accepts_de_morgan (ctx : Context) (specs : List Term) (spec value key : Term) :
    accepts ctx (.negation (.anyOf specs)) value key =
        accepts ctx (.allOf (specs.map .negation)) value key ∧
      accepts ctx (.negation (.allOf specs)) value key =
        accepts ctx (.anyOf (specs.map .negation)) value key ∧
      (∀ levels, (interp ctx (levels + 2)).accepts (.negation (.negation spec)) value key =
        (interp ctx levels).accepts spec value key) ∧
      ∀ w, accepts ctx (.negation (.negation spec)) value key false w =
          accepts ctx spec value key false w ∨
        ∃ v, accepts ctx spec value key false w = .error .nestingLimit v := by
  refine ⟨accepts_library_negation_connective ctx true specs value key,
    accepts_library_negation_connective ctx false specs value key,
    fun levels => accepts_negation_negation ctx levels value key spec, fun w => ?_⟩
  have room := w.store.budget_negation_negation spec [value, key]
  obtain ⟨levels, some_levels⟩ := Nat.exists_eq_add_of_le' (Nat.le_trans (Nat.le_add_left 2 _) room)
  have smaller : w.store.budget spec [value, key] ≤ levels := by omega
  have below := accepts_related Eval.below_congruence.toCompositional
    ((interp_below ctx smaller).create spec value key false) w
  rw [accepts_apply, accepts_apply, some_levels, accepts_negation_negation]
  exact below.symm.imp Eq.symm id

/-! ## Groups -/

/-- Two verdicts accept alike and have the same failing and the same accepted part. -/
structure Verdict.SameParts (verdict verdict' : Verdict) : Prop where
  accepted : verdict.accepted = verdict'.accepted
  lval : verdict.toTerm.lval = verdict'.toTerm.lval
  rval : verdict.toTerm.rval = verdict'.toTerm.rval

/-- The projections see through a verdict that is handed on in one of the same kind. -/
theorem Verdict.sameParts_wrapped (verdict : Verdict) :
    (when verdict.accepted verdict.toTerm).SameParts verdict := by
  cases verdict <;> exact ⟨rfl, rfl, rfl⟩

/-- Three evaluations in a row, of which each is reached only if none before it decides. What the
one in the middle hands on is given by `pass`. -/
def inRow (decisive : Bool) (before group after : Eval Verdict) (pass : Verdict → Verdict) :
    Eval Verdict := do
  let verdict ← before
  if verdict.accepted = decisive then return verdict
  else
    let verdict ← group
    if verdict.accepted = decisive then return pass verdict else after

section

variable (i : Interp) (decisive : Bool) (value key : Term)

theorem decided_append (xs ys : List Term) :
    decided i decisive value key (xs ++ ys) = (do
      let verdict ← decided i decisive value key xs
      if verdict.accepted = decisive then return verdict else decided i decisive value key ys) := by
  induction xs with
  | nil => simp [decided]
  | cons spec rest ih =>
    rw [List.cons_append, decided, decided, bind_assoc]
    refine bind_congr fun verdict => ?_
    split
    · rw [pure_bind, if_pos (Verdict.accepted_when _ _)]
    · exact ih

/-- Specs in line are matched one group after the other. -/
theorem decided_flat (xs ys zs : List Term) :
    decided i decisive value key (xs ++ ys ++ zs) =
      inRow decisive (decided i decisive value key xs) (decided i decisive value key ys)
        (decided i decisive value key zs) id := by
  rw [List.append_assoc, decided_append, inRow]
  simp only [decided_append, id]

/-- A spec among others hands its verdict on in one of the same kind. -/
theorem decided_nested (spec : Term) (xs zs : List Term) :
    decided i decisive value key (xs ++ spec :: zs) =
      inRow decisive (decided i decisive value key xs) (i.create spec value key false)
        (decided i decisive value key zs) fun verdict => .when decisive verdict.toTerm := by
  rw [decided_append, inRow]
  simp only [decided]

end

section

variable {decisive : Bool} {before group after : Eval Verdict}

theorem inRow_below {before' group' after' : Eval Verdict} (first : before.Below before')
    (second : group.Below group') (third : after.Below after') (pass : Verdict → Verdict) :
    (inRow decisive before group after pass).Below
      (inRow decisive before' group' after' pass) := by
  refine first.seq fun verdict => ?_
  split
  · exact .refl _
  · refine second.seq fun verdict => ?_
    split
    · exact .refl _
    · exact third

/-- Handing a verdict on in one of the same kind makes no difference to the parts. -/
theorem inRow_endAlike (w : World) :
    Eval.EndAlike Verdict.SameParts
      (inRow decisive before group after (fun verdict => .when decisive verdict.toTerm) w)
      (inRow decisive before group after id w) := by
  have same (verdict : Verdict) : verdict.SameParts verdict := ⟨rfl, rfl, rfl⟩
  refine .seq fun verdict w' _ => ?_
  split
  · exact .refl same
  · refine .seq fun verdict w' _ => ?_
    split
    · next decides =>
      subst decides
      exact ⟨rfl, verdict.sameParts_wrapped⟩
    · exact .refl same

end

theorem decided_below {i i' : Interp} (below : i.Related (fun _ m m' => m.Below m') i')
    (decisive : Bool) (value key : Term) (specs : List Term) :
    (decided i decisive value key specs).Below (decided i' decisive value key specs) := by
  induction specs with
  | nil => exact .refl _
  | cons spec rest ih =>
    refine (below.create spec value key false).seq fun verdict => ?_
    split
    · exact .refl _
    · exact ih

/-- A run that is out of levels. -/
def Eval.OutOfLevels {α : Type} (run : EStateM.Result Fault World α) : Prop :=
  ∃ v, run = .error .nestingLimit v

/-- A connective inside one of the same kind does as much as its specs in line: the two accept
alike, with the same parts, or fail alike, and end in the same world. On each level this holds
unless the nested connectives run out of levels there; and they do not if they have a level more
than those in line need. The library, which gives each a budget of its own, keeps to it unless one
of the two runs out of levels. -/
def Context.Flattens (ctx : Context) (connective : List Term → Term) : Prop :=
  ∀ (xs ys zs : List Term) (value key : Term) (closed : Bool) (w : World),
    let nested := connective (xs ++ connective ys :: zs)
    let flat := connective (xs ++ ys ++ zs)
    let run (levels : Nat) (spec : Term) := (interp ctx levels).create spec value key closed w
    let result (spec : Term) := create ctx spec value key closed w
    (∀ levels, Eval.OutOfLevels (run levels nested) ∨
      Eval.EndAlike Verdict.SameParts (run levels nested) (run levels flat)) ∧
    (∀ levels, Eval.OutOfLevels (run levels flat) ∨
      Eval.EndAlike Verdict.SameParts (run (levels + 1) nested) (run levels flat)) ∧
    (Eval.OutOfLevels (result nested) ∨ Eval.OutOfLevels (result flat) ∨
      Eval.EndAlike Verdict.SameParts (result nested) (result flat))

section

variable (ctx : Context) (decisive : Bool) (xs ys zs : List Term) (value key : Term)
variable (closed : Bool) (w : World)

/-- A connective that is matched as one spec does no more than its specs in line, and may run out of
levels before them. -/
theorem create_connective_below (levels : Nat) (specs : List Term) :
    ((interp ctx levels).create (.connective decisive specs) value key closed).Below
      (decided (interp ctx levels) decisive value key specs) := by
  cases levels with
  | zero => exact fun w => .inl ⟨w, rfl⟩
  | succ levels =>
    rw [create_connective]
    exact decided_below (interp_below ctx (Nat.le_succ levels)) decisive value key specs

theorem nested_endAlike_flat (levels : Nat) :
    let run (levels : Nat) (spec : Term) := (interp ctx levels).create spec value key closed w
    let nested := Term.connective decisive (xs ++ .connective decisive ys :: zs)
    let flat := Term.connective decisive (xs ++ ys ++ zs)
    Eval.OutOfLevels (run levels nested) ∨
      Eval.EndAlike Verdict.SameParts (run levels nested) (run levels flat) := by
  intro run nested flat
  cases levels with
  | zero => exact .inl ⟨w, rfl⟩
  | succ levels =>
    let inLine := decided (interp ctx levels) decisive value key
    have group := create_connective_below ctx decisive value key false levels ys
    have below : (inRow decisive _ _ _ _).Below _ := inRow_below (.refl (inLine xs)) group
      (.refl (inLine zs)) fun verdict => .when decisive verdict.toTerm
    simp only [run, nested, flat, create_connective]
    rw [decided_nested, decided_flat]
    rcases below w with limit | same
    · exact .inl limit
    · rw [same]
      exact .inr (inRow_endAlike w)

theorem nested_succ_endAlike_flat (levels : Nat) :
    let run (levels : Nat) (spec : Term) := (interp ctx levels).create spec value key closed w
    let nested := Term.connective decisive (xs ++ .connective decisive ys :: zs)
    let flat := Term.connective decisive (xs ++ ys ++ zs)
    Eval.OutOfLevels (run levels flat) ∨
      Eval.EndAlike Verdict.SameParts (run (levels + 1) nested) (run levels flat) := by
  intro run nested flat
  cases levels with
  | zero => exact .inl ⟨w, rfl⟩
  | succ levels =>
    let inLine := decided (interp ctx levels) decisive value key
    have more := decided_below (interp_below ctx (Nat.le_succ levels)) decisive value key
    have below : (inRow decisive _ _ _ _).Below _ := inRow_below (more xs) (.refl (inLine ys))
      (more zs) fun verdict => .when decisive verdict.toTerm
    have alike : Eval.EndAlike Verdict.SameParts
        (inRow decisive (inLine xs) (inLine ys) (inLine zs)
          (fun verdict => .when decisive verdict.toTerm) w)
        (inRow decisive (inLine xs) (inLine ys) (inLine zs) id w) := inRow_endAlike w
    simp only [run, nested, flat, create_connective]
    rw [decided_nested, create_connective, decided_flat]
    rcases below w with ⟨v, limit⟩ | same
    · rw [limit] at alike
      exact .inl ⟨v, alike.error_left⟩
    · rw [← same]
      exact .inr alike

theorem connective_flattens : ctx.Flattens (.connective decisive) := by
  intro xs ys zs value key closed w nested flat run result
  have each (levels : Nat) := nested_endAlike_flat ctx decisive xs ys zs value key closed w levels
  refine ⟨each, nested_succ_endAlike_flat ctx decisive xs ys zs value key closed w, ?_⟩
  have library := create_unless_limit ctx
    (Q := fun run run' => Eval.OutOfLevels run ∨ Eval.EndAlike Verdict.SameParts run run') each
  rcases library with (limit | alike) | limit | limit
  · exact .inl limit
  · exact .inr (.inr alike)
  · exact .inl limit
  · exact .inr (.inl limit)

end

/-- Nested conjunctions flatten, and so do nested disjunctions. -/
theorem connectives_flatten (ctx : Context) : ctx.Flattens .allOf ∧ ctx.Flattens .anyOf :=
  ⟨connective_flattens ctx false, connective_flattens ctx true⟩

end SpecMatch
