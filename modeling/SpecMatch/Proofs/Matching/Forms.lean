import SpecMatch.Proofs.Spec.Tree

/-!
# Matching form by form

What matching with a level of budget does is given here by one equation for each form of spec. The
way through `Term.reading`, the arity check of a call and the passage from verdicts to terms and
back is taken in these equations and nowhere else.
-/

namespace SpecMatch

/-- A verdict that is handed on as an outcome stays the same. -/
@[simp] theorem Verdict.ofOutcome_toTerm (verdict : Verdict) (value : Term) :
    ofOutcome verdict.toTerm value = verdict := by
  cases verdict <;> rfl

/-- A truth value that is handed on as an outcome decides about the value. -/
@[simp] theorem Verdict.ofOutcome_bool (b : Bool) (value : Term) :
    ofOutcome (.bool b) value = .when b value := by
  cases b <;> rfl

@[simp] theorem Verdict.accepted_when (b : Bool) (value : Term) : (when b value).accepted = b := by
  cases b <;> rfl

section

variable {value : Term}

theorem Term.reading_acceptor {handle : Handle} (binds : handle.binds = false)
    (accepts : handle.accepts = true) : (Term.object handle).reading value = .acceptor handle := by
  simp [reading, binds, accepts]

/-- An object that can do nothing is a literal. -/
theorem Term.reading_object {handle : Handle} (binds : handle.binds = false)
    (accepts : handle.accepts = false) (arity : handle.arity = none) :
    (Term.object handle).reading value = .literal := by
  simp [reading, binds, accepts, arity]

/-- A container spec that is matched entry by entry against containers: no field bag that binds. -/
def Term.ByEntries : Term → Prop
  | .list _ | .tuple _ | .map .. => True
  | .fields attributes => ability? attributes "bind" = none
  | _ => False

theorem Term.Declarative.byEntries {spec : Term} (declarative : spec.Declarative)
    (shape : spec.isContainer) : spec.ByEntries := by
  cases spec with
  | list _ | tuple _ | map _ _ => trivial
  | fields attributes => exact declarative.1
  | _ => cases shape

theorem Term.reading_byEntries {spec : Term} (byEntries : spec.ByEntries)
    (container : value.isContainer) : spec.reading value = .entries := by
  cases spec with
  | list _ | tuple _ | map _ _ => exact if_pos container
  | fields attributes =>
    have noBinder : ability? attributes "bind" = none := byEntries
    simp [reading, noBinder, container]
  | _ => exact byEntries.elim

theorem Term.reading_container_scalar {spec : Term} (shape : spec.isContainer)
    (declarative : spec.Declarative) (scalar : value.isContainer = false) :
    spec.reading value = .literal := by
  cases spec with
  | list _ | tuple _ | map _ _ => exact if_neg (Bool.eq_false_iff.1 scalar)
  | fields attributes => simp [reading, declarative.1, declarative.2, scalar]
  | _ => cases shape

end

section

variable (ctx : Context) (budget : Nat) (value key : Term) (closed : Bool)

/-- One level of budget is spent on reading the spec. -/
theorem create_succ (spec : Term) :
    (interp ctx (budget + 1)).create spec value key closed =
      createAt ctx (interp ctx budget) spec value key closed := rfl

theorem create_cls (c : Class) :
    (interp ctx (budget + 1)).create (.cls c) value key closed =
      (do return .when (← isInstance c value) value) := rfl

theorem create_var (id : Nat) :
    (interp ctx (budget + 1)).create (.var id) value key closed =
      bindCell (interp ctx budget) id value key := rfl

/-- A function that takes a value and its key is called, and its outcome decides. -/
theorem create_function {spec : Term} (reading : spec.reading value = .function)
    (arity : spec.arity? = some Term.specArity) :
    (interp ctx (budget + 1)).create spec value key closed = (do
      return .ofOutcome (← applyTo ctx (interp ctx budget) spec [value, key]) value) := by
  rw [create_succ, createAt, reading]
  simp only [callAt, arity]
  rfl

/-- A spec whose call answers a verdict matches by that verdict. -/
theorem create_of_verdict {spec : Term} {answer : Eval Verdict}
    (reading : spec.reading value = .function) (arity : spec.arity? = some Term.specArity)
    (apply : applyTo ctx (interp ctx budget) spec [value, key] = (do return (← answer).toTerm)) :
    (interp ctx (budget + 1)).create spec value key closed = answer := by
  rw [create_function ctx budget value key closed reading arity, apply]
  simp only [bind_assoc, pure_bind, Verdict.ofOutcome_toTerm, bind_pure]

/-- A spec whose call answers a truth value matches by it. -/
theorem create_of_truth {spec : Term} {answer : Eval Bool}
    (reading : spec.reading value = .function) (arity : spec.arity? = some Term.specArity)
    (apply : applyTo ctx (interp ctx budget) spec [value, key] = (do return .bool (← answer))) :
    (interp ctx (budget + 1)).create spec value key closed =
      (do return .when (← answer) value) := by
  rw [create_function ctx budget value key closed reading arity, apply]
  simp only [bind_assoc, pure_bind, Verdict.ofOutcome_bool]

theorem create_allOf (specs : List Term) :
    (interp ctx (budget + 1)).create (.allOf specs) value key closed =
      allOf (interp ctx budget) value key specs :=
  create_of_verdict ctx budget value key closed rfl rfl rfl

theorem create_anyOf (specs : List Term) :
    (interp ctx (budget + 1)).create (.anyOf specs) value key closed =
      anyOf (interp ctx budget) value key specs :=
  create_of_verdict ctx budget value key closed rfl rfl rfl

theorem create_negation (spec : Term) :
    (interp ctx (budget + 1)).create (.negation spec) value key closed = (do
      return .when (!(← (interp ctx budget).create spec value key false).accepted) value) := by
  rw [create_of_truth ctx budget value key closed rfl rfl rfl]
  simp only [Interp.accepts, bind_assoc, pure_bind]
  rfl

theorem create_maybe (spec : Term) :
    (interp ctx (budget + 1)).create (.maybe spec) value key closed =
      maybe (interp ctx budget) spec value key :=
  create_of_verdict ctx budget value key closed rfl rfl rfl

theorem create_strict (spec : Term) :
    (interp ctx (budget + 1)).create (.strict spec) value key closed =
      (interp ctx budget).create spec value key true :=
  create_of_verdict ctx budget value key closed rfl rfl rfl

theorem create_everyItem (spec : Term) :
    (interp ctx (budget + 1)).create (.everyItem spec) value key closed =
      everyItem (interp ctx budget) spec value key :=
  create_of_verdict ctx budget value key closed rfl rfl rfl

theorem create_someItem (spec : Term) :
    (interp ctx (budget + 1)).create (.someItem spec) value key closed =
      someItem (interp ctx budget) spec value key :=
  create_of_verdict ctx budget value key closed rfl rfl rfl

theorem create_keyed (path : Term) (start : Int) (length : Option Int) :
    (interp ctx (budget + 1)).create (.keyed path start length) value key closed = (do
      return .when (← keyed (interp ctx budget) path start length key) value) :=
  create_of_truth ctx budget value key closed rfl rfl rfl

theorem create_comparison (symbol : String) (operand : Term) :
    (interp ctx (budget + 1)).create (.comparison symbol operand) value key closed = (do
      return .when (← comparisonHolds symbol operand value) value) :=
  create_of_truth ctx budget value key closed rfl rfl rfl

theorem create_oneOf (options : List Term) (exact : Bool) :
    (interp ctx (budget + 1)).create (.oneOf options exact) value key closed = (do
      return .when (← isOneOf options exact value) value) :=
  create_of_truth ctx budget value key closed rfl rfl rfl

/-- The tests of the library are functions of the value. -/
theorem create_test (test : Builtin) (identity : test ≠ .identity) (descend : test ≠ .descend) :
    (interp ctx (budget + 1)).create (.builtin test) value key closed =
      pure (.when (test.test value) value) := by
  have apply : applyTo ctx (interp ctx budget) (.builtin test) [value, key] =
      (do return .bool (← pure (test.test value))) := by
    cases test <;> first | rfl | contradiction
  have arity : (Term.builtin test).arity? = some Term.specArity := by
    cases test <;> first | rfl | contradiction
  rw [create_of_truth ctx budget value key closed (by cases test <;> rfl) arity apply]
  rfl

theorem create_identity :
    (interp ctx (budget + 1)).create (.builtin .identity) value key closed =
      pure (.ofOutcome value value) := rfl

/-- A text stands for the class that is registered under it, else for itself. -/
theorem create_name (s : String) :
    (interp ctx (budget + 1)).create (.str s) value key closed =
      if ctx.registry.contains s then
        (do return .when (← isInstance (← ctx.registry.resolve ctx.modules s) value) value)
      else matchLiteral (.str s) value := rfl

theorem create_literal {spec : Term} (reading : spec.reading value = .literal) :
    (interp ctx (budget + 1)).create spec value key closed = matchLiteral spec value := by
  rw [create_succ, createAt, reading]

/-- An object that decides acceptance is asked about the value alone. -/
theorem create_acceptor {handle : Handle} (binds : handle.binds = false)
    (accepts : handle.accepts = true) :
    (interp ctx (budget + 1)).create (.object handle) value key closed = (do
      return .when (← ctx.request (interp ctx budget) handle (.accept value)).truthy value) := by
  rw [create_succ, createAt, Term.reading_acceptor binds accepts]

/-- Any other object that can be called is a predicate: it is asked about the value and the key. -/
theorem create_predicate {handle : Handle} {arity : Arity} (binds : handle.binds = false)
    (accepts : handle.accepts = false) (callable : handle.arity = some arity)
    (admits : arity.admits 2) :
    (interp ctx (budget + 1)).create (.object handle) value key closed = (do
      return .ofOutcome
        (← ctx.request (interp ctx budget) handle (.call [value, key])) value) := by
  have reading : (Term.object handle).reading value = .function := by
    simp [Term.reading, binds, accepts, callable]
  have called : callAt ctx (interp ctx budget) (.object handle) [value, key] =
      ctx.request (interp ctx budget) handle (.call [value, key]) := by
    simp [callAt, Term.arity?, callable, admits, applyTo]
  rw [create_succ, createAt, reading]
  dsimp only
  rw [called]

/-- A container spec is matched entry by entry against a container. -/
theorem create_byEntries {spec : Term} (byEntries : spec.ByEntries)
    (container : value.isContainer) :
    (interp ctx (budget + 1)).create spec value key closed =
      matchEntries (interp ctx budget) spec value closed := by
  rw [create_succ, createAt, Term.reading_byEntries byEntries container]

theorem create_container {spec : Term} (shape : spec.isContainer) (declarative : spec.Declarative)
    (container : value.isContainer) :
    (interp ctx (budget + 1)).create spec value key closed =
      matchEntries (interp ctx budget) spec value closed :=
  create_byEntries ctx budget value key closed (declarative.byEntries shape) container

/-- A container spec is a literal to a scalar. -/
theorem create_container_scalar {spec : Term} (shape : spec.isContainer)
    (declarative : spec.Declarative) (scalar : value.isContainer = false) :
    (interp ctx (budget + 1)).create spec value key closed = matchLiteral spec value :=
  create_literal ctx budget value key closed
    (Term.reading_container_scalar shape declarative scalar)

end

end SpecMatch
