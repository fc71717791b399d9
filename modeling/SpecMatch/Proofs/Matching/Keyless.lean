import SpecMatch.Proofs.Matching.Names

/-!
# Without key specs the key does not matter

Nothing but a key spec, and no function of the library itself, looks at the key under which a value
stands. A spec that is built without key specs and functions of the host (`KeylessTree`) is
therefore matched in the same way under every key (`KeylessTree.ignores_key`). The key still turns
up in what is told of variables, so the two matches are compared up to the log.
-/

namespace SpecMatch

/-- The specs that are built from leaves without key specs, with the constraints of variables
followed. -/
inductive KeylessTree (leaf : Term → Prop) (constraint : Nat → Term) : Term → Prop
  | leaf {spec : Term} : leaf spec → KeylessTree leaf constraint spec
  | container {spec : Term} : spec.isContainer → spec.Declarative → spec.WellKeyed →
      (∀ e ∈ spec.entries, KeylessTree leaf constraint e.2) → KeylessTree leaf constraint spec
  | allOf {specs : List Term} : (∀ spec ∈ specs, KeylessTree leaf constraint spec) →
      KeylessTree leaf constraint (.allOf specs)
  | anyOf {specs : List Term} : (∀ spec ∈ specs, KeylessTree leaf constraint spec) →
      KeylessTree leaf constraint (.anyOf specs)
  | negation {spec : Term} : KeylessTree leaf constraint spec →
      KeylessTree leaf constraint (.negation spec)
  | maybe {spec : Term} : KeylessTree leaf constraint spec →
      KeylessTree leaf constraint (.maybe spec)
  | strict {spec : Term} : KeylessTree leaf constraint spec →
      KeylessTree leaf constraint (.strict spec)
  | everyItem {spec : Term} : KeylessTree leaf constraint spec →
      KeylessTree leaf constraint (.everyItem spec)
  | someItem {spec : Term} : KeylessTree leaf constraint spec →
      KeylessTree leaf constraint (.someItem spec)
  | free {id : Nat} : constraint id = .null → KeylessTree leaf constraint (.var id)
  | constrained {id : Nat} : constraint id ≠ .null → KeylessTree leaf constraint (constraint id) →
      KeylessTree leaf constraint (.var id)

section

variable {leaf leaf' : Term → Prop} {constraint : Nat → Term} {spec : Term}

/-- A spec tree without key specs is a spec tree. -/
theorem KeylessTree.tree (keyless : KeylessTree leaf constraint spec) :
    SpecTree leaf constraint spec := by
  induction keyless with
  | leaf h => exact .leaf h
  | container shape declarative keyed _ ih => exact .container shape declarative keyed ih
  | allOf _ ih => exact .allOf ih
  | anyOf _ ih => exact .anyOf ih
  | negation _ ih => exact .negation ih
  | maybe _ ih => exact .maybe ih
  | strict _ ih => exact .strict ih
  | everyItem _ ih => exact .everyItem ih
  | someItem _ ih => exact .someItem ih
  | free h => exact .free h
  | constrained h _ ih => exact .constrained h ih

theorem KeylessTree.mono (keyless : KeylessTree leaf constraint spec)
    (imp : ∀ t, leaf t → leaf' t) : KeylessTree leaf' constraint spec := by
  induction keyless with
  | leaf h => exact .leaf (imp _ h)
  | container shape declarative keyed _ ih => exact .container shape declarative keyed ih
  | allOf _ ih => exact .allOf ih
  | anyOf _ ih => exact .anyOf ih
  | negation _ ih => exact .negation ih
  | maybe _ ih => exact .maybe ih
  | strict _ ih => exact .strict ih
  | everyItem _ ih => exact .everyItem ih
  | someItem _ ih => exact .someItem ih
  | free h => exact .free h
  | constrained h _ ih => exact .constrained h ih

end

/-! ## Matches under two keys -/

section

variable {ctx : Context} {constraint : Nat → Term} {spec : Term}

/-- On a number of levels a spec is matched in the same way under every key, up to the log. -/
def Context.IgnoresKey (ctx : Context) (constraint : Nat → Term) (levels : Nat) (spec : Term) :
    Prop :=
  ∀ value key key' closed,
    ((interp ctx levels).create spec value key closed).LogBlind (Store.Constrains constraint)
      ((interp ctx levels).create spec value key' closed)

/-- Without a level there is nothing but a fault, so only matches with a level count. -/
theorem Context.IgnoresKey.of_succ (succ : ∀ levels, ctx.IgnoresKey constraint (levels + 1) spec) :
    ∀ levels, ctx.IgnoresKey constraint levels spec
  | 0 => fun _ _ _ _ => (Eval.logBlind_observing _).fail _
  | levels + 1 => succ levels

/-- A match that is the same evaluation under every key ignores it. -/
theorem Context.IgnoresKey.of_eq {levels : Nat}
    (same : ∀ value key key' closed, (interp ctx levels).create spec value key closed =
      (interp ctx levels).create spec value key' closed) :
    ctx.IgnoresKey constraint levels spec := by
  intro value key key' closed
  rw [same value key key' closed]
  exact (interp_logBlind (Store.constrains_invariant constraint) ctx levels).create spec value key'
    closed

theorem create_leaf_key (core : spec.CoreLeaf) (levels : Nat) (value key key' : Term)
    (closed : Bool) : (interp ctx (levels + 1)).create spec value key closed =
      (interp ctx (levels + 1)).create spec value key' closed := by
  cases spec with
  | builtin f =>
    by_cases identity : f = .identity
    · subst identity
      rfl
    · rw [create_test _ _ _ _ _ f identity core, create_test _ _ _ _ _ f identity core]
  | object handle =>
    obtain ⟨binds, ability⟩ := core
    cases accepts : handle.accepts with
    | true =>
      rw [create_acceptor _ _ _ _ _ binds accepts, create_acceptor _ _ _ _ _ binds accepts]
    | false =>
      have arity : handle.arity = none := ability.resolve_left (by rw [accepts]; nofun)
      have reading : (Term.object handle).reading value = .literal :=
        Term.reading_object binds accepts arity
      rw [create_literal _ _ _ _ _ reading, create_literal _ _ _ _ _ reading]
  | _ => first | rfl | exact core.elim

/-- What is in a container is matched under keys of its own. -/
theorem create_container_key (shape : spec.isContainer) (declarative : spec.Declarative)
    (levels : Nat) (value key key' : Term) (closed : Bool) :
    (interp ctx (levels + 1)).create spec value key closed =
      (interp ctx (levels + 1)).create spec value key' closed := by
  cases container : value.isContainer with
  | true =>
    rw [create_container ctx _ _ _ _ shape declarative container,
      create_container ctx _ _ _ _ shape declarative container]
  | false =>
    rw [create_container_scalar ctx _ _ _ _ shape declarative container,
      create_container_scalar ctx _ _ _ _ shape declarative container]

/-- A match without key specs comes to the same under every key, up to the log. -/
theorem KeylessTree.ignores_key (keyless : KeylessTree Term.CoreLeaf constraint spec)
    (levels : Nat) : ctx.IgnoresKey constraint levels spec := by
  have invariant := Store.constrains_invariant constraint
  have congruence := Eval.logBlind_congruence invariant
  have parts := congruence.toCompositional
  -- The elements of a container are matched under the keys that they have in it.
  have element (levels : Nat) (spec value key : Term) :=
    (interp_logBlind invariant ctx levels).create spec value key false
  induction keyless generalizing levels with
  | leaf core =>
    exact .of_succ (fun levels => .of_eq (create_leaf_key core levels)) levels
  | container shape declarative _ _ _ =>
    exact .of_succ (fun levels => .of_eq (create_container_key shape declarative levels)) levels
  | allOf _ ih =>
    refine .of_succ (fun levels value key key' closed => ?_) levels
    rw [create_allOf, create_allOf]
    exact allOf_related parts
      (List.forall₂_same.2 fun t mem => ih t mem levels value key key' false)
  | anyOf _ ih =>
    refine .of_succ (fun levels value key key' closed => ?_) levels
    rw [create_anyOf, create_anyOf]
    exact anyOf_related parts
      (List.forall₂_same.2 fun t mem => ih t mem levels value key key' false)
  | negation _ ih =>
    refine .of_succ (fun levels value key key' closed => ?_) levels
    rw [create_negation, create_negation]
    exact parts.seq (ih levels value key key' false) fun _ => parts.answer _
  | maybe _ ih =>
    refine .of_succ (fun levels value key key' closed => ?_) levels
    rw [create_maybe, create_maybe]
    exact maybe_related parts (ih levels value key key' false)
  | strict _ ih =>
    refine .of_succ (fun levels value key key' closed => ?_) levels
    rw [create_strict, create_strict]
    exact ih levels value key key' true
  | everyItem _ ih =>
    refine .of_succ (fun levels value key key' closed => ?_) levels
    rw [create_everyItem, create_everyItem]
    exact everyItem_related parts (fun _ => ih levels .null key key' false) fun e _ =>
      element levels _ e.2 e.1
  | someItem _ ih =>
    refine .of_succ (fun levels value key key' closed => ?_) levels
    rw [create_someItem, create_someItem]
    exact someItem_related parts (fun _ => ih levels .null key key' false) fun e _ =>
      element levels _ e.2 e.1
  | free null =>
    refine .of_succ (fun levels value key key' closed => ?_) levels
    rw [create_var, create_var]
    exact bindCell_logBlind fun bound => absurd null bound
  | constrained _ _ ih =>
    refine .of_succ (fun levels value key key' closed => ?_) levels
    rw [create_var, create_var]
    exact bindCell_logBlind fun _ => ih levels value key key' false

end

end SpecMatch
