import SpecMatch.Proofs.Matching.Rules

/-!
# Relations that matching spec trees respects

`SpecTree.related` walks through the matcher along a spec tree: a relation between evaluations that
passes through sequencing, holds of leaves, and holds of a variable as soon as it holds of its
constraint, holds of every match of the tree. Unlike `interp_related` it asks nothing about terms
that do not occur in the tree, so what it shows may be false of dispatch tables and handlers, and
nothing about what a match never comes to (`Term.ComesTo`). The two matches may take place in
different contexts, as long as the leaves are related.

The constraints in the tree need not be those of the world. With `Term.var` every variable is its
own constraint, which is the root of no tree (`SpecTree.not_of_self`): a tree with these constraints
is a spec without variables (`VariableFree`).
-/

namespace SpecMatch

/-- A variable that is its own constraint is the root of no tree. -/
theorem SpecTree.not_of_self {leaf : Term → Prop} {constraint : Nat → Term}
    (atomic : ∀ t, leaf t → t.Atomic) {id : Nat} (self : constraint id = .var id) :
    ¬ SpecTree leaf constraint (.var id) := by
  intro tree
  generalize root : Term.var id = spec at tree
  induction tree with
  | leaf h =>
    subst root
    exact atomic _ h
  | container shape =>
    subst root
    cases shape
  | free null =>
    cases root
    rw [self] at null
    cases null
  | constrained _ _ ih =>
    cases root
    exact ih self.symm
  | _ => cases root

/-- The specs over the given leaves in which no variable occurs. -/
abbrev VariableFree (leaf : Term → Prop) : Term → Prop := SpecTree leaf Term.var

/-- A spec without variables is a spec whatever the constraints are. -/
theorem SpecTree.of_variableFree {leaf : Term → Prop} (atomic : ∀ t, leaf t → t.Atomic)
    {spec : Term} (tree : VariableFree leaf spec) (constraint : Nat → Term) :
    SpecTree leaf constraint spec := by
  induction tree with
  | leaf h => exact .leaf h
  | container shape declarative keyed _ ih => exact .container shape declarative keyed ih
  | allOf _ ih => exact .allOf ih
  | anyOf _ ih => exact .anyOf ih
  | negation _ ih => exact .negation ih
  | maybe _ ih => exact .maybe ih
  | strict _ ih => exact .strict ih
  | everyItem _ ih => exact .everyItem ih
  | someItem _ ih => exact .someItem ih
  | keyed _ ih => exact .keyed ih
  | free null => cases null
  | constrained _ tree => exact absurd tree (not_of_self atomic rfl)

/-- What a match of a value under a key comes to: that itself, `null` in the place of a value, what
stands in a container, and what key specs cut from a key. -/
inductive Term.ComesTo (value key : Term) : Term → Term → Prop
  | start : ComesTo value key value key
  | null {x k : Term} : ComesTo value key x k → ComesTo value key .null k
  | entry {x k : Term} {e : Term × Term} : ComesTo value key x k → e ∈ x.entries →
      ComesTo value key e.2 e.1
  | under {x k k' : Term} : ComesTo value key x k → k'.hashable →
      ComesTo value key (x.under k').1 (x.under k').2
  | segment {x k : Term} (start : Int) (length : Option Int) : ComesTo value key x k →
      ComesTo value key (.tuple (SpecMatch.segment k.keyPath start length)) .null
  | cutKey {x k : Term} (start : Int) (length : Option Int) : ComesTo value key x k →
      ComesTo value key (k.cutKey start length) .null

section

variable {R : ∀ α : Type, Eval α → Eval α → Prop} (hR : Eval.Compositional R)
variable (ctx ctx' : Context) {top topKey : Term}

/-- The matches of a spec in two contexts are related, on any level and on all that the match of a
value under a key comes to. -/
def Context.RelatedWithin (R : ∀ α : Type, Eval α → Eval α → Prop) (ctx ctx' : Context)
    (top topKey spec : Term) : Prop :=
  ∀ budget value key closed, top.ComesTo topKey value key →
    R Verdict ((interp ctx budget).create spec value key closed)
      ((interp ctx' budget).create spec value key closed)

include hR

/-- Without a level there is nothing but a fault, so only matches with a level count. -/
theorem relatedWithin_of_succ {spec : Term}
    (succ : ∀ budget value key closed, top.ComesTo topKey value key →
      R Verdict ((interp ctx (budget + 1)).create spec value key closed)
        ((interp ctx' (budget + 1)).create spec value key closed)) :
    ctx.RelatedWithin R ctx' top topKey spec
  | 0, _, _, _, _ => hR.fail _
  | budget + 1, value, key, closed, comes => succ budget value key closed comes

/-- A container spec against any value, once its entries are related. -/
theorem container_relatedWithin {spec : Term} (shape : spec.isContainer)
    (declarative : spec.Declarative) (keyed : spec.WellKeyed)
    (on : ∀ e ∈ spec.entries, ctx.RelatedWithin R ctx' top topKey e.2) :
    ctx.RelatedWithin R ctx' top topKey spec := by
  refine relatedWithin_of_succ hR ctx ctx' fun budget value key closed comes => ?_
  cases container : value.isContainer with
  | true =>
    rw [create_container ctx budget value key closed shape declarative container,
      create_container ctx' budget value key closed shape declarative container]
    exact matchEntries_related hR
      (fun e mem => on e mem _ _ _ _ (comes.under (keyed.hashable e mem))) closed
  | false =>
    rw [create_container_scalar ctx budget value key closed shape declarative container,
      create_container_scalar ctx' budget value key closed shape declarative container,
      matchLiteral_container_scalar shape container]
    exact hR.answer _

/-- A relation that passes through sequencing holds of every match of a spec tree if it holds of its
leaves and, given their constraints, of its variables. It is enough that it holds of these on what
the match comes to. -/
theorem SpecTree.related {leaf : Term → Prop} {constraint : Nat → Term}
    (atomic : ∀ t, leaf t → t.Atomic)
    (leaves : ∀ t, leaf t → ∀ budget value key closed, top.ComesTo topKey value key →
      R Verdict ((interp ctx (budget + 1)).create t value key closed)
        ((interp ctx' (budget + 1)).create t value key closed))
    (cells : ∀ id, constraint id ≠ .var id → ∀ budget value key,
      (constraint id ≠ .null →
        R Verdict ((interp ctx budget).create (constraint id) value key false)
          ((interp ctx' budget).create (constraint id) value key false)) →
      R Verdict (bindCell (interp ctx budget) id value key)
        (bindCell (interp ctx' budget) id value key))
    {spec : Term} (tree : SpecTree leaf constraint spec) :
    ctx.RelatedWithin R ctx' top topKey spec := by
  -- A tuple as the path of a key spec is matched as a list, so a tuple is followed as both.
  suffices both : ctx.RelatedWithin R ctx' top topKey spec ∧
      ∀ specs, spec = .tuple specs → ctx.RelatedWithin R ctx' top topKey (.list specs)
    from both.1
  induction tree with
  | leaf h =>
    refine ⟨relatedWithin_of_succ hR ctx ctx' (leaves _ h), ?_⟩
    rintro specs rfl
    exact (atomic _ h).elim
  | container shape declarative keyed _ ih =>
    have on := fun e mem => (ih e mem).1
    refine ⟨container_relatedWithin hR ctx ctx' shape declarative keyed on, ?_⟩
    rintro specs rfl
    have declarative_list : (Term.list specs).Declarative := trivial
    exact container_relatedWithin hR ctx ctx' rfl declarative_list (.array rfl) on
  | allOf _ ih =>
    refine ⟨relatedWithin_of_succ hR ctx ctx' fun budget value key closed comes => ?_, nofun⟩
    rw [create_allOf, create_allOf]
    exact allOf_related hR
      (List.forall₂_same.2 fun t mem => (ih t mem).1 budget value key false comes)
  | anyOf _ ih =>
    refine ⟨relatedWithin_of_succ hR ctx ctx' fun budget value key closed comes => ?_, nofun⟩
    rw [create_anyOf, create_anyOf]
    exact anyOf_related hR
      (List.forall₂_same.2 fun t mem => (ih t mem).1 budget value key false comes)
  | negation _ ih =>
    refine ⟨relatedWithin_of_succ hR ctx ctx' fun budget value key closed comes => ?_, nofun⟩
    rw [create_negation, create_negation]
    exact hR.seq (ih.1 budget value key false comes) fun _ => hR.answer _
  | maybe _ ih =>
    refine ⟨relatedWithin_of_succ hR ctx ctx' fun budget value key closed comes => ?_, nofun⟩
    rw [create_maybe, create_maybe]
    exact maybe_related hR (ih.1 budget value key false comes)
  | strict _ ih =>
    refine ⟨relatedWithin_of_succ hR ctx ctx' fun budget value key closed comes => ?_, nofun⟩
    rw [create_strict, create_strict]
    exact ih.1 budget value key true comes
  | everyItem _ ih =>
    refine ⟨relatedWithin_of_succ hR ctx ctx' fun budget value key closed comes => ?_, nofun⟩
    rw [create_everyItem, create_everyItem]
    exact everyItem_related hR (fun _ => ih.1 budget _ _ _ comes.null) fun e mem =>
      ih.1 budget _ _ _ (comes.entry mem)
  | someItem _ ih =>
    refine ⟨relatedWithin_of_succ hR ctx ctx' fun budget value key closed comes => ?_, nofun⟩
    rw [create_someItem, create_someItem]
    exact someItem_related hR (fun _ => ih.1 budget _ _ _ comes.null) fun e mem =>
      ih.1 budget _ _ _ (comes.entry mem)
  | @keyed path start length _ ih =>
    refine ⟨relatedWithin_of_succ hR ctx ctx' fun budget value key closed comes => ?_, nofun⟩
    rw [create_keyed, create_keyed]
    refine hR.seq (keyed_related hR ?_ ?_) fun _ => hR.answer _
    · exact ih.1 budget _ _ _ (comes.cutKey start length)
    · rintro specs (rfl | rfl)
      · exact ih.1 budget _ _ _ (comes.segment start length)
      · exact ih.2 specs rfl budget _ _ _ (comes.segment start length)
  | @free id null =>
    refine ⟨relatedWithin_of_succ hR ctx ctx' fun budget value key closed comes => ?_, nofun⟩
    rw [create_var, create_var]
    have other : constraint id ≠ .var id := by
      rw [null]
      nofun
    exact cells id other budget value key fun bound => absurd null bound
  | @constrained id bound tree ih =>
    refine ⟨relatedWithin_of_succ hR ctx ctx' fun budget value key closed comes => ?_, nofun⟩
    rw [create_var, create_var]
    have other : constraint id ≠ .var id := fun self =>
      not_of_self atomic self (.constrained bound tree)
    exact cells id other budget value key fun _ => ih.1 budget value key false comes

end

end SpecMatch
