import Mathlib.Data.List.Forall2
import SpecMatch.Proofs.Spec.Tree

/-!
# Specs with their entries in another order

`Term.Reordered` relates two specs that are the same up to the order in which the maps and field
bags in them list their entries, at any depth. An array keeps its order, since its keys are the
positions of its items. The constraints of variables belong to the world and not to the spec, so
they are reordered apart from it.

A spec tree stays one when it is reordered (`SpecTree.reordered`).
-/

namespace SpecMatch

theorem exists_mem_of_forall₂ {α β : Type} {R : α → β → Prop} {l : List α} {u : List β}
    (each : l.Forall₂ R u) {b : β} (mem : b ∈ u) : ∃ a ∈ l, R a b := by
  induction each with
  | nil => cases mem
  | cons first _ ih =>
    rcases List.mem_cons.1 mem with rfl | mem
    · exact ⟨_, List.mem_cons_self, first⟩
    · obtain ⟨a, ha, related⟩ := ih mem
      exact ⟨a, List.mem_cons_of_mem _ ha, related⟩

namespace Term

/-- The forms of specs that hold one other spec. -/
inductive Wraps : (Term → Term) → Prop
  | negation : Wraps .negation
  | maybe : Wraps .maybe
  | strict : Wraps .strict
  | everyItem : Wraps .everyItem
  | someItem : Wraps .someItem
  | keyed (start : Int) (length : Option Int) : Wraps (.keyed · start length)

/-- The forms of specs that hold a list of others. -/
inductive Joins : (List Term → Term) → Prop
  | allOf : Joins .allOf
  | anyOf : Joins .anyOf

/-- Two specs are the same up to the order of the entries of the containers in them. -/
inductive Reordered : Term → Term → Prop
  | refl (spec : Term) : Reordered spec spec
  | container {spec spec' : Term} (f : Term × Term → Term) : spec.isContainer →
      spec'.form? = spec.form? → spec'.classOf = spec.classOf →
      (∀ e ∈ spec.entries, Reordered e.2 (f e)) →
      spec'.entries.Perm (spec.entries.map fun e => (e.1, f e)) → Reordered spec spec'
  | wrap {form : Term → Term} {spec spec' : Term} : Wraps form → Reordered spec spec' →
      Reordered (form spec) (form spec')
  | join {form : List Term → Term} {specs specs' : List Term} : Joins form →
      specs.length = specs'.length → (∀ p ∈ specs.zip specs', Reordered p.1 p.2) →
      Reordered (form specs) (form specs')

theorem Wraps.scalar {form : Term → Term} (wraps : Wraps form) (spec : Term) :
    (form spec).form? = none := by
  cases wraps <;> rfl

theorem Joins.scalar {form : List Term → Term} (joins : Joins form) (specs : List Term) :
    (form specs).form? = none := by
  cases joins <;> rfl

namespace Reordered

variable {spec spec' : Term}

/-- Listing the entries in another order is reordering. -/
theorem of_perm (shape : spec.isContainer) (form : spec'.form? = spec.form?)
    (cls : spec'.classOf = spec.classOf) (perm : spec'.entries.Perm spec.entries) :
    Reordered spec spec' := by
  refine .container (·.2) shape form cls (fun e _ => .refl e.2) ?_
  rwa [List.map_id']

theorem form?_eq (reordered : Reordered spec spec') : spec'.form? = spec.form? := by
  cases reordered with
  | refl => rfl
  | container _ _ form => exact form
  | wrap wraps => rw [wraps.scalar, wraps.scalar]
  | join joins => rw [joins.scalar, joins.scalar]

theorem isContainer_eq (reordered : Reordered spec spec') :
    spec'.isContainer = spec.isContainer := by
  rw [isContainer, reordered.form?_eq, isContainer]

/-- A reordered container has the same keys, and under each of them a reordered spec. -/
theorem exists_entries (reordered : Reordered spec spec') (shape : spec.isContainer) :
    ∃ f : Term × Term → Term, (∀ e ∈ spec.entries, Reordered e.2 (f e)) ∧
      spec'.entries.Perm (spec.entries.map fun e => (e.1, f e)) := by
  cases reordered with
  | refl =>
    refine ⟨(·.2), fun e _ => .refl e.2, ?_⟩
    rw [List.map_id']
  | container f _ _ _ each perm => exact ⟨f, each, perm⟩
  | wrap wraps =>
    rw [isContainer, wraps.scalar] at shape
    cases shape
  | join joins =>
    rw [isContainer, joins.scalar] at shape
    cases shape

theorem eq_of_atomic (reordered : Reordered spec spec') (atomic : spec.Atomic) : spec' = spec := by
  cases reordered with
  | refl => rfl
  | container _ shape =>
    rw [atomic.scalar] at shape
    cases shape
  | wrap wraps => cases wraps <;> exact atomic.elim
  | join joins => cases joins <;> exact atomic.elim

theorem eq_of_var {id : Nat} (reordered : Reordered (.var id) spec') : spec' = .var id := by
  generalize root : Term.var id = spec at reordered
  cases reordered with
  | refl => rfl
  | container _ shape =>
    subst root
    cases shape
  | wrap wraps => cases wraps <;> cases root
  | join joins => cases joins <;> cases root

/-- Nothing but `null` is reordered to `null`. -/
theorem null_iff (reordered : Reordered spec spec') : spec = .null ↔ spec' = .null := by
  constructor
  · rintro rfl
    exact reordered.eq_of_atomic trivial
  · intro root
    cases reordered with
    | refl => exact root
    | container _ shape form =>
      subst root
      rw [isContainer, ← form] at shape
      cases shape
    | wrap wraps => cases wraps <;> cases root
    | join joins => cases joins <;> cases root

/-- What a form around a spec is reordered to is that form around a reordered spec. -/
theorem wrap_inv {form : Term → Term} (wraps : Wraps form)
    (reordered : Reordered (form spec) spec') :
    ∃ inner, spec' = form inner ∧ Reordered spec inner := by
  generalize root : form spec = outer at reordered
  cases reordered with
  | refl => exact ⟨spec, root.symm, .refl spec⟩
  | container _ shape =>
    rw [isContainer, ← root, wraps.scalar] at shape
    cases shape
  | wrap wraps' inner =>
    cases wraps <;> cases wraps' <;> cases root <;> exact ⟨_, rfl, inner⟩
  | join joins => cases wraps <;> cases joins <;> cases root

theorem join_inv {form : List Term → Term} {specs : List Term} (joins : Joins form)
    (reordered : Reordered (form specs) spec') :
    ∃ specs', spec' = form specs' ∧ specs.Forall₂ Reordered specs' := by
  generalize root : form specs = outer at reordered
  cases reordered with
  | refl => exact ⟨specs, root.symm, List.forall₂_same.2 fun x _ => .refl x⟩
  | container _ shape =>
    rw [isContainer, ← root, joins.scalar] at shape
    cases shape
  | wrap wraps => cases joins <;> cases wraps <;> cases root
  | join joins' length each =>
    have inside := List.forall₂_iff_zip.2 ⟨length, fun mem => each _ mem⟩
    cases joins <;> cases joins' <;> cases root <;> exact ⟨_, rfl, inside⟩

theorem classOf_eq (reordered : Reordered spec spec') : spec'.classOf = spec.classOf := by
  cases reordered with
  | refl => rfl
  | container _ _ _ cls => exact cls
  | wrap wraps => cases wraps <;> rfl
  | join joins => cases joins <;> rfl

section

variable {specs : List Term}

theorem list_inv (reordered : Reordered (.list specs) spec') :
    ∃ specs', spec' = .list specs' := by
  have form := reordered.form?_eq
  have cls := reordered.classOf_eq
  cases spec' with
  | list specs' => exact ⟨specs', rfl⟩
  | tuple specs' => cases cls
  | _ => cases form

/-- As the path of a key spec a tuple is read as a list. -/
theorem tuple_inv (reordered : Reordered (.tuple specs) spec') :
    ∃ specs', spec' = .tuple specs' ∧ Reordered (.list specs) (.list specs') := by
  have form := reordered.form?_eq
  have cls := reordered.classOf_eq
  cases spec' with
  | tuple specs' =>
    obtain ⟨f, each, perm⟩ := reordered.exists_entries rfl
    exact ⟨specs', rfl, .container f rfl rfl rfl each perm⟩
  | list specs' => cases cls
  | _ => cases form

end

end Reordered

/-! ## Containers -/

/-- The keys of a reordered container are as they must be. -/
theorem WellKeyed.of_perm {x y : Term} (keyed : x.WellKeyed) {f : Term × Term → Term}
    (perm : y.entries.Perm (x.entries.map fun e => (e.1, f e))) : y.WellKeyed := by
  -- Among keys that can be hashed, being different is symmetric.
  let Apart (a b : Term × Term) : Prop := a.1.hashable → b.1.hashable → ¬ a.1.sameKey b.1
  have hashable : ∀ d ∈ y.entries, d.1.hashable := by
    intro d mem
    obtain ⟨e, he, rfl⟩ := List.mem_map.1 (perm.subset mem)
    exact keyed.hashable e he
  have symm {a b : Term × Term} (apart : Apart a b) : Apart b a := fun hb ha same =>
    apart ha hb (same_symm hb same)
  have apart : (x.entries.map fun e => (e.1, f e)).Pairwise Apart :=
    List.pairwise_map.2 (keyed.distinct.imp fun other _ _ => other)
  refine ⟨hashable, ((perm.symm.pairwise apart symm).imp_of_mem fun ha hb apart => ?_)⟩
  exact apart (hashable _ ha) (hashable _ hb)

theorem ability?_eq_none_iff {attributes : Attributes} {name : String} :
    ability? attributes name = none ↔
      ∀ v, Attributes.get? attributes name = some v → v = .null := by
  unfold ability?
  split
  · next found => simp [found]
  · next notNull =>
    constructor
    · intro absent v found
      rw [absent] at found
      cases found
    · intro null
      cases found : Attributes.get? attributes name with
      | none => rfl
      | some v =>
        rw [null v found] at found
        exact absurd found notNull

/-- Reordering makes no binder and no acceptor of a field bag. -/
theorem Reordered.declarative {spec spec' : Term} (reordered : Reordered spec spec')
    (declarative : spec.Declarative) (keyed : spec.WellKeyed) : spec'.Declarative := by
  have form := reordered.form?_eq
  cases spec' with
  | fields attributes' =>
    cases spec with
    | fields attributes =>
      obtain ⟨f, each, perm⟩ := reordered.exists_entries rfl
      have unable {name : String} (absent : ability? attributes name = none) :
          ability? attributes' name = none := by
        rw [ability?_eq_none_iff] at absent ⊢
        intro v found
        have stands : (Term.str name, v) ∈ (Term.fields attributes').entries :=
          List.mem_map_of_mem (f := fun a => (Term.str a.1, a.2)) (mem_of_attributes_get? found)
        obtain ⟨e, mem, same⟩ := List.mem_map.1 (perm.subset stands)
        obtain ⟨key, rfl⟩ := Prod.mk.inj same
        have there := keyed.lookup?_eq mem
        rw [key] at there
        exact (each e mem).null_iff.1 (absent e.2 there)
      exact ⟨unable declarative.1, unable declarative.2⟩
    | _ => cases form
  | _ => trivial

end Term

/-- A spec tree stays one when its entries and those of the constraints are reordered. -/
theorem SpecTree.reordered {leaf : Term → Prop} (atomic : ∀ t, leaf t → t.Atomic)
    {constraint constraint' : Nat → Term}
    (constraints : ∀ id, (constraint id).Reordered (constraint' id)) {spec spec' : Term}
    (tree : SpecTree leaf constraint spec) (reordered : spec.Reordered spec') :
    SpecTree leaf constraint' spec' := by
  induction tree generalizing spec' with
  | leaf h =>
    obtain rfl := reordered.eq_of_atomic (atomic _ h)
    exact .leaf h
  | container shape declarative keyed _ ih =>
    obtain ⟨f, each, perm⟩ := reordered.exists_entries shape
    refine .container (reordered.isContainer_eq.trans shape)
      (reordered.declarative declarative keyed) (keyed.of_perm perm) fun d mem => ?_
    obtain ⟨e, he, rfl⟩ := List.mem_map.1 (perm.subset mem)
    exact ih e he (each e he)
  | allOf _ ih =>
    obtain ⟨specs', rfl, each⟩ := reordered.join_inv .allOf
    refine .allOf fun t mem => ?_
    obtain ⟨s, hs, inside⟩ := exists_mem_of_forall₂ each mem
    exact ih s hs inside
  | anyOf _ ih =>
    obtain ⟨specs', rfl, each⟩ := reordered.join_inv .anyOf
    refine .anyOf fun t mem => ?_
    obtain ⟨s, hs, inside⟩ := exists_mem_of_forall₂ each mem
    exact ih s hs inside
  | negation _ ih =>
    obtain ⟨inner, rfl, inside⟩ := reordered.wrap_inv .negation
    exact .negation (ih inside)
  | maybe _ ih =>
    obtain ⟨inner, rfl, inside⟩ := reordered.wrap_inv .maybe
    exact .maybe (ih inside)
  | strict _ ih =>
    obtain ⟨inner, rfl, inside⟩ := reordered.wrap_inv .strict
    exact .strict (ih inside)
  | everyItem _ ih =>
    obtain ⟨inner, rfl, inside⟩ := reordered.wrap_inv .everyItem
    exact .everyItem (ih inside)
  | someItem _ ih =>
    obtain ⟨inner, rfl, inside⟩ := reordered.wrap_inv .someItem
    exact .someItem (ih inside)
  | @keyed path start length _ ih =>
    obtain ⟨inner, rfl, inside⟩ := reordered.wrap_inv (.keyed start length)
    exact .keyed (ih inside)
  | @free id null =>
    obtain rfl := reordered.eq_of_var
    exact .free ((constraints id).null_iff.1 null)
  | @constrained id bound _ ih =>
    obtain rfl := reordered.eq_of_var
    exact .constrained (fun null => bound ((constraints id).null_iff.2 null))
      (ih (constraints id))

end SpecMatch
