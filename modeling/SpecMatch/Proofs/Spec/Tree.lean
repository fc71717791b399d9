import SpecMatch.Matcher.Create
import SpecMatch.Proofs.Spec.Depth

/-!
# Spec trees

`SpecTree` describes the specs that are built from leaves by containers, connectives, quantifiers,
key specs and variables. A derivation follows the constraints of variables, so a variable whose
constraint leads back to itself is the root of no tree. What counts as a leaf is left open.

Every such spec has a depth (`SpecTree.exists_depth`).
-/

namespace SpecMatch

namespace Term

/-- A field bag that neither binds nor decides acceptance by an attribute of its own. Anything
else than a field bag has no attributes. -/
def Declarative : Term → Prop
  | .fields attributes => ability? attributes "bind" = none ∧ ability? attributes "accepts" = none
  | _ => True

/-- A spec that is not put together from specs. -/
def Atomic : Term → Prop
  | .list _ | .tuple _ | .map .. | .fields _ | .allOf _ | .anyOf _ | .negation _ | .maybe _
  | .strict _ | .everyItem _ | .someItem _ | .keyed .. | .var _ => False
  | _ => True

theorem Atomic.depthWith {spec : Term} (atomic : spec.Atomic) (measure : Nat → Option Nat) :
    spec.depthWith measure = some 1 := by
  cases spec <;> first | rfl | exact atomic.elim

theorem Atomic.scalar {spec : Term} (atomic : spec.Atomic) : spec.isContainer = false := by
  cases spec <;> first | rfl | exact atomic.elim

end Term

/-- The specs that are built from leaves, with the constraints of variables followed. -/
inductive SpecTree (leaf : Term → Prop) (constraint : Nat → Term) : Term → Prop
  | leaf {spec : Term} : leaf spec → SpecTree leaf constraint spec
  | container {spec : Term} : spec.isContainer → spec.Declarative → spec.WellKeyed →
      (∀ e ∈ spec.entries, SpecTree leaf constraint e.2) → SpecTree leaf constraint spec
  | allOf {specs : List Term} : (∀ spec ∈ specs, SpecTree leaf constraint spec) →
      SpecTree leaf constraint (.allOf specs)
  | anyOf {specs : List Term} : (∀ spec ∈ specs, SpecTree leaf constraint spec) →
      SpecTree leaf constraint (.anyOf specs)
  | negation {spec : Term} : SpecTree leaf constraint spec →
      SpecTree leaf constraint (.negation spec)
  | maybe {spec : Term} : SpecTree leaf constraint spec → SpecTree leaf constraint (.maybe spec)
  | strict {spec : Term} : SpecTree leaf constraint spec → SpecTree leaf constraint (.strict spec)
  | everyItem {spec : Term} : SpecTree leaf constraint spec →
      SpecTree leaf constraint (.everyItem spec)
  | someItem {spec : Term} : SpecTree leaf constraint spec →
      SpecTree leaf constraint (.someItem spec)
  | keyed {path : Term} {start : Int} {length : Option Int} : SpecTree leaf constraint path →
      SpecTree leaf constraint (.keyed path start length)
  | free {id : Nat} : constraint id = .null → SpecTree leaf constraint (.var id)
  | constrained {id : Nat} : constraint id ≠ .null → SpecTree leaf constraint (constraint id) →
      SpecTree leaf constraint (.var id)

/-- The constraint of a variable. -/
def Store.constraint (s : Store) (id : Nat) : Term := (s.cell id).constraint

/-- A variable is free if it has no constraint. -/
theorem Cell.free_iff {c : Cell} : c.free = true ↔ c.constraint = .null := by
  unfold Cell.free
  cases c.constraint <;> simp

theorem Cell.free_eq_false_iff {c : Cell} : c.free = false ↔ c.constraint ≠ .null := by
  rw [Bool.eq_false_iff, ne_eq, Cell.free_iff]

/-- A spec with more leaves allowed is still a tree. -/
theorem SpecTree.mono {leaf leaf' : Term → Prop} {constraint : Nat → Term} {spec : Term}
    (tree : SpecTree leaf constraint spec) (imp : ∀ t, leaf t → leaf' t) :
    SpecTree leaf' constraint spec := by
  induction tree with
  | leaf h => exact .leaf (imp _ h)
  | container shape declarative keyed _ ih => exact .container shape declarative keyed ih
  | allOf _ ih => exact .allOf ih
  | anyOf _ ih => exact .anyOf ih
  | negation _ ih => exact .negation ih
  | maybe _ ih => exact .maybe ih
  | strict _ ih => exact .strict ih
  | everyItem _ ih => exact .everyItem ih
  | someItem _ ih => exact .someItem ih
  | keyed _ ih => exact .keyed ih
  | free h => exact .free h
  | constrained h _ ih => exact .constrained h ih

/-- Every spec that is a tree has a depth: constraints come to an end. -/
theorem SpecTree.exists_depth {leaf : Term → Prop} (atomic : ∀ t, leaf t → t.Atomic) {s : Store}
    {spec : Term} (tree : SpecTree leaf s.constraint spec) :
    ∃ depth, s.depth? spec = some depth := by
  rw [s.depth?_eq]
  have step {measured : Option Nat} (h : ∃ d, measured = some d) :
      ∃ d, measured.map (1 + ·) = some d := by
    obtain ⟨d, rfl⟩ := h
    exact ⟨1 + d, rfl⟩
  induction tree with
  | leaf h => exact ⟨1, (atomic _ h).depthWith _⟩
  | container shape _ _ _ ih =>
    rw [Term.depthWith_container shape]
    refine step (Term.exists_deepest fun x mem => ?_)
    obtain ⟨e, he, rfl⟩ := List.mem_map.1 mem
    exact ih e he
  | allOf _ ih => exact step (Term.exists_deepest ih)
  | anyOf _ ih => exact step (Term.exists_deepest ih)
  | negation _ ih => exact step ih
  | maybe _ ih => exact step ih
  | strict _ ih => exact step ih
  | everyItem _ ih => exact step ih
  | someItem _ ih => exact step ih
  | keyed _ ih => exact step ih
  | free h => exact ⟨1, if_pos (Cell.free_iff.2 h)⟩
  | constrained h _ ih =>
    rw [← s.depth?_eq] at ih
    obtain ⟨d, hd⟩ := step ih
    exact ⟨d, (if_neg fun free => h (Cell.free_iff.1 free)).trans hd⟩

/-! ## Budgets that cover a spec -/

/-- A budget suffices to go through a spec. -/
def Store.Covers (s : Store) (budget : Nat) (spec : Term) : Prop :=
  ∃ depth, s.depth? spec = some depth ∧ depth ≤ budget

/-- The budget that a match is given covers its spec. -/
theorem Store.covers_budget {s : Store} {spec : Term} {depth : Nat}
    (deep : s.depth? spec = some depth) (arguments : List Term) :
    s.Covers (s.budget spec arguments) spec := by
  refine ⟨depth, deep, ?_⟩
  simp only [budget, deep, Option.getD_some]
  omega

/-- A match is given at least a level for each term in its spec and in the constraints on the way
down. -/
theorem Store.programs_le_budget (s : Store) (spec : Term) (arguments : List Term) :
    s.constraintNesting + spec.nesting ≤ s.budget spec arguments := by
  have positive : 0 < Term.totalNesting arguments + 2 := Nat.succ_pos _
  have programs := Nat.le_mul_of_pos_right (s.constraintNesting +
    Term.totalNesting (spec :: arguments.filter (·.isCallable))) positive
  simp only [Term.totalNesting] at programs
  simp only [budget, Term.totalNesting]
  omega

/-- What is left of it for the entries of a container covers those that have a depth, whether all of
them have one or not. -/
theorem Store.covers_entry {s : Store} {spec : Term} {e : Term × Term} (mem : e ∈ spec.entries)
    {depth : Nat} (deep : s.depth? e.2 = some depth) (arguments : List Term) :
    s.Covers (s.budget spec arguments - 1) e.2 := by
  refine ⟨depth, deep, ?_⟩
  have nested := Term.nesting_lt_of_mem mem
  have le := s.depth?_le deep
  have given := s.programs_le_budget spec arguments
  omega

section

variable {s : Store} {budget : Nat} {spec : Term}

/-- What covers a spec one level above others has a level more than what covers these. -/
theorem Store.Covers.below {inner : Option Nat} (covers : s.Covers budget spec)
    (above : s.depth? spec = inner.map (1 + ·)) :
    ∃ below depth, budget = below + 1 ∧ inner = some depth ∧ depth ≤ below := by
  obtain ⟨depth, deep, le⟩ := covers
  rw [above] at deep
  obtain ⟨d, hd, rfl⟩ := Option.map_eq_some_iff.1 deep
  exact ⟨budget - 1, d, by omega, hd, by omega⟩

theorem Store.Covers.inner {inner : Term} (covers : s.Covers budget spec)
    (above : ∀ measure, spec.depthWith measure = (inner.depthWith measure).map (1 + ·)) :
    ∃ below, budget = below + 1 ∧ s.Covers below inner := by
  have above := above (s.varDepth s.depth?)
  rw [← s.depth?_eq] at above
  obtain ⟨below, depth, rfl, deep, le⟩ := covers.below above
  exact ⟨below, rfl, depth, deep, le⟩

theorem Store.Covers.members {specs : List Term} (covers : s.Covers budget spec)
    (above : ∀ measure, spec.depthWith measure = (Term.deepest measure specs).map (1 + ·)) :
    ∃ below, budget = below + 1 ∧ ∀ x ∈ specs, s.Covers below x := by
  have above := above (s.varDepth s.depth?)
  obtain ⟨below, depth, rfl, deep, le⟩ := covers.below ((congrFun s.depth?_eq spec).trans above)
  refine ⟨below, rfl, fun x mem => ?_⟩
  obtain ⟨d, hd, le'⟩ := Term.depthWith_of_mem deep mem
  rw [← s.depth?_eq] at hd
  exact ⟨d, hd, Nat.le_trans le' le⟩

theorem Store.Covers.entries (covers : s.Covers budget spec) (shape : spec.isContainer) :
    ∃ below, budget = below + 1 ∧ ∀ e ∈ spec.entries, s.Covers below e.2 := by
  obtain ⟨below, rfl, inside⟩ := covers.members fun _ => Term.depthWith_container shape
  exact ⟨below, rfl, fun e mem => inside e.2 (List.mem_map_of_mem mem)⟩

theorem Store.Covers.constraint {id : Nat} (covers : s.Covers budget (.var id))
    (constrained : s.constraint id ≠ .null) :
    ∃ below, budget = below + 1 ∧ s.Covers below (s.constraint id) := by
  have above : s.depth? (.var id) = (s.depth? (s.constraint id)).map (1 + ·) :=
    (congrFun s.depth?_eq (.var id)).trans
      (if_neg fun free => constrained (Cell.free_iff.1 free))
  obtain ⟨below, depth, rfl, deep, le⟩ := covers.below above
  exact ⟨below, rfl, depth, deep, le⟩

/-- Nothing is covered without a level. -/
theorem Store.Covers.pos (flat : s.depth? spec = some 1) (covers : s.Covers budget spec) :
    ∃ below, budget = below + 1 := by
  obtain ⟨depth, deep, le⟩ := covers
  rw [flat] at deep
  cases deep
  exact ⟨budget - 1, by omega⟩

theorem Store.depth?_atomic (s : Store) (atomic : spec.Atomic) : s.depth? spec = some 1 :=
  (congrFun s.depth?_eq spec).trans (atomic.depthWith _)

theorem Store.depth?_free {id : Nat} (free : s.constraint id = .null) :
    s.depth? (.var id) = some 1 :=
  (congrFun s.depth?_eq (.var id)).trans (if_pos (Cell.free_iff.2 free))

end

end SpecMatch
