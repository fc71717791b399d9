import SpecMatch.Proofs.Spec.Tree
import SpecMatch.Proofs.Term.Nesting
import SpecMatch.Proofs.Term.Shape

/-!
# The map form of a spec

`Term.asMap` turns every container in a spec into a plain map with the same entries. Two things
stay as they are because more than their entries counts: a field bag with an attribute by which it
binds or decides acceptance, and the array that is the path of a key spec, which is compared with
a path segment by segment. What is called or compared as a whole, such as a handler or an operand,
is no spec and stays as well.

The map form is as deep as the spec and nested as deeply (`asMap_asDeepAs`), so both are matched
with the same budget (`Store.budget_congr`).
-/

namespace SpecMatch

namespace Term

mutual

/-- A spec with every container in it read as a plain map. -/
def asMap : Term → Term
  | .list items | .tuple items => .map .plain (positions 0 (asMapItems items))
  | .map _ entries => .map .plain (asMapEntries entries)
  | .fields attributes =>
    if ability? attributes "bind" = none ∧ ability? attributes "accepts" = none then
      .map .plain (asMapAttributes attributes)
    else .fields attributes
  | .allOf specs => .allOf (asMapItems specs)
  | .anyOf specs => .anyOf (asMapItems specs)
  | .negation spec => .negation (asMap spec)
  | .maybe spec => .maybe (asMap spec)
  | .strict spec => .strict (asMap spec)
  | .everyItem spec => .everyItem (asMap spec)
  | .someItem spec => .someItem (asMap spec)
  | .keyed (.list specs) start length | .keyed (.tuple specs) start length =>
    .keyed (.list (asMapItems specs)) start length
  | .keyed path start length => .keyed (asMap path) start length
  | x => x

/-- The map forms of a sequence of specs. -/
def asMapItems : List Term → List Term
  | [] => []
  | x :: xs => asMap x :: asMapItems xs

/-- Entries with the map forms of their specs. -/
def asMapEntries : List (Term × Term) → List (Term × Term)
  | [] => []
  | (k, v) :: es => (k, asMap v) :: asMapEntries es

/-- Attributes as entries with the map forms of their specs. -/
def asMapAttributes : List (String × Term) → List (Term × Term)
  | [] => []
  | (n, v) :: as => (.str n, asMap v) :: asMapAttributes as

end

/-! ## Form by form -/

theorem asMapItems_eq (items : List Term) : asMapItems items = items.map asMap :=
  eq_map_of_cons rfl (fun _ _ => rfl) items

theorem asMapEntries_eq (entries : Entries) :
    asMapEntries entries = entries.map fun e => (e.1, e.2.asMap) :=
  eq_map_of_cons rfl (fun _ _ => rfl) entries

theorem asMapAttributes_eq (attributes : Attributes) :
    asMapAttributes attributes = attributes.map fun a => (.str a.1, a.2.asMap) :=
  eq_map_of_cons rfl (fun _ _ => rfl) attributes

theorem positions_map (f : Term → Term) (items : List Term) (start : Nat) :
    positions start (items.map f) = (positions start items).map fun e => (e.1, f e.2) := by
  induction items generalizing start with
  | nil => rfl
  | cons x xs ih => rw [List.map_cons, positions, positions, ih, List.map_cons]

/-- A container becomes the map with the same keys and the map forms of what is under them. -/
theorem asMap_container {x : Term} (container : x.isContainer) (declarative : x.Declarative) :
    x.asMap = .map .plain (x.entries.map fun e => (e.1, e.2.asMap)) := by
  cases x with
  | list items | tuple items => rw [asMap, asMapItems_eq, positions_map, entries]
  | map kind entries => rw [asMap, asMapEntries_eq, Term.entries]
  | fields attributes =>
    have plain : ability? attributes "bind" = none ∧ ability? attributes "accepts" = none :=
      declarative
    rw [asMap, if_pos plain, asMapAttributes_eq, entries, List.map_map]
    rfl
  | _ => cases container

theorem asMap_fields {attributes : Attributes}
    (ability : ¬ (Term.fields attributes).Declarative) :
    (Term.fields attributes).asMap = .fields attributes := by
  rw [asMap]
  exact if_neg ability

theorem asMap_allOf (specs : List Term) : (allOf specs).asMap = .allOf (specs.map asMap) := by
  rw [asMap, asMapItems_eq]

theorem asMap_anyOf (specs : List Term) : (anyOf specs).asMap = .anyOf (specs.map asMap) := by
  rw [asMap, asMapItems_eq]

/-- The path of a key spec: an array stays an array, whichever of the two it is. -/
def asMapPath : Term → Term
  | .list specs | .tuple specs => .list (specs.map asMap)
  | path => path.asMap

theorem asMap_keyed (path : Term) (start : Int) (length : Option Int) :
    (keyed path start length).asMap = .keyed path.asMapPath start length := by
  cases path <;> first | rfl | rw [asMap, asMapItems_eq, asMapPath]

/-! ## Depth and nesting -/

theorem nestingOfPairs_positions (items : List Term) (start : Nat) :
    nestingOfPairs (positions start items) = nestingOfItems items := by
  induction items generalizing start with
  | nil => rfl
  | cons x xs ih =>
    have number : nesting (.int start) ≤ x.nesting := x.nesting_pos
    rw [positions, nestingOfPairs, nestingOfItems, ih, Nat.max_eq_right number]

theorem nestingOfPairs_attributes (attributes : Attributes) :
    nestingOfPairs (attributes.map fun a => (.str a.1, a.2)) = nestingOfAttributes attributes := by
  induction attributes with
  | nil => rfl
  | cons a rest ih =>
    have name : nesting (.str a.1) ≤ a.2.nesting := a.2.nesting_pos
    rw [List.map_cons, nestingOfPairs, nestingOfAttributes, ih, Nat.max_eq_right name]

/-- A container is nested a level more than its entries. -/
theorem nesting_container {x : Term} (container : x.isContainer) :
    x.nesting = nestingOfPairs x.entries + 1 := by
  cases x with
  | list items | tuple items => rw [entries, nestingOfPairs_positions, nesting]
  | map kind entries => rw [Term.entries, nesting]
  | fields attributes => rw [entries, nestingOfPairs_attributes, nesting]
  | _ => cases container

/-- Two specs that are as deep as each other and nested as deeply. -/
structure AsDeepAs (measure : Nat → Option Nat) (x y : Term) : Prop where
  depth : x.depthWith measure = y.depthWith measure
  nesting : x.nesting = y.nesting

section

variable {measure : Nat → Option Nat} {f : Term → Term}

theorem AsDeepAs.items {xs : List Term} (each : ∀ x ∈ xs, (f x).AsDeepAs measure x) :
    deepest measure (xs.map f) = deepest measure xs ∧
      nestingOfItems (xs.map f) = nestingOfItems xs := by
  induction xs with
  | nil => exact ⟨rfl, rfl⟩
  | cons x xs ih =>
    obtain ⟨first, later⟩ := List.forall_mem_cons.1 each
    obtain ⟨depths, nestings⟩ := ih later
    rw [List.map_cons, deepest, deepest, nestingOfItems, nestingOfItems, first.depth,
      first.nesting, depths, nestings]
    exact ⟨rfl, rfl⟩

theorem AsDeepAs.pairs {entries : Entries} (each : ∀ e ∈ entries, (f e.2).AsDeepAs measure e.2) :
    nestingOfPairs (entries.map fun e => (e.1, f e.2)) = nestingOfPairs entries := by
  induction entries with
  | nil => rfl
  | cons e rest ih =>
    obtain ⟨first, later⟩ := List.forall_mem_cons.1 each
    rw [List.map_cons, nestingOfPairs, nestingOfPairs, first.nesting, ih later]

/-- Changing what is under the keys of a container, and its kind, leaves it as deep as it is. -/
theorem AsDeepAs.container {x : Term} (container : x.isContainer)
    (each : ∀ e ∈ x.entries, (f e.2).AsDeepAs measure e.2) :
    (map .plain (x.entries.map fun e => (e.1, f e.2))).AsDeepAs measure x := by
  have is_map : (map .plain (x.entries.map fun e => (e.1, f e.2))).isContainer := rfl
  have children : (map .plain (x.entries.map fun e => (e.1, f e.2))).children =
      x.children.map f := by
    simp only [Term.children, Term.entries, List.map_map]
    rfl
  constructor
  · have members : ∀ y ∈ x.children, (f y).AsDeepAs measure y := by
      intro y mem
      obtain ⟨e, he, rfl⟩ := List.mem_map.1 mem
      exact each e he
    rw [depthWith_container is_map, depthWith_container container, children,
      (AsDeepAs.items members).1]
  · rw [nesting_container is_map, nesting_container container]
    exact congrArg (· + 1) (AsDeepAs.pairs each)

theorem AsDeepAs.entries {x : Term} (container : x.isContainer) :
    (map .plain x.entries).AsDeepAs measure x := by
  have unchanged (e : Term × Term) (_ : e ∈ x.entries) : (id e.2).AsDeepAs measure e.2 := ⟨rfl, rfl⟩
  have same := AsDeepAs.container container unchanged
  rwa [show (fun e : Term × Term => (e.1, id e.2)) = id from rfl, List.map_id] at same

end

/-- The map form of a spec is as deep as the spec and nested as deeply. -/
theorem asMap_asDeepAs (measure : Nat → Option Nat) (x : Term) :
    x.asMap.AsDeepAs measure x := by
  induction nesting : x.nesting using Nat.strong_induction_on generalizing x with
  | _ n ih =>
  subst nesting
  have inside {y : Term} (less : y.nesting < x.nesting) := ih y.nesting less y rfl
  have members {specs : List Term} (less : nestingOfItems specs < x.nesting) :=
    AsDeepAs.items fun y (mem : y ∈ specs) =>
      inside (Nat.lt_of_le_of_lt (nesting_le_of_mem_items mem) less)
  have containers (container : x.isContainer) (declarative : x.Declarative) :
      x.asMap.AsDeepAs measure x := by
    rw [asMap_container container declarative]
    exact .container container fun e mem => inside (nesting_lt_of_mem mem)
  cases x with
  | list items | tuple items | map kind entries => exact containers rfl trivial
  | fields attributes =>
    by_cases declarative : (fields attributes).Declarative
    · exact containers rfl declarative
    · rw [asMap_fields declarative]
      exact ⟨rfl, rfl⟩
  | allOf specs =>
    obtain ⟨depths, nestings⟩ := members (Nat.lt_succ_self (nestingOfItems specs))
    rw [asMap_allOf]
    exact ⟨congrArg (Option.map _) depths, congrArg (· + 1) nestings⟩
  | anyOf specs =>
    obtain ⟨depths, nestings⟩ := members (Nat.lt_succ_self (nestingOfItems specs))
    rw [asMap_anyOf]
    exact ⟨congrArg (Option.map _) depths, congrArg (· + 1) nestings⟩
  | negation spec | maybe spec | strict spec | everyItem spec | someItem spec =>
    obtain ⟨depth, nested⟩ := inside (Nat.lt_succ_self spec.nesting)
    exact ⟨congrArg (Option.map _) depth, congrArg (· + 1) nested⟩
  | keyed path start length =>
    have same : path.asMapPath.AsDeepAs measure path := by
      cases path with
      | list specs | tuple specs =>
        obtain ⟨depths, nestings⟩ := members (Nat.lt_add_of_pos_right (Nat.succ_pos 1))
        exact ⟨congrArg (Option.map _) depths, congrArg (· + 1) nestings⟩
      | _ => exact inside (Nat.lt_succ_self _)
    rw [asMap_keyed]
    exact ⟨congrArg (Option.map _) same.depth, congrArg (· + 1) same.nesting⟩
  | _ => exact ⟨rfl, rfl⟩

end Term

/-- Specs that are as deep as each other are given the same budget. -/
theorem Store.budget_congr {s : Store} {x y : Term}
    (same : x.AsDeepAs (s.varDepth s.depth?) y) (arguments : List Term) :
    s.budget x arguments = s.budget y arguments := by
  have depth : s.depth? x = s.depth? y := by
    rw [s.depth?_eq]
    exact same.depth
  simp only [budget, depth, Term.totalNesting, same.nesting]

end SpecMatch
