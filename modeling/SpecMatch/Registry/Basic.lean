import SpecMatch.Describe
import SpecMatch.Registry.Import
import SpecMatch.Term.Callable
import SpecMatch.Term.Order

/-!
# Type registries

A registry maps type names to classes or to import paths of classes. It is built by adding one
entry after the other, a later one under the same name replacing the earlier, and does not change
afterwards. `Registry.resolve` finds the class of a name and tells how an import went.
-/

namespace SpecMatch

/-- A mapping of type names to their targets: a class, or the text of an import path. -/
structure Registry where
  targets : Entries := []

namespace Registry

/-- The largest number of characters in the name of a type. -/
def nameLimit : Nat := 256

/-- The registry with a target under a name. The name must be a term with a length, not empty and
not too long, that can be hashed. -/
def add (r : Registry) (name target : Term) : Except Fault Registry :=
  if !name.truthy then .error (.invalidName .empty)
  else match name.length? with
    | none => .error (.misuse .noLength)
    | some length =>
      if length > nameLimit then .error (.invalidName (.tooLong length nameLimit))
      else if name.hashable then .ok ⟨r.targets.insert name target⟩
      else .error (.misuse .unhashable)

/-- The registry with several targets, each under its name. -/
def addAll (r : Registry) (targets : List (String × String)) : Except Fault Registry :=
  targets.foldlM (fun r t => r.add (.str t.1) (.str t.2)) r

/-- Aliases of the abstract collection and number classes. -/
def builtinTypes : List (String × String) :=
  [("Mapping", "collections.abc.Mapping"), ("Sequence", "collections.abc.Sequence"),
    ("Iterable", "collections.abc.Iterable"), ("Callable", "collections.abc.Callable"),
    ("Hashable", "collections.abc.Hashable"), ("Number", "numbers.Number")]

/-- The shapes, a small hierarchy of classes to try a registry with. -/
def shapeTypes : List (String × String) :=
  [("Shape", "philo.testing.Shape"), ("Circle", "philo.testing.Circle"),
    ("Square", "philo.testing:Square")]

/-- Whether a name is registered. -/
def contains (r : Registry) (name : String) : Bool := (r.targets.get? (.str name)).isSome

/-- The number of registered names. -/
def count (r : Registry) : Nat := r.targets.length

/-- The registered names in increasing order. -/
def names (r : Registry) : Except Fault (List Term) :=
  match Term.sort? (fun m n => m == n) (r.targets.map (·.1)) with
  | some names => .ok names
  | none => .error (.misuse .unordered)

/-- Finishes a registry and tells which names it has. -/
def build (r : Registry) : Eval Registry := do
  Eval.emit (.built (← Eval.ofExcept r.names))
  return r

/-- Imports the attribute that a path leads to. -/
def importPath (modules : Modules) (name path : String) : Eval Term := do
  let unresolved {α : Type} (reason : Unresolved) : Eval α := throw (.unresolvedType name reason)
  match ImportPath.parse? path with
  | none => unresolved (.malformedPath path)
  | some ⟨module, member⟩ =>
    if module.startsWith "." then Eval.misuse .relativeModule
    else match modules.find module with
      | .error failure =>
        Eval.emit (.importFailed name path)
        unresolved (.importFailed module failure)
      | .ok found =>
        match found.attributes.get? member with
        | none =>
          Eval.emit (.importFailed name path)
          unresolved (.noAttribute module member)
        | some target =>
          Eval.emit (.resolved name path)
          return target

/-- The class that a term is, for a type name that stands for it. -/
def classNamed (name : String) : Term → Eval Class
  | .cls c => pure c
  | target => do
    throw (.unresolvedType name (.notClass ((← Eval.store).describe target)))

/-- The class that is registered under a name. -/
def resolve (r : Registry) (modules : Modules) (name : String) : Eval Class := do
  match r.targets.get? (.str name) with
  | none | some .null => throw (.unresolvedType name .notRegistered)
  | some (.str path) => classNamed name (← importPath modules name path)
  | some target => classNamed name target

end Registry

end SpecMatch
