import SpecMatch.Registry.Basic

/-!
# Registry configurations

A configuration is a plain or ordered map with two optional entries: `types`, a map of type names
to import paths, and `builtins`, which asks for the aliases of the abstract classes as well.
`RegistryConfig.parse` checks a term entry by entry and `RegistryConfig.load` builds the registry.
-/

namespace SpecMatch

/-- What a registry is built from: import paths under type names, and whether the aliases of the
abstract classes are wanted. -/
structure RegistryConfig where
  types : List (String × String) := []
  builtins : Bool := false
deriving DecidableEq

namespace RegistryConfig

/-- The entries of a plain or ordered map; a read-only view is not taken for one. -/
def mapEntries? : Term → Option Entries
  | .map .plain entries | .map .ordered entries => some entries
  | _ => none

/-- One import path under its name, if both are text. -/
def parseType (entry : Term × Term) : Except ConfigFlaw (String × String) :=
  match entry with
  | (.str name, .str path) => .ok (name, path)
  | (.str name, path) => .error (.pathNotText name path.classOf)
  | (name, _) => .error (.nameNotText name.classOf)

/-- The import paths under `types`. -/
def parseTypes (data : Entries) : Except ConfigFlaw (List (String × String)) :=
  match data.get? (.str "types") with
  | none => .ok []
  | some types =>
    match mapEntries? types with
    | some entries => entries.mapM parseType
    | none => .error (.typesNotMap types.classOf)

/-- The answer under `builtins`. -/
def parseBuiltins (data : Entries) : Except ConfigFlaw Bool :=
  match data.get? (.str "builtins") with
  | none => .ok false
  | some (.bool b) => .ok b
  | some other => .error (.builtinsNotBool other.classOf)

/-- Reads a configuration from a term. The first flaw found is reported, the types being checked
before the rest. -/
def parse (data : Term) : Except ConfigFlaw RegistryConfig :=
  match mapEntries? data with
  | none => .error (.notMap data.classOf)
  | some entries => do
    let types ← parseTypes entries
    let builtins ← parseBuiltins entries
    return ⟨types, builtins⟩

/-- The registry with everything that the configuration asks for. Its own types come last, so they
win over aliases of the same name. -/
def registry (config : RegistryConfig) : Except Fault Registry := do
  let aliases ← Registry.addAll {} (if config.builtins then Registry.builtinTypes else [])
  aliases.addAll config.types

/-- Builds the registry of a configuration. -/
def load (config : RegistryConfig) : Eval Registry := do
  (← Eval.ofExcept config.registry).build

end RegistryConfig

end SpecMatch
