import SpecMatch.Term.Key
import SpecMatch.Fault

/-!
# Import paths

A class may be registered by a path such as `package.module.Name` or `package.module:Name`.
`ImportPath.parse?` splits a path and `Modules.find` looks a dotted module name up in the modules
that the host offers, from the outermost package inwards.
-/

namespace SpecMatch

/-- A module that the host offers, with its attributes. Only a package has modules below it. -/
structure Module where
  name : String
  isPackage : Bool
  attributes : Attributes

/-- The modules that the host offers. -/
abbrev Modules := List Module

/-- A path to an attribute of a module. -/
structure ImportPath where
  module : String
  name : String
deriving DecidableEq

namespace ImportPath

/-- The text before and after the last occurrence of a separator; everything is after it if there
is none. -/
def splitLast (separator : Char) (cs : List Char) : List Char × List Char :=
  let after := (cs.reverse.takeWhile (· != separator)).reverse
  (cs.take (cs.length - after.length - 1), after)

/-- Splits a path at its first colon, or at its last dot if it has no colon. Both parts must be
there. -/
def parse? (path : String) : Option ImportPath :=
  let cs := path.toList
  let (module, name) :=
    if cs.contains ':' then (cs.takeWhile (· != ':'), (cs.dropWhile (· != ':')).drop 1)
    else splitLast '.' cs
  if module.isEmpty || name.isEmpty then none
  else some ⟨String.ofList module, String.ofList name⟩

end ImportPath

namespace Modules

/-- The names of the packages on the way to a module and of the module itself, outermost first. -/
def stages (name : String) : List String :=
  let cs := name.toList
  let lengths := (List.range cs.length).filter fun i => cs[i]? == some '.'
  (lengths ++ [cs.length]).map fun n => String.ofList (cs.take n)

/-- The module of the given name. -/
def get? (modules : Modules) (name : String) : Option Module := modules.find? (·.name == name)

/-- Looks up the modules on the way one after the other; `parent` is the module before them. -/
def descend (modules : Modules) (parent : Option Module) :
    List String → Except ImportFailure (Option Module)
  | [] => .ok parent
  | stage :: rest =>
    match parent, modules.get? stage with
    | some ⟨outer, false, _⟩, _ => .error (.notPackage stage outer)
    | _, some found => modules.descend (some found) rest
    | _, none => .error (.absent stage)

/-- Finds a module by its dotted name. -/
def find (modules : Modules) (name : String) : Except ImportFailure Module :=
  match modules.descend none (stages name) with
  | .ok (some found) => .ok found
  | .ok none => .error (.absent name)
  | .error failure => .error failure

end Modules

end SpecMatch
