import SpecMatch.Term.Class
import SpecMatch.Text.Quoted
import SpecMatch.Yaml.Error

/-!
# Faults

Rejecting a value is never a fault. A fault reports a mistake of the caller: a malformed table, a
type name that cannot be resolved, a malformed configuration, or an operation on a term that does
not support it. `Fault` lists the causes and `Fault.message?` gives each its wording; faults that
stand for a plain misuse have none.
-/

namespace SpecMatch

/-- What is wrong with a dispatch table. -/
inductive TableFlaw where
  /-- A spec was left without a handler. -/
  | unpaired (arguments : Nat)
  /-- A handler is a class. -/
  | classHandler (index : Nat) (c : Class)
  /-- A handler is the result of a match, given by its written form. -/
  | resultHandler (index : Nat) (text : String)
deriving DecidableEq

/-- Why a module cannot be imported. -/
inductive ImportFailure where
  | absent (module : String)
  /-- The module was sought below a module that is no package. -/
  | notPackage (module parent : String)
deriving DecidableEq

/-- Why a type name cannot be resolved to a class. -/
inductive Unresolved where
  | notRegistered
  | malformedPath (path : String)
  | importFailed (module : String) (failure : ImportFailure)
  | noAttribute (module name : String)
  /-- The target is no class; its written form is given. -/
  | notClass (text : String)
deriving DecidableEq

/-- What is wrong with a registry configuration. -/
inductive ConfigFlaw where
  | notMap (actual : Class)
  | typesNotMap (actual : Class)
  | nameNotText (actual : Class)
  | pathNotText (name : String) (actual : Class)
  | builtinsNotBool (actual : Class)
deriving DecidableEq

/-- What is wrong with the name of a type. -/
inductive NameFlaw where
  | empty
  | tooLong (length limit : Nat)
deriving DecidableEq

/-- An operation that a term does not support. -/
inductive Misuse where
  | notCallable | argumentCount | unhashable | notIterable | noLength | unordered
  /-- A module name that starts with a dot is relative to nothing. -/
  | relativeModule
  /-- A class refuses to say which terms are its instances. -/
  | instanceCheck
deriving DecidableEq

/-- A mistake of the caller that ends an operation. -/
inductive Fault where
  | malformedTable (flaw : TableFlaw)
  | unresolvedType (name : String) (reason : Unresolved)
  | malformedConfig (flaw : ConfigFlaw)
  | invalidName (flaw : NameFlaw)
  /-- Only containers can be rebuilt. -/
  | scalarRebuild (actual : Class)
  | misuse (cause : Misuse)
  /-- Something was looked up under a name that nothing has. -/
  | noSuchKey
  /-- A text cannot be read as YAML. -/
  | malformedText (error : Yaml.Error)
  /-- The evaluation is nested more deeply than its budget allows. -/
  | nestingLimit
  /-- An integer has too many digits to be written. -/
  | tooManyDigits
  /-- A failure of the host, known by its kind. -/
  | host (kind : String)
deriving DecidableEq

/-- The wording of a flaw in a table. -/
def TableFlaw.message : TableFlaw → String
  | .unpaired arguments =>
    "match() takes spec/handler pairs, got " ++ Nat.repr arguments ++ " arguments"
  | .classHandler index c =>
    "case " ++ Nat.repr index ++ ": handler " ++ c.name ++
      " is a class; wrap it in Action() to return it"
  | .resultHandler index text =>
    "case " ++ Nat.repr index ++ ": handler " ++ text ++ " is a match result, not a handler"

/-- The wording of a failed import. -/
def ImportFailure.message : ImportFailure → String
  | .absent module => "No module named " ++ Text.quote module
  | .notPackage module parent =>
    "No module named " ++ Text.quote module ++ "; " ++ Text.quote parent ++ " is not a package"

/-- The wording of a reason why a name cannot be resolved. -/
def Unresolved.message : Unresolved → String
  | .notRegistered => "not registered"
  | .malformedPath path => "malformed import path " ++ Text.quote path
  | .importFailed module failure =>
    "cannot import " ++ Text.quote module ++ ": " ++ failure.message
  | .noAttribute module name =>
    Text.quote module ++ " has no attribute " ++ Text.quote name
  | .notClass text => text ++ " is not a class"

/-- The wording of a flaw in a configuration. -/
def ConfigFlaw.message : ConfigFlaw → String
  | .notMap actual => "expected dict, got " ++ actual.name
  | .typesNotMap actual => "'types' must be a dict, got " ++ actual.name
  | .nameNotText actual => "type name must be a string, got " ++ actual.name
  | .pathNotText name actual =>
    "import path for " ++ Text.quote name ++ " must be a string, got " ++ actual.name
  | .builtinsNotBool actual => "'builtins' must be a bool, got " ++ actual.name

/-- The wording of a flaw in a name. -/
def NameFlaw.message : NameFlaw → String
  | .empty => "type name must be a non-empty string"
  | .tooLong length limit =>
    "type name length " ++ Nat.repr length ++ " exceeds maximum " ++ Nat.repr limit

/-- The wording of a fault, if it has one. -/
def Fault.message? : Fault → Option String
  | .malformedTable flaw => some flaw.message
  | .unresolvedType name reason =>
    some ("cannot resolve type " ++ Text.quote name ++ ": " ++ reason.message)
  | .malformedConfig flaw => some flaw.message
  | .invalidName flaw => some ("invalid config: " ++ flaw.message)
  | .scalarRebuild actual => some ("cannot rebuild a scalar of type " ++ actual.name)
  | .malformedText .malformed => some "invalid YAML"
  | .malformedText _ | .misuse _ | .noSuchKey | .nestingLimit | .tooManyDigits | .host _ => none

end SpecMatch
