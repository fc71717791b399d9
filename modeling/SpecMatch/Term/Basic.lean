import SpecMatch.Numeric.Double
import SpecMatch.Term.Class

/-!
# Terms

Values, specs, keys, handlers and results are all terms: a spec may stand where a value stands,
and what a match answers may be matched again. `Term` has a constructor for every form that the
library tells apart; objects of the host appear as handles whose behaviour is supplied when a
match runs.
-/

namespace SpecMatch

/-- The three kinds of maps. They hold the same entries and differ in their class. -/
inductive MapKind where
  | plain | ordered | proxy
deriving DecidableEq

/-- The functions that the library itself provides as specs and handlers. -/
inductive Builtin where
  | isBool | isInt | isFloat | isNumeric | isString | isScalar | isList | isMapping | isNamespace
  | isCallable | isNull | isUrl | isContainer
  /-- Answers its first argument. -/
  | identity
  /-- Dispatches every child of a container under its extended key. -/
  | descend
deriving DecidableEq

/-- How many arguments a callable takes; without an upper bound any larger number will do. -/
structure Arity where
  least : Nat
  most : Option Nat
deriving DecidableEq

/-- Whether a callable accepts a number of arguments. -/
def Arity.admits (a : Arity) (count : Nat) : Bool :=
  a.least ≤ count && (match a.most with | some most => count ≤ most | none => true)

/-- An object of the host: its identity, its class and which of the three ways of taking part in a
match it has. An object that is compared by what it has been asked has a name under which that is
remembered, any other one equals only itself. -/
structure Handle where
  id : Nat
  cls : Class
  binds : Bool
  accepts : Bool
  arity : Option Arity
  memory : Option String := none
deriving DecidableEq

/-- A value, a spec, a key, a handler or a result. -/
inductive Term where
  | null
  | bool (b : Bool)
  | int (i : Int)
  | float (x : Double)
  | str (s : String)
  | bytes (bs : List UInt8)
  /-- Marks an absent child, as opposed to a present `null`. -/
  | missing
  | list (items : List Term)
  | tuple (items : List Term)
  | map (kind : MapKind) (entries : List (Term × Term))
  | fields (attributes : List (String × Term))
  | circle (radius : Term)
  | square (side : Term)
  /-- A rejected value, or a container of results. -/
  | left (payload : Term)
  /-- An accepted value, or a container of results. -/
  | right (payload : Term)
  | cls (c : Class)
  | builtin (f : Builtin)
  /-- Compares the value with an operand. -/
  | comparison (symbol : String) (operand : Term)
  /-- Holds of the listed options; a strict one also asks for the same class. -/
  | oneOf (options : List Term) (strict : Bool)
  | allOf (specs : List Term)
  | anyOf (specs : List Term)
  | negation (spec : Term)
  /-- Accepts `null` and whatever the inner spec accepts. -/
  | maybe (spec : Term)
  /-- Rejects containers with keys that the inner spec does not declare. -/
  | strict (spec : Term)
  | everyItem (spec : Term)
  | someItem (spec : Term)
  /-- Matches the path against a segment of the key instead of the value. -/
  | keyed (path : Term) (start : Int) (length : Option Int)
  /-- A handler that is answered verbatim. -/
  | action (result : Term)
  /-- Applies several functions to the same arguments. -/
  | fanout (functions : List Term)
  /-- An ordered table of specs with their handlers. -/
  | dispatcher (cases : List (Term × Term))
  /-- A logic variable, by the cell that holds its binding. -/
  | var (cell : Nat)
  /-- A handler that answers its result and records how it was called. -/
  | recorder (name : String) (result : Term)
  | object (handle : Handle)
  /-- A scalar that is known only by its class and its written form, equals nothing else and has no
  order. Numbers of the host are none of these. -/
  | foreign (c : Class) (text : String)

namespace Term

instance : Inhabited Term := ⟨.null⟩

/-- The exact class of a term. -/
def classOf : Term → Class
  | .null => .null
  | .bool _ => .bool
  | .int _ => .int
  | .float _ => .float
  | .str _ => .str
  | .bytes _ => .bytes
  | .missing => .missing
  | .list _ => .list
  | .tuple _ => .tuple
  | .map .plain _ => .plainMap
  | .map .ordered _ => .orderedMap
  | .map .proxy _ => .proxy
  | .fields _ => .fields
  | .circle _ => .circle
  | .square _ => .square
  | .left _ => .left
  | .right _ => .right
  | .cls c => c.kind
  | .builtin _ => .function
  | .comparison .. => .comparison
  | .oneOf .. => .membership
  | .allOf _ => .allOf
  | .anyOf _ => .anyOf
  | .negation _ => .negation
  | .maybe _ => .maybe
  | .strict _ => .strict
  | .everyItem _ => .everyItem
  | .someItem _ => .someItem
  | .keyed .. => .keySpec
  | .action _ => .action
  | .fanout _ => .fanout
  | .dispatcher _ => .dispatcher
  | .var _ => .variable
  | .recorder .. => .recorder
  | .object handle => handle.cls
  | .foreign c _ => c

/-- The name under which what a term is asked is remembered, if it is compared by that. -/
def memory? : Term → Option String
  | .recorder name _ => some name
  | .object handle => handle.memory
  | _ => none

end Term

end SpecMatch
