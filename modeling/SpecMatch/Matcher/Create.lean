import SpecMatch.Depth
import SpecMatch.Matcher.Comparison
import SpecMatch.Matcher.Connective
import SpecMatch.Matcher.Dispatch
import SpecMatch.Matcher.Structure
import SpecMatch.Matcher.Variable
import SpecMatch.Predicate.Numeral
import SpecMatch.Predicate.Url
import SpecMatch.Term.Nesting

/-!
# Matching

`Term.reading` decides how a term is read as a spec. The order of precedence is fixed: a class, a
variable or another binder, a container against a container, an acceptor, a function, the name of
a registered type, and last a literal. `createAt` matches by that reading and `callAt` calls a
term, both going deeper through an `Interp` with less budget; `interp` ties the knot.

`create`, `call` and `bind` are what the library offers: they choose the budget.
-/

namespace SpecMatch

/-- How a term is read as a spec. -/
inductive Reading where
  | instanceOf (c : Class)
  | variable (id : Nat)
  /-- An object that records what it matches. -/
  | binder (handle : Handle)
  /-- A field bag that records what it matches by the function in its attribute. -/
  | bindAttribute (function : Term)
  | entries
  /-- An object that decides acceptance itself. -/
  | acceptor (handle : Handle)
  /-- A field bag that decides acceptance by the function in its attribute. -/
  | acceptAttribute (function : Term)
  | function
  | name (s : String)
  | literal

namespace Term

/-- The attribute of a field bag that gives it an ability; `null` gives none. -/
def ability? (attributes : Attributes) (name : String) : Option Term :=
  match Attributes.get? attributes name with
  | some .null => none
  | found => found

/-- How a spec is read against a value. -/
def reading (spec value : Term) : Reading :=
  match spec with
  | .cls c => .instanceOf c
  | .var id => .variable id
  | .str s => .name s
  | .object handle =>
    if handle.binds then .binder handle
    else if handle.accepts then .acceptor handle
    else if handle.arity.isSome then .function
    else .literal
  | .fields attributes =>
    match ability? attributes "bind" with
    | some function => .bindAttribute function
    | none =>
      if value.isContainer then .entries
      else match ability? attributes "accepts" with
        | some function => .acceptAttribute function
        | none => .literal
  | _ =>
    if spec.isContainer then if value.isContainer then .entries else .literal
    else if spec.isCallable then .function
    else .literal

end Term

/-- Whether a value passes one of the tests of the library. -/
def Builtin.test (value : Term) : Builtin → Bool
  | .isBool => value.classOf == .bool
  | .isInt => value.classOf == .int
  | .isFloat => value.classOf == .float
  | .isNumeric =>
    match value with
    | .str s => isNumeral s
    | .int _ | .float _ => true
    | _ => false
  | .isString => value.classOf == .str
  | .isScalar =>
    match value with
    | .bool _ | .int _ | .float _ | .str _ | .bytes _ => true
    | _ => false
  | .isList => value.form? == some .array
  | .isMapping => value.form? == some .map
  | .isNamespace => value.form? == some .fields
  | .isCallable => value.isCallable
  | .isNull => value.isNull
  | .isUrl =>
    match value with
    | .str s => isAbsoluteUrl s
    | _ => false
  | .isContainer => value.isContainer
  | .identity | .descend => false

section

variable (ctx : Context) (interp : Interp)

/-- What a term answers to arguments that it takes. -/
def applyTo (f : Term) (arguments : List Term) : Eval Term :=
  let value := arguments[0]?.getD .null
  let key := arguments[1]?.getD .null
  let last := arguments[2]?.getD .null
  let verdict (answer : Eval Verdict) : Eval Term := do return (← answer).toTerm
  let truth (answer : Eval Bool) : Eval Term := do return .bool (← answer)
  match f with
  | .builtin .identity => pure value
  | .builtin .descend => descend interp value key last
  | .builtin test => pure (.bool (test.test value))
  | .comparison symbol operand => truth (comparisonHolds symbol operand value)
  | .oneOf options exact => truth (isOneOf options exact value)
  | .allOf specs => verdict (allOf interp value key specs)
  | .anyOf specs => verdict (anyOf interp value key specs)
  | .negation spec => truth do return !(← interp.accepts spec value key)
  | .maybe spec => verdict (maybe interp spec value key)
  | .strict spec => verdict (interp.create spec value key true)
  | .everyItem spec => verdict (everyItem interp spec value key)
  | .someItem spec => verdict (someItem interp spec value key)
  | .keyed path start length => truth (keyed interp path start length key)
  | .fanout functions => do return .list (← fanOut interp arguments functions)
  | .dispatcher cases => runCases interp f value key 0 cases
  | .var id => readCell id
  | .recorder _ result => do
    Eval.note f (.call arguments)
    return result
  | .object handle => ctx.request interp handle (.call arguments)
  | _ => Eval.misuse .notCallable

/-- Calls a term, which must take that many arguments. -/
def callAt (f : Term) (arguments : List Term) : Eval Term :=
  match f.arity? with
  | none => Eval.misuse .notCallable
  | some arity =>
    if arity.admits arguments.length then applyTo ctx interp f arguments
    else Eval.misuse .argumentCount

/-- Matches a spec against a value as it is read. -/
def createAt (spec value key : Term) (closed : Bool) : Eval Verdict :=
  match spec.reading value with
  | .instanceOf c => do return .when (← isInstance c value) value
  | .variable id => bindCell interp id value key
  | .binder handle => do
    return .ofOutcome (← ctx.request interp handle (.bind value key)) value
  | .bindAttribute function => do
    return .ofOutcome (← callAt ctx interp function [value, key]) value
  | .entries => matchEntries interp spec value closed
  | .acceptor handle => do
    return .when (← ctx.request interp handle (.accept value)).truthy value
  | .acceptAttribute function => do
    return .when (← callAt ctx interp function [value]).truthy value
  | .function => do return .ofOutcome (← callAt ctx interp spec [value, key]) value
  | .name s => do
    if ctx.registry.contains s then
      return .when (← isInstance (← ctx.registry.resolve ctx.modules s) value) value
    else matchLiteral spec value
  | .literal => matchLiteral spec value

end

/-- Matching and calling with a budget of levels. The way to go deeper is made when it is taken, so
a large budget costs nothing. -/
def interp (ctx : Context) : Nat → Interp
  | 0 => .exhausted
  | budget + 1 =>
    { create := fun spec value key closed => createAt ctx (interp ctx budget) spec value key closed
      call := fun f arguments => callAt ctx (interp ctx budget) f arguments }

/-! ## Budgets -/

/-- The levels that every evaluation has, whatever it is about. Only functions of the host may need
them. -/
def reserve : Nat := 1000

/-- The nesting of all constraints together, with a level for each cell. -/
def Store.constraintNesting (s : Store) : Nat :=
  s.cells.size + Term.totalNesting (s.cells.toList.map (·.constraint))

/-- The levels for a spec with arguments. They cover the depth of the spec. A dispatch table or a
constraint that leads back to itself goes down in the value each time it is met again, so on each
level of the arguments there is room to go through the spec, all constraints and all functions
among the arguments. -/
def Store.budget (s : Store) (spec : Term) (arguments : List Term) : Nat :=
  let functions := arguments.filter (·.isCallable)
  let programs := s.constraintNesting + Term.totalNesting (spec :: functions)
  reserve + (s.depth? spec).getD 0 + programs * (Term.totalNesting arguments + 2)

/-- The way to evaluate a spec with arguments, with a budget that suffices. -/
def interpFor (ctx : Context) (spec : Term) (arguments : List Term) : Eval Interp := do
  return interp ctx ((← Eval.store).budget spec arguments)

/-! ## The library -/

/-- Matches a spec against a value under a key; a closed match rejects keys that a container spec
does not declare. -/
def create (ctx : Context) (spec value : Term) (key : Term := .null) (closed : Bool := false) :
    Eval Verdict := do
  (← interpFor ctx spec [value, key]).create spec value key closed

/-- Whether a spec accepts a value. -/
def accepts (ctx : Context) (spec value : Term) (key : Term := .null) (closed : Bool := false) :
    Eval Bool := do
  return (← create ctx spec value key closed).accepted

/-- Calls a term. -/
def call (ctx : Context) (f : Term) (arguments : List Term) : Eval Term := do
  (← interpFor ctx f arguments).call f arguments

/-- Binds a variable to a value if its constraint accepts it. -/
def bind (ctx : Context) (id : Nat) (value : Term) (key : Term := .null) : Eval Verdict := do
  bindCell (← interpFor ctx (.var id) [value, key]) id value key

end SpecMatch
