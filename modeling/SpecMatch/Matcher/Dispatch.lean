import SpecMatch.Matcher.Interp
import SpecMatch.Term.Path

/-!
# Dispatch

A dispatch table runs the handler of the first case whose spec accepts. A handler is an action, a
function, or a template whose functions are called to fill it. `Term.table` builds a table from
specs and handlers in turn, and the recursive one ends with a case that dispatches the children of
a container under their extended keys.
-/

namespace SpecMatch

/-- The case that dispatches the children of a container no earlier case accepts. -/
def recursiveCase : List Term := [.builtin .isContainer, .builtin .descend]

/-- Arguments in pairs, if none is left over. -/
def pairUp? : List Term → Option (List (Term × Term))
  | [] => some []
  | [_] => none
  | spec :: handler :: rest => (pairUp? rest).map ((spec, handler) :: ·)

/-- The first handler that cannot be run, counted from `index`: a class or a verdict. -/
def handlerFlaw? (s : Store) (index : Nat) : List (Term × Term) → Option TableFlaw
  | [] => none
  | (_, handler) :: rest =>
    match handler with
    | .cls c => some (.classHandler index c)
    | .left _ | .right _ => some (.resultHandler index (s.describe handler))
    | _ => handlerFlaw? s (index + 1) rest

/-- The dispatch table of specs and handlers in turn. -/
def table (s : Store) (arguments : List Term) : Except Fault Term :=
  match pairUp? arguments with
  | none => .error (.malformedTable (.unpaired arguments.length))
  | some cases =>
    match handlerFlaw? s 0 cases with
    | some flaw => .error (.malformedTable flaw)
    | none => .ok (.dispatcher cases)

/-- The dispatch table that goes on to the children of containers. -/
def recursiveTable (s : Store) (arguments : List Term) : Except Fault Term :=
  table s (arguments ++ recursiveCase)

section

variable (interp : Interp)

mutual

/-- Fills a template in one pass: actions and functions are replaced, a function being called with
the value and its key, containers are filled, and everything else stands for itself. -/
def fill (value key : Term) : Term → Eval Term
  | .action result => pure result
  | .list items => do return .list (← fillItems value key items)
  | .tuple items => do return .tuple (← fillItems value key items)
  | .map _ entries => do return .map .plain (← fillEntries value key entries)
  | .fields attributes => do return .fields (← fillAttributes value key attributes)
  | .cls c => pure (.cls c)
  | leaf => if leaf.isCallable then interp.call leaf [value, key] else pure leaf

/-- Fills a sequence of templates. -/
def fillItems (value key : Term) : List Term → Eval (List Term)
  | [] => pure []
  | x :: xs => do
    let filled ← fill value key x
    return filled :: (← fillItems value key xs)

/-- Fills the values of entries. -/
def fillEntries (value key : Term) : List (Term × Term) → Eval (List (Term × Term))
  | [] => pure []
  | (k, v) :: es => do
    let filled ← fill value key v
    return (k, filled) :: (← fillEntries value key es)

/-- Fills the values of attributes. -/
def fillAttributes (value key : Term) : List (String × Term) → Eval (List (String × Term))
  | [] => pure []
  | (n, v) :: as => do
    let filled ← fill value key v
    return (n, filled) :: (← fillAttributes value key as)

end

/-- Runs the handler of a case. A function is handed the table as well, so that it can dispatch
again. -/
def runHandler (self value key handler : Term) : Eval Term :=
  match handler with
  | .action result => pure result
  | _ =>
    if handler.isCallable then interp.call handler [value, key, self]
    else if handler.isContainer then fill interp value key handler
    else pure handler

/-- Runs the first case that accepts, counted from `index`; without one the answer is `null`. -/
def runCases (self value key : Term) (index : Nat) : List (Term × Term) → Eval Term
  | [] => do
    Eval.emit (.unmatched key)
    return .null
  | (spec, handler) :: rest => do
    if ← interp.accepts spec value key then
      Eval.emit (.matched index key)
      runHandler interp self value key handler
    else runCases self value key (index + 1) rest

/-- Calls a function on children in order, each under its key below `key`. -/
def dispatchEntries (function key : Term) : Entries → Eval (List Term)
  | [] => pure []
  | (k, child) :: rest => do
    let result ← interp.call function [child, key.childKey k]
    return result :: (← dispatchEntries function key rest)

/-- A container with every child replaced by what a function makes of it under its key. -/
def descend (value key function : Term) : Eval Term := do
  if value.isContainer then
    return value.withChildren (← dispatchEntries interp function key value.entries)
  else throw (.scalarRebuild value.classOf)

/-- Calls several functions with the same arguments. -/
def fanOut (arguments : List Term) : List Term → Eval (List Term)
  | [] => pure []
  | function :: rest => do
    let result ← interp.call function arguments
    return result :: (← fanOut arguments rest)

end

end SpecMatch
