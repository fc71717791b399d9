import SpecMatch.Registry.Basic

/-!
# Evaluation with a budget

Specs call one another without end in sight: a spec may hold variables whose constraints hold
specs, and a handler may dispatch again. Every step that goes deeper therefore evaluates with an
`Interp` of one level less, and at level zero nothing can be evaluated any more.

Objects of the host answer requests by a `Response`: a term, a fault, or a call back into the
library with what to do next. What a host answers may depend on everything that was called before.
-/

namespace SpecMatch

/-- How the host meets a request. -/
inductive Response where
  | answer (result : Term)
  | fail (fault : Fault)
  /-- Calls a term and goes on with its result. -/
  | ask (function : Term) (arguments : List Term) (resume : Term → Response)

/-- The behaviour of the host's objects, given the calls made before the request. -/
structure Host where
  respond : Handle → Request → Array Call → Response

/-- What does not change during a match. -/
structure Context where
  /-- The type names in force. -/
  registry : Registry
  /-- The modules that import paths lead into. -/
  modules : Modules
  host : Host

/-- A way to match specs and to call terms. -/
structure Interp where
  /-- Matches a spec against a value under a key; a closed match rejects undeclared keys. -/
  create : (spec value key : Term) → (closed : Bool) → Eval Verdict
  call : (function : Term) → (arguments : List Term) → Eval Term

namespace Interp

/-- The way that is left when the budget is used up. -/
def exhausted : Interp where
  create _ _ _ _ := throw .nestingLimit
  call _ _ := throw .nestingLimit

/-- Whether a spec accepts a value under a key. -/
def accepts (interp : Interp) (spec value key : Term) (closed : Bool := false) : Eval Bool := do
  return (← interp.create spec value key closed).accepted

end Interp

/-- Follows a response to its end. -/
def Response.run (interp : Interp) : Response → Eval Term
  | .answer result => pure result
  | .fail fault => throw fault
  | .ask function arguments resume => do (resume (← interp.call function arguments)).run interp

/-- Puts a request to an object of the host, noting it first. -/
def Context.request (ctx : Context) (interp : Interp) (handle : Handle) (request : Request) :
    Eval Term := do
  let before := (← Eval.store).calls
  Eval.note (.object handle) request
  (ctx.host.respond handle request before).run interp

end SpecMatch
