import SpecMatch.Matcher.Interp
import SpecMatch.Term.Path

/-!
# Connectives and key specs

A conjunction stops at the first rejection and hands it on inside a rejection; a disjunction stops
at the first acceptance and hands it on inside an acceptance. A key spec matches its path against a
segment of the key.
-/

namespace SpecMatch

/-- All specs accept. -/
def allOf (interp : Interp) (value key : Term) : List Term → Eval Verdict
  | [] => pure (.right value)
  | spec :: rest => do
    let verdict ← interp.create spec value key false
    if verdict.accepted then allOf interp value key rest else return .left verdict.toTerm

/-- Some spec accepts. -/
def anyOf (interp : Interp) (value key : Term) : List Term → Eval Verdict
  | [] => pure (.left value)
  | spec :: rest => do
    let verdict ← interp.create spec value key false
    if verdict.accepted then return .right verdict.toTerm else anyOf interp value key rest

/-- `null`, or whatever the spec accepts. -/
def maybe (interp : Interp) (spec value key : Term) : Eval Verdict :=
  match value with
  | .null => pure (.right .null)
  | _ => interp.create spec value key false

/-- The path of a key spec accepts a segment of the key. An array of specs is matched segment by
segment against the path of the key and must have its length; any other spec takes the cut key as
a value. -/
def keyed (interp : Interp) (path : Term) (start : Int) (length : Option Int) (key : Term) :
    Eval Bool :=
  match path with
  | .list specs | .tuple specs =>
    interp.accepts (.list specs) (.tuple (segment key.keyPath start length)) .null true
  | _ => interp.accepts path (key.cutKey start length) .null

end SpecMatch
