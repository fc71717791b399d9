import SpecMatch.Matcher.Interp

/-!
# Containers against containers

A container spec is matched entry by entry against a container value, and a quantifier matches
every element of a container. The answer has the keys of the value in the order of the value, with
a verdict under each.
-/

namespace SpecMatch

/-- What matching the entries of a spec has found: the verdicts of the children that the value
has, under the keys of the spec, and whether a required child was absent. -/
structure Checked where
  verdicts : List (Term × Verdict) := []
  incomplete : Bool := false

namespace Checked

/-- The verdict under a key of the value. -/
def get? (checked : Checked) (key : Term) : Option Verdict :=
  (checked.verdicts.find? fun c => c.1.sameKey key).map (·.2)

end Checked

/-- Matches the entries of a spec in order. A child that the value lacks is matched as `null`
without a key: it is required if that is rejected. -/
def checkEntries (interp : Interp) (value : Term) : Entries → Eval Checked
  | [] => pure {}
  | (key, spec) :: rest => do
    match value.lookup key with
    | .missing =>
      let optional ← interp.accepts spec .null .null
      let checked ← checkEntries interp value rest
      return { checked with incomplete := checked.incomplete || !optional }
    | child =>
      let verdict ← interp.create spec child key false
      let checked ← checkEntries interp value rest
      return { checked with verdicts := (key, verdict) :: checked.verdicts }

/-- The verdict on an entry of the value: what the spec found, and for an undeclared key what the
world is like. -/
def entryVerdict (checked : Checked) (closed : Bool) (entry : Term × Term) : Verdict :=
  (checked.get? entry.1).getD (.when (!closed) entry.2)

/-- The verdict on a container from the verdicts on its children. -/
def gather (value : Term) (verdicts : List Verdict) (complete : Bool := true) : Verdict :=
  .when (complete && verdicts.all (·.accepted)) (value.withChildren (verdicts.map (·.toTerm)))

/-- Matches the entries of a container spec against a container. Every entry is evaluated, and one
rejection anywhere rejects the whole. -/
def matchEntries (interp : Interp) (spec value : Term) (closed : Bool) : Eval Verdict := do
  let checked ← checkEntries interp value spec.entries
  return gather value (value.entries.map (entryVerdict checked closed)) (!checked.incomplete)

/-- Matches one spec against every entry, each under its own key. -/
def matchEach (interp : Interp) (spec : Term) : Entries → Eval (List Verdict)
  | [] => pure []
  | (key, child) :: rest => do
    let verdict ← interp.create spec child key false
    return verdict :: (← matchEach interp spec rest)

/-- Whether one spec accepts some entry. The first accepted one ends the search. -/
def matchSome (interp : Interp) (spec : Term) : Entries → Eval Bool
  | [] => pure false
  | (key, child) :: rest => do
    if ← interp.accepts spec child key then return true else matchSome interp spec rest

/-- Every element is accepted; `null` is taken as a whole and other scalars are rejected. -/
def everyItem (interp : Interp) (spec value key : Term) : Eval Verdict := do
  match value with
  | .null => return .when (← interp.accepts spec .null key) .null
  | _ =>
    if value.isContainer then return gather value (← matchEach interp spec value.entries)
    else return .left value

/-- Some element is accepted; `null` is taken as a whole and other scalars have no elements. -/
def someItem (interp : Interp) (spec value key : Term) : Eval Verdict := do
  match value with
  | .null => return .when (← interp.accepts spec .null key) .null
  | _ => return .when (← matchSome interp spec value.entries) value

end SpecMatch
