import SpecMatch.Term.Container

/-!
# Verdicts

A match answers a `Verdict`: a value is rejected on the left or accepted on the right. Verdicts are
terms too, so the payload of one may be a container of verdicts in which failure and success live
side by side. `Term.lval` and `Term.rval` project such a result onto its failing and its accepted
part; both have the shape of the value, and a leaf that is not in one of them is `null` there.
-/

namespace SpecMatch

/-- The two sides of a verdict. -/
inductive Side where
  | left | right
deriving DecidableEq

/-- The answer of a match. -/
inductive Verdict where
  | left (payload : Term)
  | right (payload : Term)

namespace Verdict

/-- Accepts or rejects a value. -/
def when (accepted : Bool) (value : Term) : Verdict :=
  if accepted then .right value else .left value

/-- A verdict as a term. -/
def toTerm : Verdict → Term
  | .left payload => .left payload
  | .right payload => .right payload

/-- Whether the value is accepted. -/
def accepted : Verdict → Bool
  | .left _ => false
  | .right _ => true

/-- What a spec's outcome says of a value: verdicts stand for themselves, `false` rejects, and
everything else accepts. -/
def ofOutcome (outcome value : Term) : Verdict :=
  match outcome with
  | .left payload => .left payload
  | .right payload => .right payload
  | .bool false => .left value
  | _ => .right value

end Verdict

namespace Term

/-- Whether a term is a rejection, as a verdict or as a truth value. -/
def isLeft : Term → Bool
  | .left _ | .bool false => true
  | _ => false

/-- Whether a term is an acceptance, as a verdict or as a truth value. -/
def isRight : Term → Bool
  | .right _ | .bool true => true
  | _ => false

/-- Whether a term is a verdict. -/
def isVerdict : Term → Bool
  | .left _ | .right _ => true
  | _ => false

/-- Whether a payload is a container of verdicts, one for every key. -/
def isStructural (x : Term) : Bool := x.isContainer && x.children.all isVerdict

/-- The part of a result that shows nothing of a payload, or all of it. -/
def shown (keep : Bool) (payload : Term) : Term := if keep then payload else payload.nullShape

mutual

/-- The part of a result on one side: the leaves of that side, and `null` for the others. -/
def part (side : Side) : Term → Term
  | .left payload => payloadPart side (side == .left) payload
  | .right payload => payloadPart side (side == .right) payload
  | .bool b => if b == (side == .right) then .bool b else .null
  | x => shown (side == .right) x

/-- The part of the payload of a verdict, which is kept or not as far as it holds no verdicts
itself. -/
def payloadPart (side : Side) (keep : Bool) : Term → Term
  | .left payload => payloadPart side (side == .left) payload
  | .right payload => payloadPart side (side == .right) payload
  | .list items =>
    if items.all isVerdict then .list (itemParts side items) else shown keep (.list items)
  | .tuple items =>
    if items.all isVerdict then .tuple (itemParts side items) else shown keep (.tuple items)
  | .map kind entries =>
    if entries.all (·.2.isVerdict) then .map .plain (entryParts side entries)
    else shown keep (.map kind entries)
  | .fields attributes =>
    if attributes.all (·.2.isVerdict) then .fields (attributeParts side attributes)
    else shown keep (.fields attributes)
  | x => shown keep x

/-- The parts of a sequence of results. -/
def itemParts (side : Side) : List Term → List Term
  | [] => []
  | x :: xs => part side x :: itemParts side xs

/-- Entries with the parts of their results. -/
def entryParts (side : Side) : List (Term × Term) → List (Term × Term)
  | [] => []
  | (k, v) :: es => (k, part side v) :: entryParts side es

/-- Attributes with the parts of their results. -/
def attributeParts (side : Side) : List (String × Term) → List (String × Term)
  | [] => []
  | (n, v) :: as => (n, part side v) :: attributeParts side as

end

/-- The failing part of a result. -/
def lval : Term → Term := part .left

/-- The accepted part of a result. -/
def rval : Term → Term := part .right

end Term

end SpecMatch
