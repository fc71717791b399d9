import SpecMatch.Term.Callable
import SpecMatch.Term.Order
import SpecMatch.World

/-!
# Comparisons

Instances, equality and order are asked of the classes and objects that are compared, unless the
library knows the answer by itself. Each question is told before it is answered, and a class or an
object that refuses to answer ends the match (`Objection.refusing`). Of the library's own classes,
those that describe how something is called refuse instance checks (`Question.refusal?`).
-/

namespace SpecMatch

/-- The objection to every question that is refused. A comparison for which there is only no order
is not refused. -/
def Objection.refusing (refuses : Question → Option Fault) : Objection :=
  fun e => e.event.question?.bind refuses

/-- The questions that the library's own classes refuse. -/
def Question.refusal? : Question → Option Fault
  | .admits (.protocol _) _ => some (.misuse .instanceCheck)
  | _ => none

namespace Term

/-- A scalar that the library knows through and through. -/
def isPlain : Term → Bool
  | .null | .bool _ | .int _ | .float _ | .str _ | .bytes _ | .missing => true
  | _ => false

/-- Whether comparing two terms involves more than plain scalars. -/
def openTo (a b : Term) : Bool := !(a.isPlain && b.isPlain)

/-- Whether strict equality of two terms is asked of them: they have the same class and, which that
should settle, the same form. -/
def comparable (a b : Term) : Bool := a.classOf == b.classOf && a.form? == b.form? && a.openTo b

/-- Whether two terms are one object of the host. -/
def identical : Term → Term → Bool
  | .object a, .object b => a == b
  | _, _ => false

end Term

/-- Whether a class is one of the host's own or one that describes how something is called; what the
others gather is known. -/
def Class.isOpen : Class → Bool
  | .protocol _ | .host .. => true
  | _ => false

/-- Whether a class has a term as an instance. -/
def isInstance (c : Class) (x : Term) : Eval Bool := do
  Eval.ask (.admits c x) c.isOpen
  return c.admits x

/-- A comparison holds. Terms that cannot be ordered are rejected, and a symbol that stands for no
comparison is a fault. -/
def comparisonHolds (symbol : String) (operand value : Term) : Eval Bool := do
  let alike := (← Eval.store).alike
  if symbol == "==" then
    Eval.ask (.compares symbol value operand) (value.comparable operand)
    return Term.strictlyEqual alike value operand
  else match Relation.ofSymbol? symbol with
    | some relation =>
      Eval.ask (.compares symbol value operand) (value.openTo operand)
      return (Term.orders? alike relation value operand).getD false
    | none => throw .noSuchKey

/-- Whether a value is what an option stands for, if it is exact then of the same class too. -/
def Term.matchesOption (alike : String → String → Bool) (exact : Bool) (option value : Term) :
    Bool :=
  if exact then option.strictlyEqual alike value else option.same alike value

/-- Looks for a value among options, in order. Unless the class counts as well, an object is found
without being asked. -/
def findOption (alike : String → String → Bool) (exact : Bool) (value : Term) :
    List Term → Eval Bool
  | [] => pure false
  | option :: rest => do
    Eval.ask (.equals option value)
      (if exact then option.comparable value
        else option.openTo value && !option.identical value)
    if option.matchesOption alike exact value then return true
    else findOption alike exact value rest

/-- A value is among the options. -/
def isOneOf (options : List Term) (exact : Bool) (value : Term) : Eval Bool := do
  findOption (← Eval.store).alike exact value options

/-- Equality with a literal, class included. -/
def matchLiteral (spec value : Term) : Eval Verdict := do
  let alike := (← Eval.store).alike
  Eval.ask (.equals spec value) (spec.comparable value)
  return .when (spec.strictlyEqual alike value) value

end SpecMatch
