import SpecMatch.Term.Container

/-!
# Callables and instances

`Term.arity?` says which terms can be called and with how many arguments; `Class.admits` says which
terms a class has as instances.
-/

namespace SpecMatch

namespace Term

/-- The arity of specs: a value and, if need be, its key. -/
def specArity : Arity := ⟨1, some 2⟩

/-- How many arguments a term takes, if it can be called. -/
def arity? : Term → Option Arity
  | .builtin .identity => some ⟨1, some 3⟩
  | .builtin .descend => some ⟨3, some 3⟩
  | .builtin _ => some specArity
  | .comparison .. | .oneOf .. | .allOf _ | .anyOf _ | .negation _ | .maybe _ | .strict _
  | .everyItem _ | .someItem _ | .keyed .. => some specArity
  | .dispatcher _ => some ⟨1, some 3⟩
  | .fanout _ | .var _ | .cls _ => some ⟨0, none⟩
  | .recorder .. => some ⟨2, some 3⟩
  | .object handle => handle.arity
  | _ => none

/-- Whether a term can be called. -/
def isCallable (x : Term) : Bool := x.arity?.isSome

end Term

/-- Whether a class has a term as an instance. Truth values are integers, ordered maps are plain
ones, circles and squares are shapes, the classes of the host know what is above them, and the
abstract classes gather what fits their name. -/
def Class.admits (c : Class) (x : Term) : Bool :=
  let own := x.classOf
  match c with
  | .object => true
  | .int => own == .int || own == .bool
  | .plainMap => own == .plainMap || own == .orderedMap
  | .shape => own == .shape || own == .circle || own == .square
  | .type => own == .type || own == .abstractType || own == .protocolType
  | .abstractType => own == .abstractType || own == .protocolType
  | .mapping => x.form? == some .map
  | .sequence => own == .str || own == .bytes || x.form? == some .array
  | .iterable => own == .str || own == .bytes || x.form? == some .array || x.form? == some .map
  | .callable => x.isCallable
  | .hashable =>
    !([.list, .plainMap, .orderedMap, .proxy, .fields].contains own || x.memory?.isSome)
  | .number => own == .bool || own == .int || own == .float || own == .decimal
  | .host name _ =>
    (match own with
      | .host other ancestors => other == name || ancestors.contains name
      | _ => false)
  | c => own == c

end SpecMatch
