/-!
# Classes

`Class` names the class of every term: the data classes, the abstract ones that gather several of
them, the classes of specs and results, and classes that only the host of the library knows.
`Class.name` is the short name used in messages and `Class.text` the written form of the class.
-/

namespace SpecMatch

/-- A class of terms. -/
inductive Class where
  | object | type | abstractType | protocolType | null | bool | int | float | str | bytes | list
  | tuple | plainMap | orderedMap | proxy | fields | missing | shape | circle | square | left | right
  | function | comparison | membership
  | allOf | anyOf | negation | maybe | strict | everyItem | someItem
  | keySpec | action | fanout | dispatcher | variable | recorder | decimal
  | mapping | sequence | iterable | callable | hashable | number
  /-- A class that only describes how its instances can be called. It refuses to say which terms
  these are. -/
  | protocol (name : String)
  /-- A class of the host's own objects, with the names of the classes of the host above it. -/
  | host (name : String) (ancestors : List String := [])
deriving DecidableEq

namespace Class

/-- The short name of a class. -/
def name : Class → String
  | .object => "object"
  | .type => "type"
  | .abstractType => "ABCMeta"
  | .protocolType => "_ProtocolMeta"
  | .null => "NoneType"
  | .bool => "bool"
  | .int => "int"
  | .float => "float"
  | .str => "str"
  | .bytes => "bytes"
  | .list => "list"
  | .tuple => "tuple"
  | .plainMap => "dict"
  | .orderedMap => "OrderedDict"
  | .proxy => "mappingproxy"
  | .fields => "SimpleNamespace"
  | .missing => "_Missing"
  | .shape => "Shape"
  | .circle => "Circle"
  | .square => "Square"
  | .left => "Left"
  | .right => "Right"
  | .function => "function"
  | .comparison => "Comparison"
  | .membership => "Membership"
  | .allOf => "And"
  | .anyOf => "Or"
  | .negation => "Not"
  | .maybe => "Maybe"
  | .strict => "Strict"
  | .everyItem => "Every"
  | .someItem => "Some"
  | .keySpec => "KeySpec"
  | .action => "Action"
  | .fanout => "Fanout"
  | .dispatcher => "Dispatcher"
  | .variable => "MatchVariable"
  | .recorder => "Recorder"
  | .decimal => "Decimal"
  | .mapping => "Mapping"
  | .sequence => "Sequence"
  | .iterable => "Iterable"
  | .callable => "Callable"
  | .hashable => "Hashable"
  | .number => "Number"
  | .protocol name | .host name _ => name

/-- The module a class is shown under, if it is shown under one. -/
def home? : Class → Option String
  | .abstractType => some "abc"
  | .protocolType => some "typing"
  | .protocol _ => some "philo._types"
  | .orderedMap => some "collections"
  | .fields => some "types"
  | .missing => some "philo._value"
  | .shape | .circle | .square | .recorder => some "philo.testing"
  | .left | .right => some "philo._either"
  | .comparison | .membership => some "philo._predicates"
  | .allOf | .anyOf | .negation | .maybe | .strict => some "philo._connectives"
  | .everyItem | .someItem => some "philo._quantifiers"
  | .keySpec | .action | .dispatcher => some "philo._dispatch"
  | .fanout | .variable => some "philo._variable"
  | .decimal => some "decimal"
  | .mapping | .sequence | .iterable | .callable | .hashable => some "collections.abc"
  | .number => some "numbers"
  | .host .. => some "__main__"
  | _ => none

/-- The name of a class with its module. -/
def path (c : Class) : String :=
  match c.home? with
  | some home => home ++ "." ++ c.name
  | none => c.name

/-- The written form of a class. -/
def text (c : Class) : String := "<class '" ++ c.path ++ "'>"

/-- The class of a class. Those that only gather other classes, and those that only describe how
something can be called, are of a kind of their own. -/
def kind : Class → Class
  | .mapping | .sequence | .iterable | .callable | .hashable | .number => .abstractType
  | .protocol _ => .protocolType
  | _ => .type

end Class

end SpecMatch
