import SpecMatch.Numeric.Layout
import SpecMatch.World

/-!
# Written terms

Messages and log lines show terms in a written form: text is quoted, containers are bracketed, and
specs and results are written as a name with their parts. A variable shows the value it is bound
to and a recorder its calls, so the form depends on the store. A value that holds the variable it
is bound to would be written without end: where `Store.describe` meets a variable or a recorder
that it is writing already, it writes the mark of what stands there instead.

Not every term can be written: `Store.flaw?` finds integers with too many digits, and variables that
are bound to themselves through variables alone, where no mark ends the writing.
-/

namespace SpecMatch

namespace Term

/-- Texts with commas between them. -/
def commaList (texts : List String) : String := String.intercalate ", " texts

/-- The written form of a tuple of texts; a single one is followed by a comma. -/
def tupleText : List String → String
  | [text] => "(" ++ text ++ ",)"
  | texts => "(" ++ commaList texts ++ ")"

/-- The written form of something with named parts. -/
def recordText (name : String) (parts : List (String × String)) : String :=
  name ++ "(" ++ commaList (parts.map fun p => p.1 ++ "=" ++ p.2) ++ ")"

/-- The written form of a truth value. -/
def boolText (b : Bool) : String := if b then "True" else "False"

/-- The written form of an integer. -/
def intText (i : Int) : String := if i < 0 then "-" ++ Nat.repr i.natAbs else Nat.repr i.natAbs

/-- The name of a function of the library. -/
def builtinName : Builtin → String
  | .isBool => "is_bool"
  | .isInt => "is_int"
  | .isFloat => "is_float"
  | .isNumeric => "is_numeric"
  | .isString => "is_string"
  | .isScalar => "is_scalar"
  | .isList => "is_list"
  | .isMapping => "is_mapping"
  | .isNamespace => "is_namespace"
  | .isCallable => "is_callable"
  | .isNull => "is_null"
  | .isUrl => "is_url"
  | .isContainer => "is_container"
  | .identity => "identity"
  | .descend => "descend"

/-- What stands for a term inside itself. -/
def innerMark : Term → String
  | .list _ => "[...]"
  | .tuple _ => "(...)"
  | .map .plain _ => "\x7b...\x7d"
  | .map .proxy _ => "mappingproxy(\x7b...\x7d)"
  | .fields _ => "namespace(...)"
  | _ => "..."

section

variable (cellText : Nat → String) (recorderText : String → String → String)

mutual

/-- The written form of a term, given those of cells and those of recorders with their result. -/
def describeWith : Term → String
  | .null => "None"
  | .bool b => boolText b
  | .int i => intText i
  | .float x => x.text
  | .str s => Text.quote s
  | .bytes bs => Text.quoteBytes bs
  | .missing => "MISSING"
  | .list items => "[" ++ commaList (describeItems items) ++ "]"
  | .tuple items => tupleText (describeItems items)
  | .map .plain entries => "\x7b" ++ commaList (describeEntries entries) ++ "\x7d"
  | .map .ordered [] => "OrderedDict()"
  | .map .ordered entries => "OrderedDict([" ++ commaList (describePairs entries) ++ "])"
  | .map .proxy entries => "mappingproxy(\x7b" ++ commaList (describeEntries entries) ++ "\x7d)"
  | .fields attributes => "namespace(" ++ commaList (describeAttributes attributes) ++ ")"
  | .circle radius => recordText "Circle" [("radius", describeWith radius)]
  | .square side => recordText "Square" [("side", describeWith side)]
  | .left payload => recordText "Left" [("value", describeWith payload)]
  | .right payload => recordText "Right" [("value", describeWith payload)]
  | .cls c => c.text
  | .builtin f => "<function " ++ builtinName f ++ ">"
  | .comparison symbol operand =>
    recordText "Comparison" [("symbol", Text.quote symbol), ("operand", describeWith operand)]
  | .oneOf options exact =>
    recordText "Membership"
      [("options", tupleText (describeItems options)), ("strict", boolText exact)]
  | .allOf specs => recordText "And" [("specs", tupleText (describeItems specs))]
  | .anyOf specs => recordText "Or" [("specs", tupleText (describeItems specs))]
  | .negation spec => recordText "Not" [("spec", describeWith spec)]
  | .maybe spec => recordText "Maybe" [("spec", describeWith spec)]
  | .strict spec => recordText "Strict" [("spec", describeWith spec)]
  | .everyItem spec => recordText "Every" [("spec", describeWith spec)]
  | .someItem spec => recordText "Some" [("spec", describeWith spec)]
  | .keyed path start length =>
    recordText "KeySpec"
      [("path", describeWith path), ("start", intText start),
        ("length", (length.map intText).getD "None")]
  | .action result => recordText "Action" [("value", describeWith result)]
  | .fanout functions => recordText "Fanout" [("fns", tupleText (describeItems functions))]
  | .dispatcher cases => recordText "Dispatcher" [("cases", tupleText (describeCases cases))]
  | .var cell => cellText cell
  | .recorder name result => recorderText name (describeWith result)
  | .object handle => "<" ++ handle.cls.path ++ " object>"
  | .foreign _ text => text

/-- The written forms of a sequence. -/
def describeItems : List Term → List String
  | [] => []
  | x :: xs => describeWith x :: describeItems xs

/-- The written forms of entries, as in a map. -/
def describeEntries : List (Term × Term) → List String
  | [] => []
  | (k, v) :: es => (describeWith k ++ ": " ++ describeWith v) :: describeEntries es

/-- The written forms of pairs, as tuples. -/
def describePairs : List (Term × Term) → List String
  | [] => []
  | (k, v) :: es => tupleText [describeWith k, describeWith v] :: describePairs es

/-- The written forms of the cases of a table. -/
def describeCases : List (Term × Term) → List String
  | [] => []
  | (spec, handler) :: cs =>
    recordText "Case" [("spec", describeWith spec), ("handler", describeWith handler)] ::
      describeCases cs

/-- The written forms of attributes; one without a name is not shown. -/
def describeAttributes : List (String × Term) → List String
  | [] => []
  | (n, v) :: as =>
    if n.isEmpty then describeAttributes as
    else (n ++ "=" ++ describeWith v) :: describeAttributes as

end

end

end Term

namespace Store

/-- The written form of a term that follows variables and recorders `depth` times, inside the values
of some cells and the calls of some recorders. A value that is itself a variable opens nothing. -/
def describeInside (s : Store) : Nat → List Nat → List String → Term → String
  | 0, _, _ => Term.describeWith (fun _ => "...") (fun _ _ => "...")
  | depth + 1, cells, recorders =>
    let cellText (id : Nat) : String :=
      let cell := s.cell id
      let valueText : String := match cell.value with
        | none => "unbound"
        | some (.var other) => s.describeInside depth cells recorders (.var other)
        | some value =>
          if cells.contains id then value.innerMark
          else s.describeInside depth (id :: cells) recorders value
      "MatchVariable(" ++ cell.label ++ ", " ++ valueText ++ ")"
    let recorderText (name resultText : String) : String :=
      if recorders.contains name then "..."
      else
        let callTexts := (s.recorded name).map fun c =>
          Term.tupleText [s.describeInside depth cells (name :: recorders) c.1,
            s.describeInside depth cells (name :: recorders) c.2]
        Term.recordText "Recorder"
          [("result", resultText), ("calls", "[" ++ Term.commaList callTexts ++ "]")]
    Term.describeWith cellText recorderText

/-- Whether a variable is bound, through variables alone, to a variable that is bound so without
end. -/
def isEndless (s : Store) (id : Nat) : Bool := go (s.cells.size + 1) id
where
  /-- Whether so many steps from variable to variable are possible. -/
  go : Nat → Nat → Bool
    | 0, _ => true
    | steps + 1, id =>
      match (s.cell id).value with
      | some (.var other) => go steps other
      | _ => false

/-- The written form of a term. Between two openings there are at most as many variables as cells,
and each cell and each recorder is opened once. -/
def describe (s : Store) (t : Term) : String :=
  s.describeInside ((s.cells.size + 1) * (s.cells.size + s.calls.size + 1)) [] [] t

/-- A container rebuilt from pairs, keys of field bags being spelled as in messages. -/
def rebuild (s : Store) (like : Term) (pairs : List (Term × Term)) (fill : Term := .null) :
    Except Fault Term := Term.rebuild s.describe like pairs fill

end Store

/-- How grave an event is. A question is no matter of the log. -/
def Event.level? : Event → Option String
  | .matched .. | .unmatched _ => some "TRACE"
  | .bound .. | .reset _ | .built _ | .resolved .. => some "DEBUG"
  | .importFailed .. => some "WARNING"
  | .asked _ => none

/-- The log line of an event. -/
def LogEntry.message (e : LogEntry) : String :=
  let s := e.store
  match e.event with
  | .bound cell key =>
    "philo.variable.bound var=" ++ s.describe (.var cell) ++ " key=" ++ s.describe key
  | .reset cell => "philo.variable.reset var=" ++ s.describe (.var cell)
  | .matched index key =>
    "philo.dispatch.matched case=" ++ Nat.repr index ++ " key=" ++ s.describe key
  | .unmatched key => "philo.dispatch.no_match key=" ++ s.describe key
  | .built names => "philo.registry.built types=" ++ s.describe (.list names)
  | .importFailed name path =>
    "philo.registry.import_failed name=" ++ name ++ " path=" ++ path
  | .resolved name path => "philo.registry.resolved name=" ++ name ++ " path=" ++ path
  | .asked _ => ""

/-! ## Terms that cannot be written -/

namespace Term

/-- The number of digits that an integer may have to be written. -/
def digitLimit : Nat := 4300

/-- Whether an integer has too many digits. -/
def isLong (i : Int) : Bool := Nat.ble (Nat.pow 10 digitLimit) i.natAbs

section

variable (cellFlaw : Nat → Option Fault) (recorderFlaw : String → Option Fault)

mutual

/-- What keeps a term from being written, given what keeps cells and recorders from it. -/
def flawWith? : Term → Option Fault
  | .int i => if isLong i then some .tooManyDigits else none
  | .list items | .tuple items | .oneOf items _ | .allOf items | .anyOf items | .fanout items =>
    flawOfItems? items
  | .map _ entries | .dispatcher entries => flawOfPairs? entries
  | .fields attributes => flawOfAttributes? attributes
  | .circle part | .square part | .left part | .right part | .comparison _ part | .negation part
  | .maybe part | .strict part | .everyItem part | .someItem part | .action part => flawWith? part
  | .keyed path start length =>
    (flawWith? path).or
      (if isLong start || length.any isLong then some .tooManyDigits else none)
  | .var cell => cellFlaw cell
  | .recorder name result => (flawWith? result).or (recorderFlaw name)
  | _ => none

/-- What keeps a sequence from being written. -/
def flawOfItems? : List Term → Option Fault
  | [] => none
  | x :: xs => (flawWith? x).or (flawOfItems? xs)

/-- What keeps pairs from being written. -/
def flawOfPairs? : List (Term × Term) → Option Fault
  | [] => none
  | (k, v) :: ps => ((flawWith? k).or (flawWith? v)).or (flawOfPairs? ps)

/-- What keeps attributes from being written; one without a name is not shown. -/
def flawOfAttributes? : List (String × Term) → Option Fault
  | [] => none
  | (n, v) :: as => (if n.isEmpty then none else flawWith? v).or (flawOfAttributes? as)

end

end

end Term

namespace Store

/-- What keeps a term from being written, variables and recorders being followed as they are when it
is. A variable that is bound to itself through variables alone is followed without end. -/
def flawInside? (s : Store) : Nat → List Nat → List String → Term → Option Fault
  | 0, _, _ => fun _ => none
  | depth + 1, cells, recorders =>
    let cellFlaw (id : Nat) : Option Fault :=
      match (s.cell id).value with
      | none => none
      | some (.var other) =>
        if s.isEndless id then some .nestingLimit
        else s.flawInside? depth cells recorders (.var other)
      | some value =>
        if cells.contains id then none else s.flawInside? depth (id :: cells) recorders value
    let recorderFlaw (name : String) : Option Fault :=
      if recorders.contains name then none
      else (s.recorded name).findSome? fun c =>
        (s.flawInside? depth cells (name :: recorders) c.1).or
          (s.flawInside? depth cells (name :: recorders) c.2)
    Term.flawWith? cellFlaw recorderFlaw

/-- What keeps a term from being written. -/
def flaw? (s : Store) (t : Term) : Option Fault :=
  s.flawInside? ((s.cells.size + 1) * (s.cells.size + s.calls.size + 1)) [] [] t

end Store

/-- What keeps the line of an entry from being written. -/
def LogEntry.flaw? (e : LogEntry) : Option Fault :=
  let flaw? := e.store.flaw?
  match e.event with
  | .bound cell key => (flaw? (.var cell)).or (flaw? key)
  | .reset cell => flaw? (.var cell)
  | .matched _ key | .unmatched key => flaw? key
  | .built names => flaw? (.list names)
  | .importFailed .. | .resolved .. | .asked _ => none

end SpecMatch
