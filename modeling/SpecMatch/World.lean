import SpecMatch.Verdict

/-!
# The environment of a match

Matching binds and resets logic variables, calls objects of the host and records calls. `Store`
holds the cells of the variables and the calls so far; `World` adds the log of what happened.
`Eval` is the type of evaluations: each reads and changes the world and ends in an answer or a
fault, and a fault keeps what was done before it.

What an evaluation depends on besides, it tells: a class or an object may refuse to be asked a
`Question`, and a log may be unable to write an `Event`. Neither is undone or caught, so a run among
such objections is the run without them up to the first one (`Eval.heeding`).
-/

namespace SpecMatch

/-- The cell of a logic variable: its label, the spec that a value has to satisfy, where `null`
stands for none, and the bound value. -/
structure Cell where
  label : String
  constraint : Term := .null
  value : Option Term := none

instance : Inhabited Cell := ⟨⟨"", .null, none⟩⟩

/-- Whether anything may be bound to the cell. -/
def Cell.free (c : Cell) : Bool :=
  match c.constraint with
  | .null => true
  | _ => false

/-- What an object is asked. -/
inductive Request where
  | bind (value key : Term)
  | accept (value : Term)
  | call (arguments : List Term)

/-- The value and the key that a request is about. -/
def Request.subject? : Request → Option (Term × Term)
  | .bind value key | .call (value :: key :: _) => some (value, key)
  | .accept value | .call [value] => some (value, .null)
  | .call [] => none

/-- One request to a recorder or to an object of the host. -/
structure Call where
  receiver : Term
  request : Request

/-- What a match can change. -/
structure Store where
  cells : Array Cell := #[]
  calls : Array Call := #[]

namespace Store

/-- The cell of a variable. -/
def cell (s : Store) (id : Nat) : Cell := s.cells[id]?.getD default

/-- The store with a change to one cell. -/
def updateCell (s : Store) (id : Nat) (f : Cell → Cell) : Store :=
  { s with cells := s.cells.modify id f }

/-- The values and keys that something has been asked about under the name of its memory, in
order. -/
def recorded (s : Store) (name : String) : List (Term × Term) :=
  s.calls.toList.filterMap fun c =>
    if c.receiver.memory? == some name then c.request.subject? else none

/-- Whether two memories hold the same; they may hold memories in turn, which are followed `depth`
times. -/
def alikeWithin (s : Store) : Nat → String → String → Bool
  | 0, m, n => m == n
  | depth + 1, m, n =>
    m == n || Term.samePairs (s.alikeWithin depth) (s.recorded m) (s.recorded n)

/-- How many requests have been remembered. -/
def recordings (s : Store) : Nat := s.calls.countP (·.receiver.memory?.isSome)

/-- Whether two memories hold the same. No chain of memories that hold one another is longer than
there are requests to remember. -/
def alike (s : Store) : String → String → Bool := s.alikeWithin (s.recordings + 1)

end Store

/-- What a class or an object is asked when it is compared. -/
inductive Question where
  /-- Whether a class has a term as an instance. -/
  | admits (c : Class) (x : Term)
  | equals (a b : Term)
  /-- Whether a comparison by a symbol holds. -/
  | compares (symbol : String) (a b : Term)

/-- Something worth telling about an evaluation. -/
inductive Event where
  | bound (cell : Nat) (key : Term)
  | reset (cell : Nat)
  /-- A case of a table accepted. -/
  | matched (index : Nat) (key : Term)
  /-- No case of a table accepted. -/
  | unmatched (key : Term)
  | built (names : List Term)
  | importFailed (name path : String)
  | resolved (name path : String)
  /-- A question is about to be answered. -/
  | asked (question : Question)

/-- The question that an event is about. -/
def Event.question? : Event → Option Question
  | .asked question => some question
  | _ => none

/-- An event with the store as it was then. -/
structure LogEntry where
  event : Event
  store : Store

/-- The environment of a match. -/
structure World where
  store : Store := {}
  log : Array LogEntry := #[]

/-- An evaluation in an environment. -/
abbrev Eval := EStateM Fault World

namespace Eval

/-- The current store. -/
def store : Eval Store := do return (← get).store

/-- Changes the store. -/
def modifyStore (f : Store → Store) : Eval Unit := modify fun w => { w with store := f w.store }

/-- Tells an event. -/
def emit (event : Event) : Eval Unit :=
  modify fun w => { w with log := w.log.push ⟨event, w.store⟩ }

/-- Notes a request before it is answered. -/
def note (receiver : Term) (request : Request) : Eval Unit :=
  modifyStore fun s => { s with calls := s.calls.push ⟨receiver, request⟩ }

/-- Ends the evaluation with the misuse of a term. -/
def misuse {α : Type} (cause : Misuse) : Eval α := throw (.misuse cause)

/-- Tells a question that is about to be answered, unless it is settled without being put. -/
def ask (question : Question) (needed : Bool) : Eval Unit :=
  if needed then emit (.asked question) else pure ()

/-- The answer of a computation that needs no environment. -/
def ofExcept {α : Type} : Except Fault α → Eval α
  | .ok a => pure a
  | .error fault => throw fault

/-- The world after an evaluation. -/
def after {α : Type} (m : Eval α) (w : World) : World :=
  match m w with
  | .ok _ w' | .error _ w' => w'

/-- What an evaluation adds to the log. -/
def told {α : Type} (m : Eval α) (w : World) : List LogEntry :=
  (m.after w).log.toList.drop w.log.size

end Eval

/-- What stands in the way of an evaluation when it tells something. -/
abbrev Objection := LogEntry → Option Fault

/-- The first of some entries that there is an objection to: its fault, and the world as it was then
with the entries before it told. -/
def Objection.first? (objection : Objection) (told : Array LogEntry) :
    List LogEntry → Option (Fault × World)
  | [] => none
  | e :: rest =>
    match objection e with
    | some fault => some (fault, ⟨e.store, told⟩)
    | none => objection.first? (told.push e) rest

/-- The evaluation where there may be objections. It ends at the first thing it tells that there is
one to. -/
def Eval.heeding {α : Type} (objection : Objection) (m : Eval α) : Eval α := fun w =>
  match objection.first? w.log (m.told w) with
  | some (fault, w') => .error fault w'
  | none => m w

/-- Forgets the value of a variable. The event is told while the value is still there. -/
def resetCell (id : Nat) : Eval Unit := do
  if ((← Eval.store).cell id).value.isSome then Eval.emit (.reset id)
  Eval.modifyStore (·.updateCell id ({ · with value := none }))

/-- Binds a variable to a value, whatever its constraint says. The missing mark leaves the variable
unbound. -/
def setCell (id : Nat) (value key : Term) : Eval Unit := do
  let held : Option Term := match value with
    | .missing => none
    | _ => some value
  Eval.modifyStore (·.updateCell id ({ · with value := held }))
  Eval.emit (.bound id key)

end SpecMatch
