import SpecMatch.Term.Container
import SpecMatch.Yaml.Node

/-!
# The value of a YAML document

`Yaml.parse` reads a text as a term. Every node is built once, by its tag: scalars become truth
values, numbers, dates and text, sequences become lists and mappings plain maps. Collections are
filled level by level, so of several errors the one nearest to the root counts, and among those of
one level the first in the text.
-/

namespace SpecMatch.Yaml

/-! ## Scalars -/

namespace Scalar

/-- The pieces of a text between its colons. -/
def colonParts : List Char → List (List Char)
  | [] => [[]]
  | c :: cs =>
    match colonParts cs with
    | [] => [[]]
    | part :: parts => if c == ':' then [] :: part :: parts else (c :: part) :: parts

/-- The value of an integer without its sign in one of the notations of YAML. -/
def unsignedInt? (cs : List Char) : Option Int :=
  match cs with
  | ['0'] => some 0
  | '0' :: 'b' :: rest => Spelling.int? 2 rest
  | '0' :: 'x' :: rest => Spelling.int? 16 rest
  | '0' :: _ => Spelling.int? 8 cs
  | _ => (colonParts cs).foldlM (fun n part => (Spelling.int? 10 part).map (n * 60 + ·)) 0

/-- The value of an integer. -/
def int (text : String) : Except Error Term :=
  let (negative, digits) := Double.splitSign (text.toList.filter (· != '_'))
  if digits.isEmpty then .error .emptyNumber
  else match unsignedInt? digits with
    | some n => .ok (.int (if negative then -n else n))
    | none => .error .noValue

/-- The value of parts in base sixty, the last of which counts units. -/
def sixtieths (parts : List Double) : Double :=
  if parts.any (· matches .nan _) then .nan 0
  else match parts.contains (.infinite true), parts.contains (.infinite false) with
    | true, true => .nan 0
    | true, false => .infinite true
    | false, true => .infinite false
    | false, false =>
      let units : Int := parts.foldl (fun n part =>
        n * 60 + (match part with
          | .finite negative magnitude => if negative then -(magnitude : Int) else magnitude
          | _ => 0)) 0
      Double.ofRatio (units < 0) units.natAbs Double.unitsPerOne

/-- The largest number of parts in base sixty: no double holds the weight of a further one. -/
def partLimit : Nat := 174

/-- The value of a number without its sign in one of the notations of YAML. -/
def unsignedFloat (cs : List Char) : Except Error Double :=
  let valued : Option Double → Except Error Double
    | some x => .ok x
    | none => .error .noValue
  if cs == ".inf".toList then .ok (.infinite false)
  else if cs == ".nan".toList then .ok (.nan 0)
  else if cs.contains ':' then do
    let parts ← (colonParts cs).mapM fun part => valued (Spelling.double? part)
    if partLimit < parts.length then throw .tooLarge else return sixtieths parts
  else valued (Spelling.double? cs)

/-- A double with its sign turned if asked. -/
def signed (negative : Bool) : Double → Double
  | .infinite n => .infinite (n != negative)
  | .finite n magnitude => .finite (n != negative) magnitude
  | x => x

/-- The value of a number with a point. -/
def float (text : String) : Except Error Term :=
  let cs := (text.toList.filter (· != '_')).map Char.toLower
  if cs.isEmpty then .error .emptyNumber
  else
    let (negative, digits) := Double.splitSign cs
    (unsignedFloat digits).map fun x => .float (signed negative x)

/-- The value of a truth word. -/
def bool (text : String) : Except Error Term :=
  match Tag.truthWords.lookup text.toLower with
  | some b => .ok (.bool b)
  | none => .error .noTruthValue

/-- The value of a time, known by its text. -/
def time (text : String) : Except Error Term :=
  match Time.parse? true (withoutBreak text.toList) with
  | none => .error .noTime
  | some t =>
    if t.exists? then
      .ok (.foreign (if t.clock.isSome then .host "datetime" ["date"] else .host "date") text)
    else .error .noValue

/-- The value of a digit in base 64. -/
def digit64? (c : Char) : Option Nat :=
  if 'A' ≤ c && c ≤ 'Z' then some (c.toNat - 'A'.toNat)
  else if 'a' ≤ c && c ≤ 'z' then some (c.toNat - 'a'.toNat + 26)
  else if c.isDigit then some (c.toNat - '0'.toNat + 52)
  else if c == '+' then some 62
  else if c == '/' then some 63
  else none

/-- The bytes of digits in base 64, of which `held` are the bits that do not fill a byte yet and
`place` counts the digits of the group. Other characters are passed over; a group may end in
padding, of which `pads` characters have come. -/
def bytes64 (held place pads : Nat) : List Char → Except Error (List UInt8)
  | [] => if place == 0 then .ok [] else .error .malformed
  | c :: cs =>
    if c == '=' then
      if 2 ≤ place && 4 ≤ place + pads + 1 then .ok []
      else bytes64 held place (if 2 ≤ place then pads + 1 else pads) cs
    else match digit64? c with
      | none => bytes64 held place pads cs
      | some d =>
        match place with
        | 0 => bytes64 d 1 0 cs
        | 1 => do return (held * 4 + d / 16).toUInt8 :: (← bytes64 (d % 16) 2 0 cs)
        | 2 => do return (held * 16 + d / 4).toUInt8 :: (← bytes64 (d % 4) 3 0 cs)
        | _ => do return (held * 64 + d).toUInt8 :: (← bytes64 0 0 0 cs)

/-- The bytes that a text stands for. -/
def binary (text : String) : Except Error Term := do
  if text.toList.all (·.toNat < 0x80) then return .bytes (← bytes64 0 0 0 text.toList)
  else throw .malformed

/-- The value of a text by its tag. -/
def build (tag : Tag) (text : String) : Except Error Term :=
  match tag with
  | .null => .ok .null
  | .bool => bool text
  | .int => int text
  | .float => float text
  | .time => time text
  | .str => .ok (.str text)
  | .binary => binary text
  | _ => .error .malformed

end Scalar

/-! ## Collections -/

/-- What a node has become. Other nodes are given by their places. -/
inductive Part where
  | scalar (value : Term)
  | list (items : List Nat)
  | map (entries : List (Nat × Nat))
  | set (entries : List (Nat × Nat))
  /-- A list of pairs. -/
  | pairs (entries : List (Nat × Nat))

/-- The building of a document: its nodes, whose entries change by merging, what they have become,
and the collections that are still to be filled, the next one last. -/
structure Builder where
  nodes : Array Node
  parts : Array (Option Part)
  waiting : List Nat := []

/-- Building a document. -/
abbrev Build := StateT Builder (Except Error)

namespace Build

/-- The node at a place. -/
def node (place : Nat) : Build Node := do return (← get).nodes[place]?.getD default

/-- The entries of a mapping. -/
def entries (place : Nat) : Build (List (Nat × Nat)) := do
  match (← node place).content with
  | .mapping entries => return entries
  | _ => throw .malformed

/-- Changes a node. -/
def setNode (place : Nat) (f : Node → Node) : Build Unit :=
  modify fun b => { b with nodes := b.nodes.modify place f }

/-- Sets the entries of a mapping. -/
def setEntries (place : Nat) (entries : List (Nat × Nat)) : Build Unit :=
  setNode place ({ · with content := .mapping entries })

/-- Notes what a node has become. -/
def setPart (place : Nat) (part : Part) : Build Unit :=
  modify fun b => { b with parts := b.parts.setIfInBounds place (some part) }

/-- Takes the entries to merge out of a mapping, from an index on, and answers those that `source`
finds for them. A mark for a value becomes a string where it is a key. There are at most `fuel`
entries. -/
def takeMerged (source : Nat → Build (List (Nat × Nat))) (place : Nat) :
    (fuel index : Nat) → Build (List (Nat × Nat))
  | 0, _ => return []
  | fuel + 1, index => do
    let current ← entries place
    match current[index]? with
    | none => return []
    | some (key, value) =>
      match (← node key).tag with
      | .merge =>
        setEntries place (current.eraseIdx index)
        let found ← source value
        return found ++ (← takeMerged source place fuel index)
      | .value =>
        setNode key ({ · with tag := .str })
        takeMerged source place fuel (index + 1)
      | _ => takeMerged source place fuel (index + 1)

/-- Puts the entries that a mapping merges in front of its own, following merges of merged mappings
at most `depth` times. -/
def merge : (depth : Nat) → (place : Nat) → Build Unit
  | 0, _ => return ()
  | depth + 1, place => do
    let mapping (place : Nat) : Build (List (Nat × Nat)) := do
      let _ ← entries place
      merge depth place
      entries place
    let source (place : Nat) : Build (List (Nat × Nat)) := do
      match (← node place).content with
      | .mapping _ => mapping place
      | .sequence items => return (← items.mapM mapping).reverse.flatten
      | .scalar _ => throw .malformed
    let merged ← takeMerged source place ((← entries place).length + 1) 0
    if !merged.isEmpty then setEntries place (merged ++ (← entries place))

/-- The text of a scalar. A mapping with a mark for a value has the text of that value. -/
def scalarText : (depth : Nat) → (place : Nat) → Build String
  | 0, _ => throw .malformed
  | depth + 1, place => do
    match (← node place).content with
    | .scalar text => return text
    | .sequence _ => throw .malformed
    | .mapping entries =>
      let marked ← entries.filterM fun e => do return (← node e.1).tag == .value
      match marked.head? with
      | some (_, value) => scalarText depth value
      | none => throw .malformed

/-- Builds a node, unless it has been built. A collection is left to be filled later. -/
def construct (place : Nat) : Build Unit := do
  if ((← get).parts[place]?.getD none).isNone then
    let ⟨tag, content⟩ ← node place
    let later (part : Part) : Build Unit := do
      setPart place part
      modify fun b => { b with waiting := place :: b.waiting }
    match tag with
    | .seq => later (.list [])
    | .map => later (.map [])
    | .set => later (.set [])
    | .orderedPairs | .pairs => later (.pairs [])
    | .merge | .value | .other _ => throw .malformed
    | tag =>
      let text ← scalarText ((← get).nodes.size + 1) place
      if tag == .time && !(content matches .scalar _) then throw .noTimeText
      setPart place (.scalar (← Scalar.build tag text))

/-- Whether a built node can be a key, as every scalar can. -/
def isKey (place : Nat) : Build Bool := do
  return match (← get).parts[place]?.getD none with
    | some (.scalar _) => true
    | _ => false

/-- Builds the entries of a mapping and answers them, merged ones in front. -/
def constructEntries (place : Nat) : Build (List (Nat × Nat)) := do
  merge ((← get).nodes.size + 1) place
  let all ← entries place
  for (key, value) in all do
    construct key
    if !(← isKey key) then throw .malformed
    construct value
  return all

/-- The only entry of a mapping, which is built. -/
def constructPair (place : Nat) : Build (Nat × Nat) := do
  match ← entries place with
  | [(key, value)] =>
    construct key
    construct value
    return (key, value)
  | _ => throw .malformed

/-- Fills a collection. -/
def fill (place : Nat) : Build Unit := do
  let items : Build (List Nat) := do
    match (← node place).content with
    | .sequence items => return items
    | _ => throw .malformed
  match (← get).parts[place]?.getD none with
  | some (.list _) =>
    let items ← items
    items.forM construct
    setPart place (.list items)
  | some (.map _) => setPart place (.map (← constructEntries place))
  | some (.set _) => setPart place (.set (← constructEntries place))
  | some (.pairs _) => setPart place (.pairs (← (← items).mapM constructPair))
  | _ => return ()

/-- Fills collections level by level. There are at most `fuel` levels. -/
def fillAll : (fuel : Nat) → Build Unit
  | 0 => return ()
  | fuel + 1 => do
    let waiting := (← get).waiting.reverse
    modify ({ · with waiting := [] })
    if !waiting.isEmpty then
      waiting.forM fill
      fillAll fuel

end Build

/-! ## Terms -/

namespace Part

/-- The term of a built node, given those of the nodes in it. -/
def term (terms : Array Term) : Part → Term
  | .scalar value => value
  | .list items => .list (items.map termAt)
  | .map entries => .map .plain (Entries.ofPairs (entries.map fun e => (termAt e.1, termAt e.2)))
  | .set _ => .foreign (.host "set") "set()"
  | .pairs entries => .list (entries.map fun e => .tuple [termAt e.1, termAt e.2])
where
  /-- The term at a place. -/
  termAt (place : Nat) : Term := terms[place]?.getD .null

/-- A collection without its parts, or a scalar. -/
def outline : Part → Term
  | .list _ => .list []
  | .map _ => .map .plain []
  | .pairs _ => .list []
  | part => part.term #[]

/-- How many of the nodes in a built node are an alias of a node that began no later than it. -/
def aliases (place : Nat) : Part → Nat
  | .list items => items.countP (· ≤ place)
  | .map entries | .set entries | .pairs entries =>
    entries.countP (·.1 ≤ place) + entries.countP (·.2 ≤ place)
  | .scalar _ => 0

end Part

/-- The terms of built nodes. A node begins before the nodes in it, so the terms are made from the
last node to the first. A node whose alias it holds may begin earlier; the term of that is right
after one more of the `rounds`. -/
def terms (parts : Array Part) (rounds : Nat) : Array Term :=
  rounds.repeat (fun terms => parts.size.fold (fun i _ terms =>
    let place := parts.size - 1 - i
    terms.setIfInBounds place ((parts[place]?.getD (.list [])).term terms)) terms)
    (parts.map Part.outline)

/-- The term of a document. On no chain of nodes are more aliases than there are in all, unless a
node holds itself; such a one is unfolded that often and once more. -/
def Document.build (d : Document) : Except Error Term := do
  let start : Builder := { nodes := d.nodes, parts := Array.replicate d.nodes.size none }
  let steps : Build Unit := do
    Build.construct d.root
    Build.fillAll (d.nodes.size + 1)
  let (_, builder) ← steps.run start
  let parts := builder.parts.map (·.getD (.scalar .null))
  let aliases := (parts.mapIdx fun place part => part.aliases place).foldl (· + ·) 0
  return (terms parts (aliases + 1))[d.root]?.getD .null

/-- Reads a text of at most one document; without one its value is `null`. -/
def parse (text : String) : Except Error Term := do
  match ← Document.ofText? text with
  | none => return .null
  | some document => document.build

end SpecMatch.Yaml
