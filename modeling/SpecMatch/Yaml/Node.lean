import SpecMatch.Yaml.Plain
import SpecMatch.Yaml.Token

/-!
# Nodes of YAML

`Document.ofText?` reads a text as at most one document: a graph of nodes, every one of which has a
tag. A node stands in another one by its place in the list of all nodes, so an alias is the node
that it stands for, which may be a node around it.
-/

namespace SpecMatch.Yaml

/-- What a node holds. Other nodes are given by their places. -/
inductive Content where
  | scalar (text : String)
  | sequence (items : List Nat)
  | mapping (entries : List (Nat × Nat))
deriving DecidableEq

/-- A node of a document. -/
structure Node where
  tag : Tag
  content : Content
deriving DecidableEq

instance : Inhabited Node := ⟨⟨.null, .scalar ""⟩⟩

/-- What has been read and what is still to come: the tokens, the nodes so far, the places of the
nodes with an anchor, and what the handles of tags stand for. -/
structure Reader where
  lexer : Lexer
  nodes : Array Node := #[]
  anchors : List (String × Nat) := []
  handles : List (String × String) := []

/-- Reading a document. -/
abbrev Read := StateT Reader (Except Error)

namespace Read

/-- The next token. -/
def peek : Read Token := do
  let (token, lexer) ← (← get).lexer.peek
  modify ({ · with lexer })
  return token

/-- Passes over a token. -/
def skip : Read Unit := modify fun r => { r with lexer := r.lexer.pass }

/-- Whether the next token is the given one, which is passed over if so. -/
def accept (t : Token) : Read Bool := do
  if (← peek) == t then
    skip
    return true
  else return false

/-- Passes over a token that must come next. -/
def expect (t : Token) : Read Unit := do
  if !(← accept t) then throw .malformed

/-- Whether the next token is one of several. -/
def atAny (ts : List Token) : Read Bool := do return ts.contains (← peek)

/-- The anchor and the tag of a node, in either order. -/
def properties : Read (Option String × Option (Option String × String)) := do
  match ← peek with
  | .anchor name =>
    skip
    match ← peek with
    | .tag handle suffix =>
      skip
      return (some name, some (handle, suffix))
    | _ => return (some name, none)
  | .tag handle suffix =>
    skip
    match ← peek with
    | .anchor name =>
      skip
      return (some name, some (handle, suffix))
    | _ => return (none, some (handle, suffix))
  | _ => return (none, none)

/-- The text of a tag whose handle stands for something. -/
def tagText (tag : Option String × String) : Read String := do
  match tag with
  | (none, suffix) => return suffix
  | (some handle, suffix) =>
    match (← get).handles.lookup handle with
    | some stem => return stem ++ suffix
    | none => throw .malformed

/-- The tag of a collection, which is a plain one unless it is written. -/
def collectionTag (written : Option String) (plain : Tag) : Tag :=
  match written with
  | none | some "!" => plain
  | some text => .ofText text

/-- The tag of a scalar. One without a tag means what its text says if it is plain, and is a string
if it is quoted. -/
def scalarTag (written : Option String) (text : String) (plain : Bool) : Tag :=
  match written with
  | some "!" => .ofPlain text
  | some other => .ofText other
  | none => if plain then .ofPlain text else .str

/-- Adds a node, under its anchor if it has one, and answers its place. -/
def add (anchor : Option String) (tag : Tag) (content : Content) : Read Nat := do
  let place := (← get).nodes.size
  let named := anchor.toList.map fun name => (name, place)
  modify fun r => { r with nodes := r.nodes.push ⟨tag, content⟩, anchors := named ++ r.anchors }
  return place

/-- Adds a node that is not written. -/
def absent : Read Nat := add none .null (.scalar "")

/-- Sets the content of a node that is read now. -/
def setContent (place : Nat) (content : Content) : Read Unit :=
  modify fun r => { r with nodes := r.nodes.modify place ({ · with content }) }

mutual

/-- A node. In a block it may be a block collection, and as the value of a block mapping also a
sequence that is not indented further. -/
def node : Nat → (block unindented : Bool) → Read Nat
  | 0, _, _ => throw .malformed
  | fuel + 1, block, unindented => do
    match ← peek with
    | .alias name =>
      skip
      match (← get).anchors.lookup name with
      | some place => return place
      | none => throw .malformed
    | _ =>
      let (anchor, tag) ← properties
      let tag ← tag.mapM tagText
      let next ← peek
      let anchors := (← get).anchors
      if anchor.any fun name => (anchors.lookup name).isSome then throw .malformed
      content fuel next block unindented anchor tag

/-- The content of a node with its anchor and its tag, beginning with the token `next`. A node with
an anchor or a tag may have none. -/
def content : Nat → (next : Token) → (block unindented : Bool) →
    (anchor tag : Option String) → Read Nat
  | 0, _, _, _, _, _ => throw .malformed
  | fuel + 1, next, block, unindented, anchor, tag => do
    let sequence (items : Read (List Nat)) : Read Nat := do
      let place ← add anchor (collectionTag tag .seq) (.sequence [])
      setContent place (.sequence (← items))
      return place
    let mapping (entries : Read (List (Nat × Nat))) : Read Nat := do
      let place ← add anchor (collectionTag tag .map) (.mapping [])
      setContent place (.mapping (← entries))
      return place
    let empty : Read Nat :=
      if anchor.isSome || tag.isSome then add anchor (scalarTag tag "" true) (.scalar "")
      else throw .malformed
    match next with
    | .blockEntry => if unindented then sequence (unindentedEntries fuel) else empty
    | .scalar text plain =>
      skip
      add anchor (scalarTag tag text plain) (.scalar text)
    | .flowSequence =>
      skip
      sequence (flowItems fuel true)
    | .flowMapping =>
      skip
      mapping (flowEntries fuel true)
    | .blockSequence =>
      if block then
        skip
        sequence (blockItems fuel)
      else empty
    | .blockMapping =>
      if block then
        skip
        mapping (blockEntries fuel)
      else empty
    | _ => empty

/-- The items of a block sequence up to its end. -/
def blockItems : Nat → Read (List Nat)
  | 0 => throw .malformed
  | fuel + 1 => do
    if ← accept .blockEntry then
      let item ← if ← atAny [.blockEntry, .blockEnd] then absent else node fuel true false
      return item :: (← blockItems fuel)
    else
      expect .blockEnd
      return []

/-- The items of a sequence that is not indented further than the mapping around it. -/
def unindentedEntries : Nat → Read (List Nat)
  | 0 => throw .malformed
  | fuel + 1 => do
    if ← accept .blockEntry then
      let item ←
        if ← atAny [.blockEntry, .key, .value, .blockEnd] then absent else node fuel true false
      return item :: (← unindentedEntries fuel)
    else return []

/-- The entries of a block mapping up to its end. -/
def blockEntries : Nat → Read (List (Nat × Nat))
  | 0 => throw .malformed
  | fuel + 1 => do
    let part : Read Nat := do
      if ← atAny [.key, .value, .blockEnd] then absent else node fuel true true
    if ← accept .key then
      let key ← part
      let value ← if ← accept .value then part else absent
      return (key, value) :: (← blockEntries fuel)
    else
      expect .blockEnd
      return []

/-- The items of a flow sequence up to its end; all but the first follow a comma. A pair stands for
a mapping with one entry. -/
def flowItems : Nat → (first : Bool) → Read (List Nat)
  | 0, _ => throw .malformed
  | fuel + 1, first => do
    if ← accept .flowSequenceEnd then return []
    else
      if !first then expect .flowEntry
      if ← accept .flowSequenceEnd then return []
      else if ← accept .key then
        let place ← add none .map (.mapping [])
        let key ←
          if ← atAny [.value, .flowEntry, .flowSequenceEnd] then absent else node fuel false false
        let value ←
          if ← accept .value then
            if ← atAny [.flowEntry, .flowSequenceEnd] then absent else node fuel false false
          else absent
        setContent place (.mapping [(key, value)])
        return place :: (← flowItems fuel false)
      else
        let item ← node fuel false false
        return item :: (← flowItems fuel false)

/-- The entries of a flow mapping up to its end; all but the first follow a comma. A node without a
colon is a key without a value. -/
def flowEntries : Nat → (first : Bool) → Read (List (Nat × Nat))
  | 0, _ => throw .malformed
  | fuel + 1, first => do
    if ← accept .flowMappingEnd then return []
    else
      if !first then expect .flowEntry
      if ← accept .flowMappingEnd then return []
      else if ← accept .key then
        let key ←
          if ← atAny [.value, .flowEntry, .flowMappingEnd] then absent else node fuel false false
        let value ←
          if ← accept .value then
            if ← atAny [.flowEntry, .flowMappingEnd] then absent else node fuel false false
          else absent
        return (key, value) :: (← flowEntries fuel false)
      else
        let key ← node fuel false false
        let value ← absent
        return (key, value) :: (← flowEntries fuel false)

end

/-- The handles that tags may have without a directive. -/
def defaultHandles : List (String × String) := [("!", "!"), ("!!", Tag.stem)]

/-- Reads directives, of which there are at most `fuel`: one version, which must be of the first
generation, and handles of which none is given twice. -/
def directives : Nat → (versioned : Bool) → (handles : List (String × String)) →
    Read (List (String × String))
  | 0, _, _ => throw .malformed
  | fuel + 1, versioned, handles => do
    match ← peek with
    | .directive d =>
      skip
      match d with
      | .version major =>
        if versioned || major != 1 then throw .malformed else directives fuel true handles
      | .tagHandle handle stem =>
        if (handles.lookup handle).isSome then throw .malformed
        else directives fuel versioned ((handle, stem) :: handles)
      | .other => directives fuel versioned handles
    | _ => return handles

/-- Passes over marks for the end of a document, of which there are at most `fuel`. -/
def skipEnds : Nat → Read Unit
  | 0 => throw .malformed
  | fuel + 1 => do if ← accept .documentEnd then skipEnds fuel

/-- The root of a document that begins with directives or a mark. Its content may be missing. -/
def explicitRoot (fuel : Nat) : Read Nat := do
  let handles ← directives fuel false []
  expect .documentStart
  let defaults := defaultHandles.filter fun h => (handles.lookup h.1).isNone
  modify fun r => { r with handles := handles ++ defaults }
  match ← peek with
  | .directive _ | .documentStart | .documentEnd | .streamEnd => absent
  | _ => node fuel true false

/-- The root of the only document of a text, if there is one. After it nothing may come. -/
def root (fuel : Nat) : Read (Option Nat) := do
  match ← peek with
  | .streamEnd => return none
  | next =>
    let place ←
      match next with
      | .directive _ | .documentStart => explicitRoot fuel
      | _ =>
        modify fun r => { r with handles := defaultHandles }
        node fuel true false
    skipEnds fuel
    if (← peek) == .streamEnd then return some place
    else
      let _ ← directives fuel false []
      throw .malformed

end Read

/-- A document: its nodes and the place of its root. -/
structure Document where
  nodes : Array Node
  root : Nat

/-- Reads a text of one document or none. -/
def Document.ofText? (text : String) : Except Error (Option Document) := do
  let lexer ← Lexer.ofText text
  let (root?, reader) ← (Read.root (8 * (text.length + 2))).run { lexer }
  return root?.map fun root => ⟨reader.nodes, root⟩

end SpecMatch.Yaml
