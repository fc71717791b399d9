import SpecMatch.Yaml.Scalar

/-!
# Tokens of YAML

`Lexer.peek` cuts a text into tokens, one after the other as they are asked for. Indentation becomes
tokens of its own that open and close block collections, and a key that is only recognised by the
colon after it gets its mark put in front of it once the colon is read; so a token is not handed
out while it may still become a key.
-/

namespace SpecMatch.Yaml

/-- What a directive says. -/
inductive Directive where
  | version (major : Nat)
  /-- Tags that begin with the handle stand for the given beginning. -/
  | tagHandle (handle stem : String)
  | other
deriving DecidableEq

/-- A token of YAML. -/
inductive Token where
  | directive (d : Directive)
  | documentStart | documentEnd | streamEnd
  | blockSequence | blockMapping | blockEnd
  | flowSequence | flowSequenceEnd | flowMapping | flowMappingEnd
  | key | value | blockEntry | flowEntry
  | alias (name : String)
  | anchor (name : String)
  | tag (handle : Option String) (suffix : String)
  | scalar (text : String) (plain : Bool)
deriving DecidableEq

/-- A token that may turn out to be a key: its place among the tokens, whether it must be one, and
where it begins. -/
structure KeyCandidate where
  place : Nat
  required : Bool
  index : Nat
  line : Nat
  column : Nat

/-- What has been cut and what is known about the collections around the cursor. -/
structure Lexer where
  /-- How many characters the whole text has. -/
  size : Nat
  cursor : Cursor
  tokens : Array Token := #[]
  /-- The column of the innermost block collection, -1 outside of all. -/
  indent : Int := -1
  /-- The columns of the block collections around it. -/
  outer : List Int := []
  /-- How many flow collections are open. -/
  flow : Nat := 0
  /-- Whether a key may begin here. -/
  keyAllowed : Bool := true
  /-- The possible key at each flow level. -/
  candidates : List (Nat × KeyCandidate) := []
  /-- How many of the tokens have been passed over. -/
  passed : Nat := 0
  /-- Whether the end of the text has been reached. -/
  finished : Bool := false

namespace Lexer

/-- Appends a token. -/
def push (l : Lexer) (t : Token) : Lexer := { l with tokens := l.tokens.push t }

/-- Appends a token that is `n` characters long. -/
def take (l : Lexer) (n : Nat) (t : Token) : Lexer :=
  { l with cursor := l.cursor.skip n, tokens := l.tokens.push t }

/-- Forgets the possible key at the current flow level, which must not be a required one. -/
def dropCandidate (l : Lexer) : Except Error Lexer :=
  match l.candidates.lookup l.flow with
  | some k =>
    if k.required then .error .malformed
    else .ok { l with candidates := l.candidates.filter (·.1 != l.flow) }
  | none => .ok l

/-- Remembers that the next token may be a key. At the column of a block mapping it must be. -/
def saveCandidate (l : Lexer) : Except Error Lexer := do
  if l.keyAllowed then
    let l ← l.dropCandidate
    let c := l.cursor
    let required := l.flow == 0 && l.indent == c.column
    let candidate : KeyCandidate := ⟨l.tokens.size, required, c.index, c.line, c.column⟩
    return { l with candidates := (l.flow, candidate) :: l.candidates }
  else return l

/-- Forgets the possible keys that are on another line or too long ago. -/
def dropStale (l : Lexer) : Except Error Lexer :=
  let c := l.cursor
  let stale (k : KeyCandidate) : Bool := k.line != c.line || c.index - k.index > 1024
  if l.candidates.any fun k => stale k.2 && k.2.required then .error .malformed
  else .ok { l with candidates := l.candidates.filter fun k => !stale k.2 }

/-- Closes the block collections that are indented more deeply than a column. -/
def unwind (l : Lexer) (column : Int) : Lexer :=
  if l.flow != 0 then l
  else
    let stack := l.indent :: l.outer
    let closed := stack.takeWhile (column < ·)
    match stack.drop closed.length with
    | indent :: outer =>
      { l with
        indent, outer
        tokens := l.tokens ++ (Array.replicate closed.length Token.blockEnd) }
    | [] => l

/-- Opens a block collection at a column that is deeper than the current one, putting its token at a
place among the tokens. -/
def indentTo (l : Lexer) (column : Nat) (place : Nat) (t : Token) : Lexer :=
  if l.indent < column then
    { l with
      indent := column
      outer := l.indent :: l.outer
      tokens := l.tokens.insertIdxIfInBounds place t }
  else l

/-- The place after blanks, comments and line breaks. A new line outside of flow collections may
begin with a key. -/
def skipBlank (l : Lexer) : Nat → Lexer
  | 0 => l
  | fuel + 1 =>
    let c := l.cursor.skipSpaces.skipComment
    match c.lineBreak? with
    | some (_, after) =>
      skipBlank { l with cursor := after, keyAllowed := l.keyAllowed || l.flow == 0 } fuel
    | none => { l with cursor := c }

/-! ## Names, tags and directives -/

/-- A name of an anchor, and the place after it. -/
def anchorName (c : Cursor) : Except Error (String × Cursor) :=
  let (name, after) := c.span isNameChar
  if name.isEmpty || !(isGap after.peek || "?:,]\x7d%@\x60".toList.contains after.peek) then
    .error .malformed
  else .ok (String.ofList name, after)

/-- A handle of a tag: one exclamation mark, or a name between two. -/
def tagHandle (c : Cursor) : Except Error (String × Cursor) :=
  if c.peek != '!' then .error .malformed
  else if c.peek 1 == ' ' then .ok ("!", c.advance)
  else
    let (name, after) := c.advance.span isNameChar
    if after.peek == '!' then .ok (String.ofList ('!' :: name ++ ['!']), after.advance)
    else .error .malformed

/-- Whether a character may stand in a tag. -/
def isTagChar (c : Char) : Bool := c.isAlphanum || "-;/?:@&=+$,_.!~*'()[]".toList.contains c

/-- The bytes of a run of percent escapes, and the place after it. -/
def percentBytes : Nat → Cursor → Except Error (List UInt8 × Cursor)
  | 0, c => .ok ([], c)
  | fuel + 1, c =>
    if c.peek != '%' then .ok ([], c)
    else match Spelling.hexDigit? (c.peek 1), Spelling.hexDigit? (c.peek 2) with
      | some high, some low => do
        let (more, c) ← percentBytes fuel (c.skip 3)
        return ((high * 16 + low).toUInt8 :: more, c)
      | _, _ => .error .malformed

/-- The characters of a tag with its escapes read as UTF-8, and the place after it. -/
def tagChars : Nat → Cursor → Except Error (List Char × Cursor)
  | 0, c => .ok ([], c)
  | fuel + 1, c =>
    let (run, c) := c.span isTagChar
    if c.peek == '%' then do
      let (bytes, c) ← percentBytes (c.rest.length + 1) c
      match String.fromUTF8? ⟨bytes.toArray⟩ with
      | none => .error .malformed
      | some s =>
        let (more, c) ← tagChars fuel c
        return (run ++ s.toList ++ more, c)
    else .ok (run, c)

/-- The text of a tag, which must not be empty, and the place after it. -/
def tagText (c : Cursor) : Except Error (String × Cursor) := do
  let (text, after) ← tagChars (c.rest.length + 1) c
  if after.index == c.index then .error .malformed else return (String.ofList text, after)

/-- A tag and the place after it: verbatim between angle brackets, a lone mark, or a handle with a
suffix. -/
def tag (c : Cursor) : Except Error (Token × Cursor) := do
  let (token, after) ←
    if c.peek 1 == '<' then do
      let (text, c) ← tagText (c.skip 2)
      if c.peek != '>' then .error .malformed else pure (Token.tag none text, c.advance)
    else if isGap (c.peek 1) then pure (Token.tag none "!", c.advance)
    else
      let word := (c.rest.drop 1).takeWhile fun ch => !(endsLine ch || ch == ' ')
      let (handle, c) ← if word.contains '!' then tagHandle c else pure ("!", c.advance)
      let (text, c) ← tagText c
      pure (Token.tag (some handle) text, c)
  if endsLine after.peek || after.peek == ' ' then return (token, after) else .error .malformed

/-- A decimal number and the place after it. -/
def decimal (c : Cursor) : Except Error (Nat × Cursor) :=
  let (digits, after) := c.span Char.isDigit
  if digits.isEmpty then .error .malformed
  else if Spelling.digitLimit < digits.length then .error .noValue
  else .ok (Double.digitsValue digits, after)

/-- A directive whose indicator has been read, and the place after its line. -/
def directive (c : Cursor) : Except Error (Directive × Cursor) := do
  let wordEnds (c : Cursor) : Bool := endsLine c.peek || c.peek == ' '
  let (name, c) := c.span isNameChar
  if name.isEmpty || !wordEnds c then .error .malformed
  else if name == "YAML".toList then
    let (major, c) ← decimal c.skipSpaces
    if c.peek != '.' then .error .malformed
    else
      let (_, c) ← decimal c.advance
      if wordEnds c then return (.version major, ← c.skipLineEnd) else .error .malformed
  else if name == "TAG".toList then
    let (handle, c) ← tagHandle c.skipSpaces
    if c.peek != ' ' then .error .malformed
    else
      let (stem, c) ← tagText c.skipSpaces
      if wordEnds c then return (.tagHandle handle stem, ← c.skipLineEnd) else .error .malformed
  else return (.other, ← (c.span fun ch => !endsLine ch).2.skipLineEnd)

/-! ## One token after the other -/

/-- A mark between documents closes all block collections. -/
def documentMark (l : Lexer) (t : Token) : Except Error Lexer := do
  let l ← (l.unwind (-1)).dropCandidate
  return { l with keyAllowed := false }.take 3 t

/-- The beginning of a flow collection, which may be a key. -/
def flowStart (l : Lexer) (t : Token) : Except Error Lexer := do
  let l ← l.saveCandidate
  return { l with flow := l.flow + 1, keyAllowed := true }.take 1 t

/-- The end of a flow collection. -/
def flowEnd (l : Lexer) (t : Token) : Except Error Lexer := do
  if l.flow == 0 then .error .malformed
  else
    let l ← l.dropCandidate
    return { l with flow := l.flow - 1, keyAllowed := false }.take 1 t

/-- The indicator of an entry of a block sequence. -/
def blockEntry (l : Lexer) : Except Error Lexer := do
  if l.flow == 0 && !l.keyAllowed then .error .malformed
  else
    let l := if l.flow == 0 then l.indentTo l.cursor.column l.tokens.size .blockSequence else l
    let l ← { l with keyAllowed := true }.dropCandidate
    return l.take 1 .blockEntry

/-- The indicator of a key. -/
def keyMark (l : Lexer) : Except Error Lexer := do
  if l.flow == 0 && !l.keyAllowed then .error .malformed
  else
    let l := if l.flow == 0 then l.indentTo l.cursor.column l.tokens.size .blockMapping else l
    let l ← { l with keyAllowed := l.flow == 0 }.dropCandidate
    return l.take 1 .key

/-- The indicator of a value. What may have been a key before it becomes one. -/
def valueMark (l : Lexer) : Except Error Lexer := do
  match l.candidates.lookup l.flow with
  | some k =>
    let l := { l with
      candidates := l.candidates.filter (·.1 != l.flow)
      tokens := l.tokens.insertIdxIfInBounds k.place .key }
    let l := if l.flow == 0 then l.indentTo k.column k.place .blockMapping else l
    return { l with keyAllowed := false }.take 1 .value
  | none =>
    if l.flow == 0 && !l.keyAllowed then .error .malformed
    else
      let l := if l.flow == 0 then l.indentTo l.cursor.column l.tokens.size .blockMapping else l
      let l ← { l with keyAllowed := l.flow == 0 }.dropCandidate
      return l.take 1 .value

/-- A token that may be a key and after which no key may begin. -/
def keyLike (l : Lexer) (scan : Cursor → Except Error (Token × Cursor)) : Except Error Lexer := do
  let l ← l.saveCandidate
  let (token, cursor) ← scan l.cursor
  return { l with cursor, keyAllowed := false }.push token

/-- A block scalar. -/
def blockScalar (l : Lexer) (folded : Bool) : Except Error Lexer := do
  let l ← { l with keyAllowed := true }.dropCandidate
  let (text, cursor) ← Block.scan folded l.indent l.cursor.advance
  return { l with cursor }.push (.scalar (String.ofList text) false)

/-- A quoted scalar. -/
def quotedScalar (l : Lexer) (double : Bool) : Except Error Lexer :=
  l.keyLike fun c => do
    let (text, c) ← Quoted.scan double (l.size + 1) c.advance
    return (.scalar (String.ofList text) false, c)

/-- A plain scalar. One that ends at the beginning of a line lets a key follow. -/
def plainScalar (l : Lexer) : Except Error Lexer := do
  let l ← l.saveCandidate
  let (text, atLineStart, cursor) :=
    Plain.scan (l.flow != 0) (l.indent + 1) (l.size + 1) [] false l.cursor
  return { l with cursor, keyAllowed := atLineStart }.push (.scalar (String.ofList text) true)

/-- Whether a plain scalar may begin with the next characters. -/
def startsPlain (l : Lexer) : Bool :=
  let c := l.cursor.peek
  let next := l.cursor.peek 1
  !(isGap c || "-?:,[]\x7b\x7d#&*!|>'\"%@\x60".toList.contains c) ||
    (!isGap next && (c == '-' || (l.flow == 0 && (c == '?' || c == ':'))))

/-- The end of the text. -/
def finish (l : Lexer) : Except Error Lexer := do
  let l ← (l.unwind (-1)).dropCandidate
  return { l with keyAllowed := false, candidates := [], finished := true }.push .streamEnd

/-- Cuts off the next token, which does not begin with a blank. -/
def next (l : Lexer) : Except Error Lexer :=
  let c := l.cursor
  let inBlock := l.flow == 0
  let gapAfter := isGap (c.peek 1)
  let ch := c.peek
  if ch == '%' && c.column == 0 then do
    let l ← (l.unwind (-1)).dropCandidate
    let (d, cursor) ← directive c.advance
    return { l with cursor, keyAllowed := false }.push (.directive d)
  else if c.column == 0 && c.atMarker '-' then l.documentMark .documentStart
  else if c.column == 0 && c.atMarker '.' then l.documentMark .documentEnd
  else if ch == '[' then l.flowStart .flowSequence
  else if ch == '{' then l.flowStart .flowMapping
  else if ch == ']' then l.flowEnd .flowSequenceEnd
  else if ch == '}' then l.flowEnd .flowMappingEnd
  else if ch == ',' then do
    let l ← { l with keyAllowed := true }.dropCandidate
    return l.take 1 .flowEntry
  else if ch == '-' && gapAfter then l.blockEntry
  else if ch == '?' && (!inBlock || gapAfter) then l.keyMark
  else if ch == ':' && (!inBlock || gapAfter) then l.valueMark
  else if ch == '*' then l.keyLike fun c => do
    let (name, c) ← anchorName c.advance
    return (.alias name, c)
  else if ch == '&' then l.keyLike fun c => do
    let (name, c) ← anchorName c.advance
    return (.anchor name, c)
  else if ch == '!' then l.keyLike tag
  else if ch == '|' && inBlock then l.blockScalar false
  else if ch == '>' && inBlock then l.blockScalar true
  else if ch == '\'' then l.quotedScalar false
  else if ch == '"' then l.quotedScalar true
  else if l.startsPlain then l.plainScalar
  else .error .malformed

/-- Goes on to the next token and cuts it off. -/
def fetch (l : Lexer) : Except Error Lexer := do
  let l ← (l.skipBlank (l.size + 1)).dropStale
  let l := l.unwind l.cursor.column
  if l.cursor.rest.isEmpty then l.finish else l.next

/-- Cuts off tokens, at most `fuel` times, until there is a next one that cannot become a key any
more. -/
def settle : Nat → Lexer → Except Error Lexer
  | 0, l => .ok l
  | fuel + 1, l => do
    if l.finished then return l
    else if l.tokens.size ≤ l.passed then settle fuel (← l.fetch)
    else
      let l ← l.dropStale
      if l.candidates.any (·.2.place == l.passed) then settle fuel (← l.fetch) else return l

/-- The next token, and what is known then. After the end of the text it is that end. -/
def peek (l : Lexer) : Except Error (Token × Lexer) := do
  let l ← l.settle (l.size + 2)
  return (l.tokens[l.passed]?.getD .streamEnd, l)

/-- Passes over the next token. -/
def pass (l : Lexer) : Lexer := { l with passed := l.passed + 1 }

/-- The tokens of a text, none of which has been cut yet. A byte order mark in front of it is
skipped. -/
def ofText (s : String) : Except Error Lexer :=
  let cs := s.toList
  if cs.all isReadable then
    let start : Cursor := ⟨cs, 0, 0, 0⟩
    .ok { size := cs.length, cursor := if start.peek == '\ufeff' then start.advance else start }
  else .error .malformed

end Lexer

end SpecMatch.Yaml
