import SpecMatch.Numeric.Spelling
import SpecMatch.Text.Surrogate
import SpecMatch.Yaml.Cursor

/-!
# The text of scalars

A scalar is written plainly, between quotes, or as an indented block, and each way has its own rule
for lines that are broken: a single break is folded to a space and further ones are kept, a literal
block keeps all of them.
-/

namespace SpecMatch.Yaml

/-- A break and the breaks after it, folded. -/
def foldBreaks (first : Char) (others : List Char) : List Char :=
  (if first != '\n' then [first] else if others.isEmpty then [' '] else []) ++ others

/-! ## Plain scalars -/

namespace Plain

/-- How many of the characters that come next belong to a plain scalar on this line. -/
def runLength (flow : Bool) : List Char → Nat
  | [] => 0
  | c :: rest =>
    let next := rest.head?.getD '\x00'
    let indicators := ",[]\x7b\x7d".toList
    if isGap c then 0
    else if c == ':' && (isGap next || (flow && indicators.contains next)) then 0
    else if flow && (c == '?' || indicators.contains c) then 0
    else runLength flow rest + 1

/-- The breaks of empty lines and the place after them and the spaces, unless a mark between
documents comes first. -/
def breaks : Nat → Cursor → Option (List Char) × Cursor
  | 0, c => (some [], c)
  | fuel + 1, c =>
    if c.peek == ' ' then breaks fuel c.advance
    else match c.lineBreak? with
      | none => (some [], c)
      | some (ch, after) =>
        if after.atDocumentMark then (none, after)
        else
          let (more, last) := breaks fuel after
          (more.map (ch :: ·), last)

/-- The space between two runs: what it stands for, whether it crosses a line, and the place after
it. Nothing can follow it where it stands for nothing. -/
def gap (c : Cursor) : Option (List Char) × Bool × Cursor :=
  let (spaces, c) := c.span (· == ' ')
  match c.lineBreak? with
  | none => (if spaces.isEmpty then none else some spaces, false, c)
  | some (ch, c) =>
    if c.atDocumentMark then (none, true, c)
    else
      let (others, c) := breaks c.rest.length c
      (others.map (foldBreaks ch), true, c)

/-- The rest of a plain scalar after the space `before`; `crossed` tells whether that crosses a
line. Answers the text, whether the place after it is at the beginning of a line, and that place. -/
def scan (flow : Bool) (indent : Int) :
    Nat → (before : List Char) → (crossed : Bool) → Cursor → List Char × Bool × Cursor
  | 0, _, crossed, c => ([], crossed, c)
  | fuel + 1, before, crossed, c =>
    let length := runLength flow c.rest
    if c.peek == '#' || length == 0 then ([], crossed, c)
    else
      let run := before ++ c.rest.take length
      match gap (c.skip length) with
      | (some space, crossed, c) =>
        if c.peek == '#' || (!flow && c.column < indent) then (run, crossed, c)
        else
          let (more, crossed, c) := scan flow indent fuel space crossed c
          (run ++ more, crossed, c)
      | (none, crossed, c) => (run, crossed, c)

end Plain

/-! ## Quoted scalars -/

namespace Quoted

/-- What the character after a backslash stands for. -/
def escapes : List (Char × Char) :=
  [('0', '\x00'), ('a', '\x07'), ('b', '\x08'), ('t', '\t'), ('\t', '\t'), ('n', '\n'),
    ('v', '\x0b'), ('f', '\x0c'), ('r', '\r'), ('e', '\x1b'), (' ', ' '), ('"', '"'),
    ('\\', '\\'), ('/', '/'), ('N', '\u0085'), ('_', '\u00a0'), ('L', '\u2028'), ('P', '\u2029')]

/-- How many hexadecimal digits follow an escape by code. -/
def codeLengths : List (Char × Nat) := [('x', 2), ('u', 4), ('U', 8)]

/-- The character with a code, given by `length` hexadecimal digits at the cursor. -/
def codeAt (length : Nat) (c : Cursor) : Except Error Char :=
  match if c.rest.length < length then none else Spelling.digits? 16 (c.rest.take length) with
  | none => .error .malformed
  | some code =>
    if code > 0x7fffffff then .error .tooLarge
    else if code > 0x10ffff then .error .noValue
    else .ok (Text.ofCode code)

/-- The breaks of empty lines and the place after them and the blanks. -/
def breaks : Nat → Cursor → Except Error (List Char × Cursor)
  | 0, c => .ok ([], c)
  | fuel + 1, c =>
    if c.atDocumentMark then .error .malformed
    else
      let c := (c.span fun ch => ch == ' ' || ch == '\t').2
      match c.lineBreak? with
      | none => .ok ([], c)
      | some (ch, c) => do
        let (more, c) ← breaks fuel c
        return (ch :: more, c)

/-- The rest of a quoted scalar and the place after the closing quote. -/
def scan (double : Bool) : Nat → Cursor → Except Error (List Char × Cursor)
  | 0, _ => .error .malformed
  | fuel + 1, c =>
    let quote := if double then '"' else '\''
    let go (text : List Char) (c : Cursor) : Except Error (List Char × Cursor) := do
      let (more, c) ← scan double fuel c
      return (text ++ more, c)
    let ch := c.peek
    if ch == '\x00' then .error .malformed
    else if ch == quote then
      if !double && c.peek 1 == quote then go [quote] (c.skip 2) else .ok ([], c.advance)
    else if double && ch == '\\' then
      let c := c.advance
      match escapes.lookup c.peek, codeLengths.lookup c.peek, c.lineBreak? with
      | some escaped, _, _ => go [escaped] c.advance
      | none, some length, _ => do
        let escaped ← codeAt length c.advance
        go [escaped] (c.skip (length + 1))
      | none, none, some (_, c) => do
        let (others, c) ← breaks (c.rest.length + 1) c
        go others c
      | none, none, none => .error .malformed
    else if ch == ' ' || ch == '\t' then
      let (blanks, c) := c.span fun ch => ch == ' ' || ch == '\t'
      if isBreak c.peek then go [] c else go blanks c
    else match c.lineBreak? with
      | none => go [ch] c.advance
      | some (first, c) => do
        let (others, c) ← breaks (c.rest.length + 1) c
        go (foldBreaks first others) c

end Quoted

/-! ## Block scalars -/

namespace Block

/-- What becomes of the breaks at the end of a block. -/
inductive Chomping where
  | clip | strip | keep
deriving DecidableEq

/-- The chomping that a sign asks for. -/
def chomping? (c : Char) : Option Chomping :=
  if c == '+' then some .keep else if c == '-' then some .strip else none

/-- An explicit indentation. -/
def increment? (c : Char) : Option Nat :=
  if c.isDigit then some (c.toNat - '0'.toNat) else none

/-- The header of a block: its chomping and its explicit indentation, in either order. -/
def header (c : Cursor) : Except Error (Chomping × Option Nat × Cursor) := do
  let (chomping, increment, c) :=
    match chomping? c.peek with
    | some chomping =>
      match increment? (c.peek 1) with
      | some n => (chomping, some n, c.skip 2)
      | none => (chomping, none, c.advance)
    | none =>
      match increment? c.peek with
      | some n =>
        match chomping? (c.peek 1) with
        | some chomping => (chomping, some n, c.skip 2)
        | none => (.clip, some n, c.advance)
      | none => (.clip, none, c)
  if increment == some 0 || !(endsLine c.peek || c.peek == ' ') then .error .malformed
  else return (chomping, increment, ← c.skipLineEnd)

/-- The breaks before the first line of a block, the deepest indentation among them, and the place
after them. -/
def leading : Nat → Cursor → List Char × Nat × Cursor
  | 0, c => ([], 0, c)
  | fuel + 1, c =>
    if c.peek == ' ' then
      let (breaks, deepest, last) := leading fuel c.advance
      (breaks, max c.advance.column deepest, last)
    else match c.lineBreak? with
      | none => ([], 0, c)
      | some (ch, after) =>
        let (breaks, deepest, last) := leading fuel after
        (ch :: breaks, deepest, last)

/-- The place after the spaces of an indentation. -/
def skipIndent (indent : Nat) (c : Cursor) : Cursor :=
  c.skip (min (indent - c.column) (c.rest.takeWhile (· == ' ')).length)

/-- The breaks of empty lines and the place after them and the indentation of the next line. -/
def breaks (indent : Nat) : Nat → Cursor → List Char × Cursor
  | 0, c => ([], c)
  | fuel + 1, c =>
    let c := skipIndent indent c
    match c.lineBreak? with
    | none => ([], c)
    | some (ch, after) =>
      let (more, last) := breaks indent fuel after
      (ch :: more, last)

/-- Whether a line of a block begins with a blank, so that breaks around it are not folded. -/
def startsBlank (c : Cursor) : Bool := c.peek == ' ' || c.peek == '\t'

/-- The lines of a block from the cursor on, after the breaks `before`. -/
def lines (folded : Bool) (chomping : Chomping) (indent : Nat) :
    Nat → (before : List Char) → Cursor → List Char × Cursor
  | 0, _, c => ([], c)
  | fuel + 1, before, c =>
    let (text, after) := c.span fun ch => !endsLine ch
    let (lineBreak, after) :=
      match after.lineBreak? with
      | some (ch, after) => ([ch], after)
      | none => ([], after)
    let (others, next) := breaks indent (after.rest.length + 1) after
    let line := before ++ text
    if next.column == indent && next.peek != '\x00' then
      let joint :=
        if folded && lineBreak == ['\n'] && !startsBlank c && !startsBlank next then
          if others.isEmpty then [' '] else []
        else lineBreak
      let (more, last) := lines folded chomping indent fuel others next
      (line ++ joint ++ more, last)
    else
      let tail := match chomping with
        | .strip => []
        | .clip => lineBreak
        | .keep => lineBreak ++ others
      (line ++ tail, next)

/-- A block scalar whose indicator has been read, inside a collection indented by `parent`. -/
def scan (folded : Bool) (parent : Int) (c : Cursor) : Except Error (List Char × Cursor) := do
  let (chomping, increment, c) ← header c
  let least := (max (parent + 1) 1).toNat
  let (before, indent, c) :=
    match increment with
    | none =>
      let (breaks, deepest, c) := leading c.rest.length c
      (breaks, max least deepest, c)
    | some n =>
      let indent := least + n - 1
      let (breaks, c) := breaks indent (c.rest.length + 1) c
      (breaks, indent, c)
  if c.column == indent && c.peek != '\x00' then
    return lines folded chomping indent c.rest.length before c
  else
    return (if chomping == .keep then before else [], c)

end Block

end SpecMatch.Yaml
