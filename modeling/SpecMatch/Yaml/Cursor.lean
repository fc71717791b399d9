import SpecMatch.Text.Surrogate
import SpecMatch.Yaml.Error

/-!
# A place in a YAML text

`Cursor` is the text that is still to be read together with its position. Line breaks are read as
in YAML 1.1: a carriage return, a line feed, both, and the next-line character count as one line
feed, and the two Unicode separators break a line and stand for themselves.
-/

namespace SpecMatch.Yaml

/-- The text that is still to be read and its position. -/
structure Cursor where
  rest : List Char
  index : Nat := 0
  line : Nat := 0
  column : Nat := 0

/-- Whether a character breaks a line. -/
def isBreak (c : Char) : Bool :=
  c == '\n' || c == '\r' || c == '\u0085' || c == '\u2028' || c == '\u2029'

/-- Whether a character ends a line; the end of the text is read as NUL. -/
def endsLine (c : Char) : Bool := c == '\x00' || isBreak c

/-- Whether a character ends a line or separates words on it. -/
def isGap (c : Char) : Bool := endsLine c || c == ' ' || c == '\t'

/-- Whether a character may stand in a name of an anchor or a directive. -/
def isNameChar (c : Char) : Bool := c.isAlphanum || c == '-' || c == '_'

/-- Whether a character may stand in a YAML text. -/
def isReadable (c : Char) : Bool :=
  let n := c.toNat
  (Text.surrogate? c).isNone &&
    (n == 0x09 || n == 0x0a || n == 0x0d || n == 0x85 || (0x20 ≤ n && n ≤ 0x7e) ||
      (0xa0 ≤ n && n ≤ 0xfffd) || 0x10000 ≤ n)

namespace Cursor

/-- The character `ahead` places further on, or NUL beyond the end. -/
def peek (c : Cursor) (ahead : Nat := 0) : Char := (c.rest[ahead]?).getD '\x00'

/-- The place after the next character. -/
def advance (c : Cursor) : Cursor :=
  match c.rest with
  | [] => c
  | ch :: rest =>
    if isBreak ch && !(ch == '\r' && rest.head? == some '\n') then
      ⟨rest, c.index + 1, c.line + 1, 0⟩
    else ⟨rest, c.index + 1, c.line, if ch == '\ufeff' then c.column else c.column + 1⟩

/-- The place after `n` characters. -/
def skip (c : Cursor) : Nat → Cursor
  | 0 => c
  | n + 1 => c.advance.skip n

/-- The longest run of characters that pass a test, and the place after it. -/
def span (c : Cursor) (test : Char → Bool) : List Char × Cursor :=
  let run := c.rest.takeWhile test
  (run, c.skip run.length)

/-- The place after a run of spaces. -/
def skipSpaces (c : Cursor) : Cursor := (c.span (· == ' ')).2

/-- The place after a comment, if one begins here. -/
def skipComment (c : Cursor) : Cursor :=
  if c.peek == '#' then (c.span fun ch => !endsLine ch).2 else c

/-- The character that a line break stands for, and the place after it. -/
def lineBreak? (c : Cursor) : Option (Char × Cursor) :=
  let ch := c.peek
  if ch == '\r' && c.peek 1 == '\n' then some ('\n', c.skip 2)
  else if ch == '\r' || ch == '\n' || ch == '\u0085' then some ('\n', c.advance)
  else if ch == '\u2028' || ch == '\u2029' then some (ch, c.advance)
  else none

/-- Whether three equal characters and a gap come next. -/
def atMarker (c : Cursor) (mark : Char) : Bool :=
  c.peek == mark && c.peek 1 == mark && c.peek 2 == mark && isGap (c.peek 3)

/-- Whether a mark between documents comes next. -/
def atDocumentMark (c : Cursor) : Bool := c.atMarker '-' || c.atMarker '.'

/-- The rest of a line that may hold nothing but a comment, and its line break. -/
def skipLineEnd (c : Cursor) : Except Error Cursor :=
  let c := c.skipSpaces.skipComment
  match c.lineBreak? with
  | some (_, after) => .ok after
  | none => if c.peek == '\x00' then .ok c else .error .malformed

end Cursor

end SpecMatch.Yaml
