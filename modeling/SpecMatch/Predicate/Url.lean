import SpecMatch.Text.Blank
import SpecMatch.Text.Compatibility

/-!
# Absolute addresses

`isAbsoluteUrl` recognises an absolute address: a scheme, a colon, two slashes and a network
location, without any blank. The host of a location with brackets must be an IPv6 address or one of
a future version, and no character of the location may stand for a delimiter.
-/

namespace SpecMatch

namespace Url

/-- The pieces of a text between the occurrences of a separator. -/
def splitAt (separator : Char) : List Char → List (List Char)
  | [] => [[]]
  | c :: cs =>
    match splitAt separator cs with
    | [] => [[]]
    | piece :: pieces =>
      if c == separator then [] :: piece :: pieces else (c :: piece) :: pieces

/-- Whether a character is a hexadecimal digit. -/
def isHexDigit (c : Char) : Bool :=
  c.isDigit || ('a' ≤ c && c ≤ 'f') || ('A' ≤ c && c ≤ 'F')

/-- Whether a text is one number of a dotted IPv4 address: at most 255, without leading zeros. -/
def isOctet (cs : List Char) : Bool :=
  !cs.isEmpty && cs.all Char.isDigit && cs.length ≤ 3 && (cs == ['0'] || cs.head? != some '0') &&
    cs.foldl (fun n c => n * 10 + (c.toNat - '0'.toNat)) 0 ≤ 255

/-- Whether a text is a dotted IPv4 address. -/
def isDotted (cs : List Char) : Bool :=
  let octets := splitAt '.' cs
  octets.length == 4 && octets.all isOctet

/-- Whether a text is one group of an IPv6 address. -/
def isGroup (cs : List Char) : Bool := !cs.isEmpty && cs.length ≤ 4 && cs.all isHexDigit

/-- The groups of an IPv6 address, a dotted ending being worth two of them. -/
def groups? (cs : List Char) : Option (List (List Char)) :=
  let parts := splitAt ':' cs
  let last := parts.getLast?.getD []
  if parts.length < 3 then none
  else if last.contains '.' then
    if isDotted last then some (parts.dropLast ++ [['0'], ['0']]) else none
  else some parts

/-- Whether eight groups are written out, or an empty one inside stands for the missing ones. An
empty group at an end must be part of the gap. -/
def validGroups (parts : List (List Char)) : Bool :=
  let inner := (parts.drop 1).dropLast
  if parts.length > 9 then false
  else match inner.findIdx? List.isEmpty with
    | none => parts.length == 8 && parts.all isGroup
    | some i =>
      let before := parts.take (i + 1)
      let after := parts.drop (i + 2)
      let open? (side : List (List Char)) := if side == [[]] then [] else side
      let groups := open? before ++ open? after
      groups.all isGroup && groups.length < 8

/-- Whether a text is an IPv6 address, with an optional zone after a percent sign. -/
def isIPv6 (cs : List Char) : Bool :=
  let address := cs.takeWhile (· != '%')
  let zone := cs.dropWhile (· != '%')
  !cs.contains '/' &&
    (zone.isEmpty || (zone.length > 1 && !(zone.drop 1).contains '%')) &&
    (match groups? address with
      | some parts => validGroups parts
      | none => false)

/-- Whether a text is an address of a future version: `v`, a hexadecimal version, a dot, text. -/
def isFutureAddress (cs : List Char) : Bool :=
  let version := (cs.drop 1).takeWhile isHexDigit
  match (cs.drop 1).dropWhile isHexDigit with
  | '.' :: rest => cs.head? == some 'v' && !version.isEmpty && !rest.isEmpty
  | _ => false

/-- The host and its port, without the user in front of the last `@`. -/
def afterUser (location : List Char) : List Char := (location.reverse.takeWhile (· != '@')).reverse

/-- The host of a network location. A host in brackets has nothing before them, and after them
nothing but a port; another one ends at the first colon. -/
def host? (location : List Char) : Option (List Char) :=
  let host := afterUser location
  if host.contains '[' then
    let port := (host.dropWhile (· != ']')).drop 1
    if host.head? == some '[' && (port.isEmpty || port.head? == some ':') then
      some ((host.drop 1).takeWhile (· != ']'))
    else none
  else some (host.takeWhile (· != ':'))

/-- Whether a text is an address of the kind that is written in brackets. -/
def isBracketed (host : List Char) : Bool :=
  if host.head? == some 'v' then isFutureAddress host else isIPv6 host

/-- Whether a network location with brackets anywhere has a host of the kind that needs them. -/
def validBrackets (location : List Char) : Bool :=
  match location.contains '[', location.contains ']' with
  | false, false => true
  | true, true => (host? location).any isBracketed
  | _, _ => false

/-- Whether a character may stand in a scheme. -/
def isSchemeChar (c : Char) : Bool := c.isAlphanum || c == '+' || c == '-' || c == '.'

/-- Whether a text is a scheme. -/
def isScheme (cs : List Char) : Bool :=
  (match cs with
    | c :: _ => c.isAlpha
    | [] => false) && cs.all isSchemeChar

/-- Whether a network location is present and well formed. -/
def isLocation (location : List Char) : Bool :=
  !location.isEmpty && validBrackets location && !location.any Text.hidesDelimiter

end Url

/-- Whether a text is an absolute address. Control characters in front of it do not count. -/
def isAbsoluteUrl (s : String) : Bool :=
  let cs := s.toList
  if cs.any Text.isBlank then false
  else
    let cs := cs.dropWhile fun c => c.toNat ≤ 0x20
    let scheme := cs.takeWhile (· != ':')
    match cs.dropWhile (· != ':') with
    | ':' :: '/' :: '/' :: rest =>
      Url.isScheme scheme &&
        Url.isLocation (rest.takeWhile fun c => c != '/' && c != '?' && c != '#')
    | _ => false

end SpecMatch
