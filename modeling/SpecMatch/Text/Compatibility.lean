/-!
# Characters that stand for a delimiter

Some characters are compatible with a text that holds a delimiter of network addresses, such as
the one-character form of `a/c`. In an address they would change its meaning once it is
normalised.
-/

namespace SpecMatch.Text

/-- The characters above ASCII whose compatibility form holds one of `/`, `?`, `#`, `@`, `:`. -/
def delimiterLookalikes : List Nat :=
  [0x2047, 0x2048, 0x2049, 0x2100, 0x2101, 0x2105, 0x2106, 0x2a74, 0xfe13, 0xfe16, 0xfe55, 0xfe56,
    0xfe5f, 0xfe6b, 0xff03, 0xff0f, 0xff1a, 0xff1f, 0xff20]

/-- Whether normalising a character would bring a delimiter into an address. -/
def hidesDelimiter (c : Char) : Bool := delimiterLookalikes.contains c.toNat

end SpecMatch.Text
