import ColorCensus.Text.Word

/-!
# Quoting

How a text is shown where it has to stand out: in single quotes, or in double ones if the text
holds a single quote and no double one, with escapes for what would not be seen. Bytes are shown in
the same way, behind a letter.
-/

namespace ColorCensus.Text

/-- The separators, control and format characters from U+007F on, and those of private use. -/
def hiddenRanges : List (Nat × Nat) :=
  [(0x7F, 0xA0), (0xAD, 0xAD), (0x600, 0x605), (0x61C, 0x61C), (0x6DD, 0x6DD), (0x70F, 0x70F),
   (0x890, 0x891), (0x8E2, 0x8E2), (0x1680, 0x1680), (0x180E, 0x180E), (0x2000, 0x200F),
   (0x2028, 0x202F), (0x205F, 0x2064), (0x2066, 0x206F), (0x3000, 0x3000), (0xD800, 0xF8FF),
   (0xFEFF, 0xFEFF), (0xFFF9, 0xFFFB), (0x110BD, 0x110BD), (0x110CD, 0x110CD),
   (0x13430, 0x13438), (0x1BCA0, 0x1BCA3), (0x1D173, 0x1D17A), (0xE0001, 0xE0001),
   (0xE0020, 0xE007F), (0xF0000, 0xFFFFD), (0x100000, 0x10FFFD)]

/-- A code in hexadecimal digits, at least as many as said. -/
def hexCode (width n : Nat) : List Char :=
  let ds := Nat.toDigits 16 n
  List.replicate (width - ds.length) '0' ++ ds

def shownChar (quote c : Char) : List Char :=
  let n := c.toNat
  if c == quote || c == '\\' then ['\\', c]
  else if c == '\n' then ['\\', 'n']
  else if c == '\r' then ['\\', 'r']
  else if c == '\t' then ['\\', 't']
  else if n < 0x20 || inRanges hiddenRanges n then
    if n < 0x100 then '\\' :: 'x' :: hexCode 2 n
    else if n < 0x10000 then '\\' :: 'u' :: hexCode 4 n
    else '\\' :: 'U' :: hexCode 8 n
  else [c]

/-- The quotes for a text. -/
def quoteFor (cs : List Char) : Char := if cs.contains '\'' && !cs.contains '"' then '"' else '\''

def quoted (cs : List Char) : List Char :=
  let quote := quoteFor cs
  quote :: cs.flatMap (shownChar quote) ++ [quote]

/-- Bytes, with those of ASCII as the characters that they are. -/
def quotedBytes (bytes : List UInt8) : List Char :=
  let quote := quoteFor (bytes.map fun b => Char.ofNat b.toNat)
  let shown (b : UInt8) : List Char :=
    if 0x7F ≤ b.toNat then '\\' :: 'x' :: hexCode 2 b.toNat
    else shownChar quote (Char.ofNat b.toNat)
  'b' :: quote :: bytes.flatMap shown ++ [quote]

end ColorCensus.Text
