/-!
# Reading positions in a YAML text

A cursor is the text still to be read together with where it stands: how many characters were
read, on which line, and in which column. Layout in YAML is a matter of columns. The marks that
end a line are those of YAML 1.1, and a byte order mark takes up no column.
-/

namespace ColorCensus.Yaml

/-- Why a text is no YAML document that can be loaded. -/
inductive Problem where
  | unprintable
  | directive
  | strayCharacter (c : Char)
  | unclosedQuote
  | separatorInQuote
  | badEscape
  | badBlockHeader
  | badAnchor
  | badTag
  | keyWithoutColon
  | misplacedEntry
  | misplacedKey
  | misplacedValue
  | unmatchedBracket
  | unexpectedToken
  | secondDocument
  | repeatedAnchor
  | unknownAlias
  | unknownTag
  | unusableKey
  | unusableMerge
  | stuck
deriving DecidableEq, Repr

def Problem.message : Problem → String
  | unprintable => "special characters are not allowed"
  | directive => "directives are not supported"
  | strayCharacter c => "no token starts with '" ++ c.toString ++ "'"
  | unclosedQuote => "a quote is never closed"
  | separatorInQuote => "a document separator stands inside quotes"
  | badEscape => "an escape is not known"
  | badBlockHeader => "the header of a block scalar is malformed"
  | badAnchor => "the name of an anchor or alias is malformed"
  | badTag => "a tag is malformed"
  | keyWithoutColon => "a key has no ':' after it"
  | misplacedEntry => "a sequence entry is not allowed here"
  | misplacedKey => "a mapping key is not allowed here"
  | misplacedValue => "a mapping value is not allowed here"
  | unmatchedBracket => "a bracket closes nothing"
  | unexpectedToken => "the document is malformed"
  | secondDocument => "more than one document"
  | repeatedAnchor => "an anchor is defined twice"
  | unknownAlias => "an alias has no anchor"
  | unknownTag => "a tag is not known"
  | unusableKey => "a collection cannot be a key"
  | unusableMerge => "only mappings can be merged"
  | stuck => "no progress"

def isBreak (c : Char) : Bool :=
  c == '\n' || c == '\r' || c == '\x85' || c == '\u2028' || c == '\u2029'

/-- A character that separates tokens. -/
def isGap (c : Char) : Bool := c == ' ' || c == '\t' || isBreak c

/-- The text at hand starts with a character of a class or has ended. -/
def endsOr (p : Char → Bool) (cs : List Char) : Bool := cs.head?.all p

/-- A line break at the start of a text, as it is kept, and what follows it. -/
def takeBreak? : List Char → Option (Char × List Char)
  | '\r' :: '\n' :: rest => some ('\n', rest)
  | c :: rest =>
      if c == '\n' || c == '\r' || c == '\x85' then some ('\n', rest)
      else if c == '\u2028' || c == '\u2029' then some (c, rest)
      else none
  | [] => none

/-- `---` or `...` at the start of a text, standing on its own. -/
def isSeparator : List Char → Bool
  | '-' :: '-' :: '-' :: rest => endsOr isGap rest
  | '.' :: '.' :: '.' :: rest => endsOr isGap rest
  | _ => false

/-- A character that a YAML text may hold. -/
def isPrintable (c : Char) : Bool :=
  let n := c.toNat
  n == 0x9 || n == 0xA || n == 0xD || (0x20 ≤ n && n ≤ 0x7E) || n == 0x85 ||
    (0xA0 ≤ n && n ≤ 0xD7FF) || (0xE000 ≤ n && n ≤ 0xFFFD) || 0x10000 ≤ n

structure Cursor where
  rest : List Char
  index : Nat := 0
  line : Nat := 0
  column : Nat := 0

namespace Cursor

/-- One character on. -/
def advance (c : Cursor) : Cursor :=
  match c.rest with
  | [] => c
  | x :: rest =>
      if isBreak x && !(x == '\r' && rest.head? == some '\n') then
        ⟨rest, c.index + 1, c.line + 1, 0⟩
      else ⟨rest, c.index + 1, c.line, if x == '\uFEFF' then c.column else c.column + 1⟩

def skip : Nat → Cursor → Cursor
  | 0, c => c
  | n + 1, c => skip n c.advance

/-- On to where only `rest` is left. -/
def upTo (c : Cursor) (rest : List Char) : Cursor := c.skip (c.rest.length - rest.length)

end Cursor

/-- Repeats a step over a text for as long as it asks for more and leaves less text each time. -/
def iterate {σ : Type} (step : σ → List Char → Except Problem (Option (σ × List Char))) (s : σ)
    (cs : List Char) : Except Problem (σ × List Char) :=
  match step s cs with
  | .error e => .error e
  | .ok none => .ok (s, cs)
  | .ok (some (s', rest)) =>
      if rest.length < cs.length then iterate step s' rest else .ok (s', rest)
termination_by cs.length

end ColorCensus.Yaml
