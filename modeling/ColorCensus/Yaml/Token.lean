import ColorCensus.Yaml.Scalar

/-!
# Tokens of a YAML text

The text as a sequence of tokens in which indentation has become explicit: a block collection is
opened where a deeper column begins and closed where a lower one is reached. A key without a
mark of its own is recognised only at the colon after it, so the places where one could have
started are kept, one for each level of flow collections, and its token is put in front of it
then. Such a key has to stay on one line and within 1024 characters.
-/

namespace ColorCensus.Yaml

open Text

inductive Token where
  | documentStart
  | documentEnd
  | blockSequence
  | blockMapping
  | blockEnd
  | flowSequence
  | flowSequenceEnd
  | flowMapping
  | flowMappingEnd
  | entry
  | comma
  | key
  | value
  | alias (name : List Char)
  | anchor (name : List Char)
  /-- A tag in full, or with a handle that stands for its beginning. -/
  | tag (handle : Option (List Char)) (suffix : List Char)
  | scalar (content : List Char) (plain : Bool)
deriving DecidableEq, Repr

/-- A place where a key may have started. -/
structure PossibleKey where
  /-- The number of tokens before it. -/
  tokens : Nat
  /-- A key has to be here: the place is the indentation of a block mapping. -/
  required : Bool
  place : Cursor

structure Lexer where
  cursor : Cursor
  tokens : Array Token := #[]
  /-- The flow collections that are open. -/
  flow : Nat := 0
  indent : Int := -1
  /-- The indentations around the present one, innermost first. -/
  outer : List Int := []
  /-- A key without a mark of its own may start here. -/
  allowKey : Bool := true
  /-- Possible keys by flow level. -/
  keys : List (Nat × PossibleKey) := []

namespace Lexer

def push (lx : Lexer) (t : Token) : Lexer := { lx with tokens := lx.tokens.push t }

def insert (lx : Lexer) (i : Nat) (t : Token) : Lexer :=
  { lx with tokens := lx.tokens.extract 0 i ++ #[t] ++ lx.tokens.extract i lx.tokens.size }

def skip (lx : Lexer) (n : Nat) : Lexer := { lx with cursor := lx.cursor.skip n }

def moveTo (lx : Lexer) (rest : List Char) : Lexer := { lx with cursor := lx.cursor.upTo rest }

/-! ## Indentation -/

/-- Closes the block collections that are indented deeper than a column. -/
def closeTo (column : Int) (indent : Int) (tokens : Array Token) : List Int → Lexer → Lexer
  | [], lx => { lx with indent, tokens, outer := [] }
  | i :: outer, lx =>
      if indent > column then closeTo column i (tokens.push .blockEnd) outer lx
      else { lx with indent, tokens, outer := i :: outer }

def unwind (lx : Lexer) (column : Int) : Lexer :=
  if lx.flow > 0 then lx else closeTo column lx.indent lx.tokens lx.outer lx

/-- Opens a block collection in front of token `i` if the column is a deeper one. -/
def indentTo (lx : Lexer) (column : Nat) (i : Nat) (opening : Token) : Lexer :=
  if lx.indent < column then
    { lx.insert i opening with indent := column, outer := lx.indent :: lx.outer }
  else lx

/-- Opens a block collection here if the column is a deeper one. -/
def openBlock (lx : Lexer) (opening : Token) : Lexer :=
  if lx.flow == 0 then lx.indentTo lx.cursor.column lx.tokens.size opening else lx

/-! ## Possible keys -/

def dropKey (lx : Lexer) : Except Problem Lexer :=
  match lx.keys.lookup lx.flow with
  | some k =>
      if k.required then .error .keyWithoutColon
      else .ok { lx with keys := lx.keys.filter (·.1 != lx.flow) }
  | none => .ok lx

/-- Forgets the possible keys that are out of reach by now. -/
def dropStale (lx : Lexer) : Except Problem Lexer :=
  let isStale (k : PossibleKey) : Bool :=
    k.place.line != lx.cursor.line || lx.cursor.index - k.place.index > 1024
  if lx.keys.any fun k => isStale k.2 && k.2.required then .error .keyWithoutColon
  else .ok { lx with keys := lx.keys.filter fun k => !isStale k.2 }

/-- Remembers that a key may start here. -/
def noteKey (lx : Lexer) : Except Problem Lexer :=
  if lx.allowKey then do
    let required := lx.flow == 0 && lx.indent == lx.cursor.column
    let lx ← lx.dropKey
    pure { lx with keys := (lx.flow, ⟨lx.tokens.size, required, lx.cursor⟩) :: lx.keys }
  else .ok lx

/-! ## From token to token -/

/-- Past blanks, comments and line ends. -/
def toNextToken (lx : Lexer) : Except Problem Lexer := do
  let hasMark := lx.cursor.index == 0 && lx.cursor.rest.head? == some '\uFEFF'
  let start := if hasMark then lx.skip 1 else lx
  let (sawBreak, rest) ← iterate (fun sawBreak cs =>
    match takeBreak? cs, cs with
    | some (_, rest), _ => .ok (some (true, rest))
    | none, ' ' :: rest => .ok (some (sawBreak, rest))
    | none, '#' :: rest => .ok (some (sawBreak, rest.dropWhile (!isBreak ·)))
    | none, _ => .ok none) false start.cursor.rest
  let lx := start.moveTo rest
  pure { lx with allowKey := lx.allowKey || (sawBreak && lx.flow == 0) }

/-- A token of fixed spelling, after which a key may start or not. -/
def mark (lx : Lexer) (t : Token) (length : Nat) (allowKey : Bool) : Lexer :=
  { (lx.push t).skip length with allowKey }

def separator (lx : Lexer) (t : Token) : Except Problem Lexer := do
  let lx ← (lx.unwind (-1)).dropKey
  pure (lx.mark t 3 false)

def openFlow (lx : Lexer) (t : Token) : Except Problem Lexer := do
  let lx ← lx.noteKey
  pure { lx.mark t 1 true with flow := lx.flow + 1 }

def closeFlow (lx : Lexer) (t : Token) : Except Problem Lexer := do
  let lx ← lx.dropKey
  match lx.flow with
  | 0 => .error .unmatchedBracket
  | flow + 1 => pure { lx.mark t 1 false with flow }

def comma (lx : Lexer) : Except Problem Lexer := do
  let lx ← lx.dropKey
  pure (lx.mark .comma 1 true)

def entry (lx : Lexer) : Except Problem Lexer :=
  if lx.flow == 0 && !lx.allowKey then .error .misplacedEntry
  else do
    let lx ← (lx.openBlock .blockSequence).dropKey
    pure (lx.mark .entry 1 true)

def key (lx : Lexer) : Except Problem Lexer :=
  if lx.flow == 0 && !lx.allowKey then .error .misplacedKey
  else do
    let lx ← (lx.openBlock .blockMapping).dropKey
    pure (lx.mark .key 1 (lx.flow == 0))

def value (lx : Lexer) : Except Problem Lexer :=
  match lx.keys.lookup lx.flow with
  | some k =>
      let lx := { lx with keys := lx.keys.filter (·.1 != lx.flow) }
      let lx := lx.insert k.tokens .key
      let lx := if lx.flow == 0 then lx.indentTo k.place.column k.tokens .blockMapping else lx
      .ok (lx.mark .value 1 false)
  | none =>
      if lx.flow == 0 && !lx.allowKey then .error .misplacedValue
      else do
        let lx ← (lx.openBlock .blockMapping).dropKey
        pure (lx.mark .value 1 (lx.flow == 0))

def isAnchorChar (c : Char) : Bool := isAsciiAlnum c || c == '-' || c == '_'

/-- The marks that may stand right after the name of an anchor. -/
def afterAnchor : List Char := ['?', ':', ',', ']', '}', '%', '@', '\x60']

/-- The name of an anchor or alias, after its mark. -/
def takeAnchor (cs : List Char) : Except Problem (List Char × List Char) :=
  let name := cs.takeWhile isAnchorChar
  let rest := cs.dropWhile isAnchorChar
  if name.isEmpty || !endsOr (fun c => isGap c || afterAnchor.contains c) rest then
    .error .badAnchor
  else .ok (name, rest)

/-- The marks that a tag may hold as they are. -/
def tagMarks : List Char :=
  ['-', ';', '/', '?', ':', '@', '&', '=', '+', '$', ',', '_', '.', '!', '~', '*', '\'', '(', ')',
   '[', ']']

def isTagChar (c : Char) : Bool := isAsciiAlnum c || tagMarks.contains c

/-- The bytes of a tag, where `%` and two hexadecimal digits spell one. -/
def takeTagText (cs : List Char) : Except Problem (List Char × List Char) := do
  let (text, rest) ← iterate (fun text cs =>
    match cs with
    | '%' :: rest =>
        match takeCode? 2 rest with
        | some (code, rest) => .ok (some (text ++ [Char.ofNat code], rest))
        | none => .error .badTag
    | c :: rest => .ok (if isTagChar c then some (text ++ [c], rest) else none)
    | [] => .ok none) [] cs
  if text.isEmpty then .error .badTag else pure (text, rest)

/-- A tag, after its first `!`. -/
def takeTag (cs : List Char) : Except Problem (Token × List Char) := do
  let (tag, rest) ← match cs with
    | '<' :: rest => do
        let (text, rest) ← takeTagText rest
        match rest with
        | '>' :: rest => pure (Token.tag none text, rest)
        | _ => .error .badTag
    | _ =>
        if endsOr isGap cs then pure (Token.tag none ['!'], cs)
        else
          let word := cs.takeWhile fun c => !(c == ' ' || isBreak c)
          if word.contains '!' then do
            let name := cs.takeWhile isAnchorChar
            match cs.dropWhile isAnchorChar with
            | '!' :: rest => do
                let (text, rest) ← takeTagText rest
                pure (Token.tag (some ('!' :: name ++ ['!'])) text, rest)
            | _ => .error .badTag
          else do
            let (text, rest) ← takeTagText cs
            pure (Token.tag (some ['!']) text, rest)
  if endsOr (fun c => c == ' ' || isBreak c) rest then pure (tag, rest) else .error .badTag

/-- A token with content, in front of which a key may start. -/
def content (lx : Lexer) (read : List Char → Except Problem (Token × List Char)) :
    Except Problem Lexer := do
  let lx ← lx.noteKey
  let (t, rest) ← read lx.cursor.rest.tail
  pure { (lx.push t).moveTo rest with allowKey := false }

def quoted (lx : Lexer) (quote : Char) : Except Problem Lexer :=
  lx.content fun cs => (takeQuoted quote cs).map fun (text, rest) => (.scalar text false, rest)

def block (lx : Lexer) (fold : Bool) : Except Problem Lexer := do
  let lx ← lx.dropKey
  let (text, rest) ← takeBlock fold lx.indent lx.cursor.rest.tail
  pure { (lx.push (.scalar text false)).moveTo rest with allowKey := true }

def plain (lx : Lexer) : Except Problem Lexer := do
  let lx ← lx.noteKey
  let ((text, sawBreak), rest) ← takePlain (lx.flow > 0) (lx.indent + 1) lx.cursor.rest
  pure { (lx.push (.scalar text true)).moveTo rest with allowKey := sawBreak }

/-- The marks that mean something at the start of a token. -/
def indicators : List Char :=
  ['-', '?', ':', ',', '[', ']', '{', '}', '#', '&', '*', '!', '|', '>', '\'', '"', '%', '@',
   '\x60']

/-- Whether a plain scalar may start with `c` before the given text. -/
def startsPlain (inFlow : Bool) (c : Char) (rest : List Char) : Bool :=
  !(isGap c || indicators.contains c) ||
    (!endsOr isGap rest && (c == '-' || (!inFlow && (c == '?' || c == ':'))))

/-- The token that starts with `c` before the given text. -/
def next (lx : Lexer) (c : Char) (rest : List Char) : Except Problem Lexer :=
  let inFlow := lx.flow > 0
  if lx.cursor.column == 0 && c == '%' then .error .directive
  else if lx.cursor.column == 0 && isSeparator (c :: rest) then
    lx.separator (if c == '-' then .documentStart else .documentEnd)
  else if c == '[' then lx.openFlow .flowSequence
  else if c == '{' then lx.openFlow .flowMapping
  else if c == ']' then lx.closeFlow .flowSequenceEnd
  else if c == '}' then lx.closeFlow .flowMappingEnd
  else if c == ',' then lx.comma
  else if c == '-' && endsOr isGap rest then lx.entry
  else if c == '?' && (inFlow || endsOr isGap rest) then lx.key
  else if c == ':' && (inFlow || endsOr isGap rest) then lx.value
  else if c == '*' then lx.content fun cs => (takeAnchor cs).map fun (n, rest) => (.alias n, rest)
  else if c == '&' then lx.content fun cs => (takeAnchor cs).map fun (n, rest) => (.anchor n, rest)
  else if c == '!' then lx.content takeTag
  else if c == '|' && !inFlow then lx.block false
  else if c == '>' && !inFlow then lx.block true
  else if c == '\'' || c == '"' then lx.quoted c
  else if startsPlain inFlow c rest then lx.plain
  else .error (.strayCharacter c)

/-- All tokens from here to the end of the text. -/
def run (lx : Lexer) : Except Problem (Array Token) :=
  match (do (← lx.toNextToken).dropStale : Except Problem Lexer) with
  | .error e => .error e
  | .ok here =>
      let here := here.unwind here.cursor.column
      match here.cursor.rest with
      | [] => (here.unwind (-1)).dropKey.map (·.tokens)
      | c :: rest =>
          match here.next c rest with
          | .error e => .error e
          | .ok later =>
              if later.cursor.rest.length < lx.cursor.rest.length then later.run else .error .stuck
termination_by lx.cursor.rest.length

end Lexer

/-- The tokens of a text. -/
def Token.ofText (cs : List Char) : Except Problem (List Token) :=
  if cs.all isPrintable then (Lexer.run { cursor := { rest := cs } }).map Array.toList
  else .error .unprintable

end ColorCensus.Yaml
