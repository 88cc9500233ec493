import ColorCensus.Number.Integer
import ColorCensus.Text.Word
import ColorCensus.Yaml.Cursor

/-!
# Scalars in a YAML text

The four ways to write a scalar: plain, in single or double quotes, and as a literal or folded
block. Each reader takes the text at the scalar and answers its content and what is left. A
single line break inside a scalar folds into a blank, further ones stay; in a literal block all
of them stay.
-/

namespace ColorCensus.Yaml

open Text

/-- The content of a run of line breaks, the first one given. -/
def folded (first : Char) (more : List Char) : List Char :=
  if first != '\n' then first :: more else if more.isEmpty then [' '] else more

/-! ## Quoted scalars -/

/-- Line breaks with blanks around them; a document separator may not be among them. -/
def takeBreaks (cs : List Char) : Except Problem (List Char × List Char) :=
  iterate (fun breaks cs =>
    if isSeparator cs then .error .separatorInQuote
    else
      let cs' := cs.dropWhile fun c => c == ' ' || c == '\t'
      match takeBreak? cs' with
      | some (b, rest) => .ok (some (breaks ++ [b], rest))
      | none => .ok (if cs'.length < cs.length then some (breaks, cs') else none)) [] cs

def escapes : List (Char × Char) :=
  [('0', '\x00'), ('a', '\x07'), ('b', '\x08'), ('t', '\t'), ('\t', '\t'), ('n', '\n'),
   ('v', '\x0b'), ('f', '\x0c'), ('r', '\r'), ('e', '\x1b'), (' ', ' '), ('"', '"'),
   ('\\', '\\'), ('/', '/'),
   ('N', '\x85'), ('_', '\u00A0'), ('L', '\u2028'), ('P', '\u2029')]

def hexValue? (c : Char) : Option Nat :=
  if isAsciiDigit c then some (c.toNat - '0'.toNat)
  else if 'a' ≤ c && c ≤ 'f' then some (c.toNat - 'a'.toNat + 10)
  else if 'A' ≤ c && c ≤ 'F' then some (c.toNat - 'A'.toNat + 10)
  else none

/-- A number of exactly `count` hexadecimal digits. -/
def takeCode? (count : Nat) (cs : List Char) : Option (Nat × List Char) :=
  if cs.length < count then none
  else ((cs.take count).mapM hexValue?).map fun ds => (Number.ofDigits 16 ds, cs.drop count)

/-- The character of a code; two UTF-16 units in a row make one character. -/
def takeCoded? (count : Nat) (cs : List Char) : Option (Char × List Char) := do
  let (code, rest) ← takeCode? count cs
  if 0xD800 ≤ code ∧ code < 0xDC00 then
    match rest with
    | '\\' :: 'u' :: more =>
        match takeCode? 4 more with
        | some (low, rest') =>
            if 0xDC00 ≤ low ∧ low < 0xE000 then
              some (Char.ofNat (0x10000 + (code - 0xD800) * 0x400 + (low - 0xDC00)), rest')
            else some ('\uFFFD', rest)
        | none => some ('\uFFFD', rest)
    | _ => some ('\uFFFD', rest)
  else if 0xDC00 ≤ code ∧ code < 0xE000 then some ('\uFFFD', rest)
  else if code < 0x110000 then some (Char.ofNat code, rest)
  else none

/-- What a backslash stands for, together with what follows it. -/
def takeEscape (cs : List Char) : Except Problem (List Char × List Char) :=
  match cs with
  | [] => .error .badEscape
  | c :: rest =>
      match escapes.lookup c with
      | some x => .ok ([x], rest)
      | none =>
          if isBreak c then
            match takeBreak? cs with
            | some (_, rest) => takeBreaks rest
            | none => .error .badEscape
          else
            let count := if c == 'x' then 2 else if c == 'u' then 4 else if c == 'U' then 8 else 0
            match count, takeCoded? count rest with
            | _ + 1, some (x, rest) => .ok ([x], rest)
            | _, _ => .error .badEscape

/-- One step inside quotes; none at the closing quote. -/
def quotedStep (quote : Char) (content : List Char) (cs : List Char) :
    Except Problem (Option (List Char × List Char)) :=
  match cs with
  | [] => .error .unclosedQuote
  | c :: rest =>
      if c == quote then
        if quote == '\'' && rest.head? == some '\'' then .ok (some (content ++ ['\''], rest.tail))
        else .ok none
      else if c == '\\' && quote == '"' then
        (takeEscape rest).map fun (x, rest) => some (content ++ x, rest)
      else
        let blanks := cs.takeWhile fun c => c == ' ' || c == '\t'
        let after := cs.dropWhile fun c => c == ' ' || c == '\t'
        match takeBreak? after with
        | some (b, rest) =>
            (takeBreaks rest).map fun (more, rest) => some (content ++ folded b more, rest)
        | none =>
            if blanks.isEmpty then .ok (some (content ++ [c], rest))
            else .ok (some (content ++ blanks, after))

/-- The scalar that follows its opening quote. -/
def takeQuoted (quote : Char) (cs : List Char) : Except Problem (List Char × List Char) :=
  (iterate (quotedStep quote) [] cs).map fun (content, rest) => (content, rest.tail)

/-! ## Plain scalars -/

def isFlowMark (c : Char) : Bool := c == ',' || c == '[' || c == ']' || c == '{' || c == '}'

/-- The text up to a gap, a colon that ends a key, or a mark of a flow collection. -/
def plainRun (inFlow : Bool) : List Char → List Char
  | [] => []
  | c :: rest =>
      if isGap c then []
      else if c == ':' && endsOr (fun d => isGap d || (inFlow && isFlowMark d)) rest then []
      else if inFlow && (isFlowMark c || c == '?') then []
      else c :: plainRun inFlow rest

/-- The content of a plain scalar so far, the blanks that belong to it if it goes on, and
whether it has been left behind by a line break. -/
structure Plain where
  content : List Char := []
  blanks : List Char := []
  sawBreak : Bool := false
  ended : Bool := false

/-- Line breaks and blanks between two parts of a plain scalar; nothing at a separator. The
number says how many blanks stand at the start of the line reached. -/
def plainBreaks (cs : List Char) : Except Problem ((Option (List Char) × Nat) × List Char) :=
  if isSeparator cs then .ok ((none, 0), cs)
  else iterate (fun s cs =>
    match s.1, cs with
    | none, _ => .ok none
    | some breaks, cs =>
        match takeBreak? cs with
        | some (b, rest) =>
            .ok (some ((if isSeparator rest then none else some (breaks ++ [b]), 0), rest))
        | none =>
            match cs with
            | ' ' :: rest => .ok (some ((some breaks, s.2 + 1), rest))
            | _ => .ok none) (some [], 0) cs

/-- One part of a plain scalar and the blanks after it. Outside flow collections the next part
has to stand right of `indent`. -/
def plainStep (inFlow : Bool) (indent : Int) (s : Plain) (cs : List Char) :
    Except Problem (Option (Plain × List Char)) :=
  let run := plainRun inFlow cs
  if s.ended || run.isEmpty || cs.head? == some '#' then .ok none
  else
    let content := s.content ++ s.blanks ++ run
    let afterRun := cs.drop run.length
    let spaces := afterRun.takeWhile (· == ' ')
    let afterSpaces := afterRun.dropWhile (· == ' ')
    match takeBreak? afterSpaces with
    | none => .ok (some ({ content, blanks := spaces, ended := spaces.isEmpty }, afterSpaces))
    | some (b, rest) =>
        (plainBreaks rest).map fun ((more, column), rest) =>
          some ({ content
                  blanks := more.elim [] (folded b)
                  sawBreak := true
                  ended := more.isNone || (!inFlow && (column : Int) < indent) }, rest)

/-- A plain scalar: its content, whether a line break follows it, and what is left. -/
def takePlain (inFlow : Bool) (indent : Int) (cs : List Char) :
    Except Problem ((List Char × Bool) × List Char) :=
  (iterate (plainStep inFlow indent) {} cs).map fun (s, rest) => ((s.content, s.sawBreak), rest)

/-! ## Block scalars -/

/-- What happens to the line breaks at the end of a block. -/
inductive Chomping where
  | strip
  | clip
  | keep
deriving DecidableEq, Repr

def takeChomping? : List Char → Option (Chomping × List Char)
  | '+' :: rest => some (.keep, rest)
  | '-' :: rest => some (.strip, rest)
  | _ => none

def takeIncrement? : List Char → Option (Nat × List Char)
  | c :: rest => if isAsciiDigit c then some (c.toNat - '0'.toNat, rest) else none
  | [] => none

/-- The indicators of a block header, in either order. -/
def takeIndicators (cs : List Char) : (Chomping × Option Nat) × List Char :=
  match takeChomping? cs with
  | some (chomping, rest) =>
      match takeIncrement? rest with
      | some (n, rest) => ((chomping, some n), rest)
      | none => ((chomping, none), rest)
  | none =>
      match takeIncrement? cs with
      | some (n, rest) =>
          match takeChomping? rest with
          | some (chomping, rest) => ((chomping, some n), rest)
          | none => ((.clip, some n), rest)
      | none => ((.clip, none), cs)

/-- The header of a block, up to the start of its first line. -/
def takeHeader (cs : List Char) : Except Problem ((Chomping × Option Nat) × List Char) :=
  let (header, rest) := takeIndicators cs
  if header.2 == some 0 || !endsOr (fun c => c == ' ' || isBreak c) rest then .error .badBlockHeader
  else
    let rest := rest.dropWhile (· == ' ')
    let rest := if rest.head? == some '#' then rest.dropWhile (!isBreak ·) else rest
    match rest, takeBreak? rest with
    | [], _ => .ok (header, [])
    | _, some (_, rest) => .ok (header, rest)
    | _, none => .error .badBlockHeader

/-- At most `most` spaces: how many, and what follows. -/
def skipSpaces (most : Nat) (cs : List Char) : Nat × List Char :=
  let n := ((cs.take most).takeWhile (· == ' ')).length
  (n, cs.drop n)

/-- The empty lines at the start of a block: their breaks, the greatest and the last column. -/
def leadingLines (cs : List Char) : Except Problem ((List Char × Nat × Nat) × List Char) :=
  iterate (fun (breaks, greatest, column) cs =>
    match takeBreak? cs, cs with
    | some (b, rest), _ => .ok (some ((breaks ++ [b], greatest, 0), rest))
    | none, ' ' :: rest => .ok (some ((breaks, max greatest (column + 1), column + 1), rest))
    | none, _ => .ok none) ([], 0, 0) cs

/-- Empty lines inside a block of the given indentation: their breaks and the column reached. -/
def innerLines (indent : Nat) (column : Nat) (cs : List Char) :
    Except Problem ((List Char × Nat) × List Char) :=
  let (n, rest) := skipSpaces (indent - column) cs
  iterate (fun (breaks, _) cs =>
    match takeBreak? cs with
    | some (b, rest) =>
        let (n, rest) := skipSpaces indent rest
        .ok (some ((breaks ++ [b], n), rest))
    | none => .ok none) ([], column + n) rest

/-- A block as read so far: its content, the breaks after the last line, the break that ended
that line, and the column reached. -/
structure Block where
  content : List Char := []
  breaks : List Char
  lineBreak : List Char := []
  column : Nat

/-- One line of a block with the empty lines after it. -/
def blockStep (fold : Bool) (indent : Nat) (s : Block) (cs : List Char) :
    Except Problem (Option (Block × List Char)) :=
  if s.column != indent || cs.isEmpty then .ok none
  else
    let line := cs.takeWhile (!isBreak ·)
    let afterLine := cs.dropWhile (!isBreak ·)
    let (lineBreak, rest) := match takeBreak? afterLine with
      | some (b, rest) => ([b], rest)
      | none => ([], afterLine)
    let column := if lineBreak.isEmpty then indent + line.length else 0
    (innerLines indent column rest).map fun ((breaks, column), rest) =>
      let goesOn := column == indent && !rest.isEmpty
      let startsBlank (cs : List Char) : Bool := cs.head?.any fun c => c == ' ' || c == '\t'
      let joint :=
        if fold && lineBreak == ['\n'] && !startsBlank cs && !startsBlank rest then
          if breaks.isEmpty then [' '] else []
        else lineBreak
      some ({ content := s.content ++ s.breaks ++ line ++ (if goesOn then joint else [])
              breaks
              lineBreak
              column }, rest)

/-- The block scalar that follows its `|` or `>`, inside a block of indentation `outer`. -/
def takeBlock (fold : Bool) (outer : Int) (cs : List Char) :
    Except Problem (List Char × List Char) := do
  let ((chomping, increment), cs) ← takeHeader cs
  let least := (max 1 (outer + 1)).toNat
  let ((breaks, column, indent), cs) ← match increment with
    | none => do
        let ((breaks, greatest, column), cs) ← leadingLines cs
        pure ((breaks, column, max least greatest), cs)
    | some n => do
        let indent := least + n - 1
        let ((breaks, column), cs) ← innerLines indent 0 cs
        pure ((breaks, column, indent), cs)
  let (s, rest) ← iterate (blockStep fold indent) { breaks, column } cs
  let ending := match chomping with
    | .strip => []
    | .clip => s.lineBreak
    | .keep => s.lineBreak ++ s.breaks
  pure (s.content ++ ending, rest)

end ColorCensus.Yaml
