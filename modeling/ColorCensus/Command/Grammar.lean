import ColorCensus.Text.Digit
import ColorCensus.Text.Quote

/-!
# The grammar of a command line

A grammar knows a program by its flags and by whether it takes an operand. A flag may be
shortened as long as only one begins like that; its value follows it, or stands in the same
argument after `=`. Flags of a single letter take no values and may be written together. After
`--` there are no flags any more, and a negative number is never one.

Reading goes from left to right and hands on what it finds one by one, so the first thing that
is wrong is the one that is told. Arguments that have no place in the grammar are set aside.
-/

namespace ColorCensus.Command

open Text

inductive Flag where
  | help
  | verbose
  | quiet
  | workspace
  | maxFiles
  | format
  | interval
  | iterations
  | host
  | portNumber
deriving DecidableEq, Repr

namespace Flag

def spellings : Flag → List String
  | help => ["-h", "--help"]
  | verbose => ["-v", "--verbose"]
  | quiet => ["-q", "--quiet"]
  | workspace => ["--workspace"]
  | maxFiles => ["--max-files"]
  | format => ["--format"]
  | interval => ["--interval"]
  | iterations => ["--iterations"]
  | host => ["--host"]
  | portNumber => ["--port"]

def takesValue : Flag → Bool
  | help | verbose | quiet => false
  | _ => true

def name (f : Flag) : String := "/".intercalate f.spellings

end Flag

/-- Why arguments are not followed. -/
inductive Stop where
  /-- Help was asked for. -/
  | help (usage : String)
  | misuse (program message : String)
deriving DecidableEq, Repr

/-- The operands that a program takes. -/
inductive Operands where
  | none
  | one
  /-- One operand to which all arguments after it belong, whatever they look like. -/
  | command
deriving DecidableEq, Repr

structure Grammar where
  program : String
  flags : List Flag
  operands : Operands

/-- What a reading of arguments finds, one by one. -/
inductive Found where
  | switch (flag : Flag)
  | value (flag : Flag) (text : List Char)
  /-- The operand, and the arguments that belong to it. -/
  | operand (text : List Char) (more : List (List Char))
deriving DecidableEq, Repr

/-- A flag in an argument. -/
structure Use where
  flag : Flag
  /-- It is written as a single letter. -/
  isLetter : Bool
  /-- More text in the argument, and whether an `=` stands in front of it. -/
  attached : Option (Bool × List Char) := none

/-- What an argument is by its looks. -/
inductive Piece where
  | operand
  /-- The argument after which there are no flags. -/
  | separator
  /-- A flag, or something that looks like one. -/
  | flag (use : Option Use)

namespace Grammar

/-- The grammar in one line. -/
def usage (g : Grammar) : String :=
  let flag (f : Flag) : String := " [" ++ f.name ++ (if f.takesValue then " VALUE]" else "]")
  let operands := match g.operands with
    | .none => ""
    | .one => " path"
    | .command => " command ..."
  "usage: " ++ g.program ++ String.join (g.flags.map flag) ++ operands

def misuse (g : Grammar) (message : String) : Stop := .misuse g.program message

def misuseOf (g : Grammar) (name message : String) : Stop :=
  g.misuse ("argument " ++ name ++ ": " ++ message)

def ignored (g : Grammar) (f : Flag) (text : List Char) : Stop :=
  g.misuseOf f.name ("ignored explicit argument " ++ String.ofList (quoted text))

/-! ## Looks -/

/-- All spellings of flags, in the order in which they are told. -/
def spellings (g : Grammar) : List (Flag × List Char) :=
  g.flags.flatMap fun f => f.spellings.map (f, ·.toList)

def flag? (g : Grammar) (spelling : List Char) : Option Flag :=
  (g.spellings.find? (·.2 == spelling)).map (·.1)

/-- The text before the first `=`, and the text after it if there is one. -/
def cutAtEquals (cs : List Char) : List Char × Option (List Char) :=
  let front := cs.takeWhile (· != '=')
  (front, (cs.drop front.length).head?.map fun _ => cs.drop (front.length + 1))

def isLetter (spelling : List Char) : Bool := spelling.length == 2

/-- The flags that an argument may be short for, each with its spelling in full. -/
def candidates (g : Grammar) (arg : List Char) : List (Use × List Char) :=
  match arg with
  | '-' :: '-' :: _ =>
      let (front, value) := cutAtEquals arg
      (g.spellings.filter fun s => front.isPrefixOf s.2).map fun s =>
        (⟨s.1, false, value.map (true, ·)⟩, s.2)
  | dash :: letter :: rest =>
      (g.spellings.filter fun s => s.2 == [dash, letter]).map fun s =>
        (⟨s.1, true, some (false, rest)⟩, s.2)
  | _ => []

/-- Digits after a dash, perhaps with a point among them or in front of them. -/
def isNegativeNumber : List Char → Bool
  | '-' :: cs =>
      let cs := if cs.getLast? == some '\n' then cs.dropLast else cs
      match cs.dropWhile isDigit with
      | [] => !cs.isEmpty
      | '.' :: part => !part.isEmpty && part.all isDigit
      | _ => false
  | _ => false

def looks (g : Grammar) (arg : List Char) : Except Stop Piece :=
  match arg with
  | '-' :: _ :: _ =>
      match g.flag? arg with
      | some f => .ok (.flag (some ⟨f, isLetter arg, none⟩))
      | none =>
          let (front, value) := cutAtEquals arg
          match value, g.flag? front with
          | some value, some f => .ok (.flag (some ⟨f, isLetter front, some (true, value)⟩))
          | _, _ =>
              match g.candidates arg with
              | [] =>
                  .ok (if isNegativeNumber arg || arg.contains ' ' then .operand else .flag none)
              | [(use, _)] => .ok (.flag (some use))
              | several => .error (g.misuse ("ambiguous option: " ++ String.ofList arg ++
                  " could match " ++ ", ".intercalate (several.map fun s => String.ofList s.2)))
  | _ => .ok .operand

def pieces (g : Grammar) : List (List Char) → Except Stop (List (List Char × Piece))
  | [] => .ok []
  | arg :: rest =>
      if arg == ['-', '-'] then .ok ((arg, .separator) :: rest.map (·, .operand))
      else do
        let piece ← g.looks arg
        let pieces ← g.pieces rest
        pure ((arg, piece) :: pieces)

/-! ## Flags and their values -/

/-- The letters written together with a first one, and what is left over of them. -/
def letters (g : Grammar) (first : Flag) : List Char → Except Stop (List Found × List (List Char))
  | [] => .ok ([.switch first], [])
  | c :: rest =>
      if c == '-' then .error (g.ignored first (c :: rest))
      else match g.flag? ['-', c], rest with
        | none, _ => .ok ([.switch first], ['-' :: c :: rest])
        | some f, '=' :: value => .error (g.ignored f value)
        | some f, _ => do
            let (found, left) ← g.letters f rest
            pure (.switch first :: found, left)

/-- What a flag means, given the arguments after it: what is found, what is left over of its own
argument, and the arguments that it leaves. -/
def readFlag (g : Grammar) (use : Use) (rest : List (List Char × Piece)) :
    Except Stop ((List Found × List (List Char)) × List (List Char × Piece)) :=
  if use.flag.takesValue then
    match use.attached, rest with
    | some (_, value), _ => .ok (([.value use.flag value], []), rest)
    | none, (arg, .operand) :: rest => .ok (([.value use.flag arg], []), rest)
    | none, _ => .error (g.misuseOf use.flag.name "expected one argument")
  else
    match use.attached with
    | none => .ok (([.switch use.flag], []), rest)
    | some (afterEquals, text) =>
        if use.isLetter && !afterEquals && !text.isEmpty then
          (g.letters use.flag text).map (·, rest)
        else .error (g.ignored use.flag text)

theorem readFlag_length {g : Grammar} {use : Use} {rest rest' : List (List Char × Piece)}
    {found : List Found × List (List Char)} (h : g.readFlag use rest = .ok (found, rest')) :
    rest'.length ≤ rest.length := by
  unfold readFlag at h
  split at h
  · split at h
    · cases h; exact Nat.le_refl _
    · cases h; simp
    · cases h
  · split at h
    · cases h; exact Nat.le_refl _
    · split at h
      · cases hl : g.letters use.flag _ with
        | error e => rw [hl] at h; cases h
        | ok r => rw [hl] at h; cases h; exact Nat.le_refl _
      · cases h

/-! ## Reading -/

def dropSeparator : List (List Char × Piece) → List (List Char × Piece)
  | (_, .separator) :: rest => rest
  | rest => rest

theorem dropSeparator_length (pieces : List (List Char × Piece)) :
    (dropSeparator pieces).length ≤ pieces.length := by
  unfold dropSeparator
  split
  · simp
  · exact Nat.le_refl _

/-- Reads pieces from left to right, where `due` are the operands still to come, and answers
what became of `s`, the operands missing at the end, and the arguments without a place. -/
def walk {σ : Type} (g : Grammar) (take : σ → Found → Except Stop σ) (due : Operands) (s : σ) :
    List (List Char × Piece) → Except Stop ((σ × Operands) × List (List Char))
  | [] => .ok ((s, due), [])
  | (arg, .flag none) :: rest => (walk g take due s rest).map fun (r, left) => (r, arg :: left)
  | (_, .flag (some use)) :: rest =>
      match h : g.readFlag use rest with
      | .error e => .error e
      | .ok ((found, left), rest') =>
          match found.foldlM take s with
          | .error e => .error e
          | .ok s =>
              have := readFlag_length h
              (walk g take due s rest').map fun (r, more) => (r, left ++ more)
  | (arg, .operand) :: rest =>
      match due with
      | .none => (walk g take due s rest).map fun (r, left) => (r, arg :: left)
      | .one =>
          match take s (.operand arg []) with
          | .error e => .error e
          | .ok s =>
              have := dropSeparator_length rest
              walk g take .none s (dropSeparator rest)
      | .command => (take s (.operand arg (rest.map (·.1)))).map fun s => ((s, .none), [])
  | (arg, .separator) :: rest =>
      match due, rest with
      | .one, (text, _) :: rest =>
          match take s (.operand text []) with
          | .error e => .error e
          | .ok s => walk g take .none s rest
      | .command, _ :: _ =>
          (take s (.operand arg (rest.map (·.1)))).map fun s => ((s, .none), [])
      | _, _ => .ok ((s, due), arg :: rest.map (·.1))
termination_by pieces => pieces.length

/-- Reads arguments; `take` says what becomes of `s` by each thing found. -/
def read {σ : Type} (g : Grammar) (take : σ → Found → Except Stop σ) (s : σ)
    (args : List (List Char)) : Except Stop ((σ × Operands) × List (List Char)) := do
  g.walk take g.operands s (← g.pieces args)

end Grammar

end ColorCensus.Command
