/-!
# JSON documents

Values and their written form: indented by two blanks, in ASCII, with empty arrays and objects
on one line. A character outside ASCII is written as its UTF-16 units.
-/

namespace ColorCensus

inductive Json where
  | null
  | bool (b : Bool)
  | int (i : Int)
  | str (s : String)
  | arr (items : List Json)
  | obj (fields : List (String × Json))

namespace Json

def ofOption {α : Type} (f : α → Json) : Option α → Json
  | none => null
  | some a => f a

/-- A UTF-16 unit as an escape. -/
def unitEscape (n : Nat) : List Char :=
  ['\\', 'u', Nat.digitChar (n / 0x1000 % 16), Nat.digitChar (n / 0x100 % 16),
    Nat.digitChar (n / 0x10 % 16), Nat.digitChar (n % 16)]

def escapeChar (c : Char) : List Char :=
  if c == '"' then ['\\', '"']
  else if c == '\\' then ['\\', '\\']
  else if c == '\n' then ['\\', 'n']
  else if c == '\r' then ['\\', 'r']
  else if c == '\t' then ['\\', 't']
  else if c == '\x08' then ['\\', 'b']
  else if c == '\x0c' then ['\\', 'f']
  else
    let n := c.toNat
    if n < 0x20 then unitEscape n
    else if n < 0x80 then [c]
    else if n < 0x10000 then unitEscape n
    else unitEscape (0xD800 + (n - 0x10000) / 0x400) ++ unitEscape (0xDC00 + (n - 0x10000) % 0x400)

def quote (s : String) : List Char := '"' :: s.toList.flatMap escapeChar ++ ['"']

/-- A new line, indented for the given depth. -/
def newline (depth : Nat) : List Char := '\n' :: List.replicate (2 * depth) ' '

mutual

/-- The written form of a value that stands `depth` levels deep. -/
def write (depth : Nat) : Json → List Char
  | null => "null".toList
  | bool true => "true".toList
  | bool false => "false".toList
  | int i => (toString i).toList
  | str s => quote s
  | arr [] => "[]".toList
  | arr (item :: items) =>
      '[' :: newline (depth + 1) ++ write (depth + 1) item ++ writeItems (depth + 1) items ++
        newline depth ++ [']']
  | obj [] => ['{', '}']
  | obj ((key, value) :: fields) =>
      '{' :: newline (depth + 1) ++ quote key ++ ':' :: ' ' :: write (depth + 1) value ++
        writeFields (depth + 1) fields ++ newline depth ++ ['}']

/-- The items after the first one. -/
def writeItems (depth : Nat) : List Json → List Char
  | [] => []
  | item :: items => ',' :: newline depth ++ write depth item ++ writeItems depth items

/-- The fields after the first one. -/
def writeFields (depth : Nat) : List (String × Json) → List Char
  | [] => []
  | (key, value) :: fields =>
      ',' :: newline depth ++ quote key ++ ':' :: ' ' :: write depth value ++
        writeFields depth fields

end

def render (j : Json) : String := String.ofList (write 0 j)

end Json

end ColorCensus
