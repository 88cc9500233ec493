import ColorCensus.Text.Lines
import ColorCensus.Theme.Basic

/-!
# The variable table

One table serves a whole pass: for every name the definition that counts. Under `first` the
earliest definition stays, under `last` a later one takes its place; either way a name keeps
the place in the table that its first definition got.
-/

namespace ColorCensus.Variable

/-- A color definition with the file and the theme it stands in. -/
structure Definition where
  name : String
  value : String
  file : String
  theme : Theme := .base
  range : Option Text.Range := none
deriving DecidableEq, Repr

inductive Precedence where
  | first
  | last
deriving DecidableEq, Repr

def Precedence.ofName? (name : String) : Option Precedence :=
  if name = "first" then some .first else if name = "last" then some .last else none

structure Table where
  precedence : Precedence
  definitions : List Definition
deriving Repr

namespace Table

def empty (precedence : Precedence) : Table := ⟨precedence, []⟩

def resolve? (t : Table) (name : String) : Option Definition :=
  t.definitions.find? (·.name == name)

def contains (t : Table) (name : String) : Bool := (t.resolve? name).isSome

def names (t : Table) : List String := t.definitions.map (·.name)

def size (t : Table) : Nat := t.definitions.length

/-- The definition that stays in the table instead of a new one. -/
def keeps? (t : Table) (d : Definition) : Option Definition :=
  match t.precedence with
  | .first => t.resolve? d.name
  | .last => none

def define (t : Table) (d : Definition) : Table :=
  match t.keeps? d, t.contains d.name with
  | some _, _ => t
  | none, true =>
      { t with definitions := t.definitions.map fun e => if e.name == d.name then d else e }
  | none, false => { t with definitions := t.definitions ++ [d] }

def defineAll (t : Table) (ds : List Definition) : Table := ds.foldl define t

end Table

end ColorCensus.Variable
