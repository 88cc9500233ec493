import ColorCensus.Color.NormalForm
import ColorCensus.Distinct
import ColorCensus.Occurrence.Basic

/-!
# Entries

Occurrences that are the same color make one entry. A literal is known by the normal form of its
value; a variable by its name, value and theme, so that its dark and light definitions stay
apart. Entries of one file are kept apart from those of another if asked for.
-/

namespace ColorCensus

/-- What makes two occurrences one color. -/
inductive Entry.Key where
  | var (file : Option String) (name value theme : String)
  | literal (file : Option String) (value : String)
deriving DecidableEq, Repr

namespace Entry.Key

/-- The key of an occurrence; an absent name or theme counts as empty. -/
def ofOccurrence (perFile : Bool) (o : Occurrence) : Key :=
  let file := if perFile then some o.file else none
  let value := String.ofList (Color.normalForm o.value.toList)
  if o.isVariable then var file (o.name.getD "") value ((o.theme.map Theme.label).getD "")
  else literal file value

def parts : Key → List String
  | var file name value theme => "variable" :: file.toList ++ [name, value, theme]
  | literal file value => "literal" :: file.toList ++ [value]

end Entry.Key

/-- A color with all its occurrences; it is named as its first occurrence is. -/
structure Entry where
  kind : Occurrence.Kind
  value : String
  key : Entry.Key
  name : Option String
  theme : Option Theme
  occurrences : List Occurrence

namespace Entry

def definitions (e : Entry) : List Occurrence := e.occurrences.filter (·.isDefinition)

def usages (e : Entry) : List Occurrence := e.occurrences.filter (!·.isDefinition)

/-- The least line among occurrences; 0 if there is none. -/
def firstLine (os : List Occurrence) : Nat := (os.map (·.range.line)).min?.getD 0

/-- The files that an entry occurs in, in order of appearance. -/
def files (e : Entry) : List String := distinct (e.occurrences.map (·.file))

def inFile (e : Entry) (file : String) : List Occurrence := e.occurrences.filter (·.file = file)

/-- The entry of the occurrences with the key of the first one. -/
def ofFirst (keyed : List (Key × Occurrence)) (first : Key × Occurrence) : Entry where
  kind := first.2.kind
  value := first.2.value
  key := first.1
  name := first.2.name
  theme := if first.2.isVariable then first.2.theme else none
  occurrences := (keyed.filter fun k => k.1 = first.1).map (·.2)

/-- The entries of a list of occurrences, in order of their first ones. -/
def ofOccurrences (perFile : Bool) (os : List Occurrence) : List Entry :=
  let keyed := os.map fun o => (Key.ofOccurrence perFile o, o)
  (distinctBy (·.1) keyed).map (ofFirst keyed)

end Entry

end ColorCensus
