import ColorCensus.Json
import ColorCensus.Text.Lines
import ColorCensus.Theme.Basic

/-!
# Occurrences

One appearance of a color in a file: where it is, what it is, and how it is used there.
-/

namespace ColorCensus

/-- What appears: a custom property, a literal, or something that another source of occurrences
has a word of its own for. -/
inductive Occurrence.Kind where
  | var
  | literal
  | other (label : String)
deriving DecidableEq, Repr

namespace Occurrence.Kind

def label : Kind → String
  | var => "variable"
  | literal => "literal"
  | other label => label

def ofLabel (label : String) : Kind :=
  if label = "variable" then var else if label = "literal" then literal else other label

end Occurrence.Kind

structure Occurrence where
  kind : Occurrence.Kind
  value : String
  file : String
  range : Text.Range
  name : Option String := none
  theme : Option Theme := none
  scope : Option String := none
  property : Option String := none
  isDefinition : Bool := false
  sample : String := ""
deriving DecidableEq, Repr

namespace Occurrence

def isVariable (o : Occurrence) : Bool := o.kind == .var

/-- An optional text, where an empty one counts as absent. -/
def present? (s : Option String) : Option String := s.filter (· ≠ "")

def scopeLabel (o : Occurrence) : String := (present? o.scope).getD "unknown"

def propertyLabel (o : Occurrence) : String := (present? o.property).getD "unknown"

def toJson (o : Occurrence) : Json :=
  .obj [("kind", .str o.kind.label), ("name", .ofOption .str o.name), ("value", .str o.value),
    ("file", .str o.file), ("line", .int o.range.line), ("start_col", .int o.range.startCol),
    ("end_col", .int o.range.endCol), ("scope", .str o.scopeLabel),
    ("property", .str o.propertyLabel), ("theme", .ofOption (fun t => .str t.label) o.theme),
    ("is_definition", .bool o.isDefinition), ("sample", .str o.sample)]

end Occurrence

end ColorCensus
