/-!
# Themes

The theme under which a color applies. Classification only ever answers `dark`, `light` or
`base`; occurrences and definitions that reach the library from elsewhere may carry any label.
-/

namespace ColorCensus

inductive Theme where
  | dark
  | light
  | base
  | other (label : String)
deriving DecidableEq, Repr

namespace Theme

def label : Theme → String
  | dark => "dark"
  | light => "light"
  | base => "base"
  | other label => label

def ofLabel (label : String) : Theme :=
  if label = "dark" then dark
  else if label = "light" then light
  else if label = "base" then base
  else other label

/-- The place of a theme in a listing: dark, light, base, then all else. -/
def rank : Option Theme → Nat
  | some dark => 0
  | some light => 1
  | some base => 2
  | _ => 3

end Theme

end ColorCensus
