import ColorCensus.Text.Blank
import ColorCensus.Text.Lowercase
import ColorCensus.Text.Token
import ColorCensus.Theme.Basic

/-!
# Theme triggers

A line opens a themed block when it holds a media query on the preferred color scheme, or a
`:root` rule keyed on a theme attribute with the value `dark` or `light`. Both have the same
shape: an opening, anything but `{`, and a condition that names the theme. The leftmost opening
with a condition counts, and of its conditions the last one. All texts are compared in lower
case.
-/

namespace ColorCensus.Theme

open Text

/-- The attribute names that key a theme: empty names do not count, case does not matter. -/
def attributes (names : List String) : List (List Char) :=
  (names.filter (· ≠ "")).map fun name => lower name.toList

/-- A way to read a theme off the start of a text. -/
abbrev Condition := List Char → Option Theme

/-- The theme of the last condition that starts before the first `{` or at it. -/
def lastCondition? (condition : Condition) : List Char → Option Theme
  | [] => condition []
  | c :: rest =>
      if c == '{' then condition (c :: rest)
      else (lastCondition? condition rest).or (condition (c :: rest))

/-- The theme under the leftmost opening that has a condition. -/
def opened? (opening : String) (condition : Condition) : List Char → Option Theme
  | [] => none
  | c :: rest =>
      ((dropLiteral? opening.toList (c :: rest)).bind (lastCondition? condition)).or
        (opened? opening condition rest)

/-- `dark` or `light` at the start of a text, and what follows. -/
def takeScheme? (cs : List Char) : Option (Theme × List Char) :=
  ((dropLiteral? "dark".toList cs).map (dark, ·)).or
    ((dropLiteral? "light".toList cs).map (light, ·))

/-- `prefers-color-scheme: dark` or `light`. -/
def schemeQuery : Condition := fun cs => do
  let cs ← dropLiteral? "prefers-color-scheme".toList cs
  let cs ← dropLiteral? [':'] (trimLeft cs)
  let (theme, _) ← takeScheme? (trimLeft cs)
  pure theme

/-- An attribute, an equals sign and an opening quote. -/
def dropAssignment? (name : List Char) (cs : List Char) : Option (List Char) := do
  let cs ← dropLiteral? name cs
  let cs ← dropLiteral? ['='] (trimLeft cs)
  dropOne? isQuote (trimLeft cs)

/-- `attribute="dark"` or `"light"`, in quotes of either kind. -/
def attributeValue (name : List Char) : Condition := fun cs => do
  let cs ← dropAssignment? name cs
  let (theme, cs) ← takeScheme? cs
  let _ ← dropOne? isQuote cs
  pure theme

/-- The theme that a line opens; a media query goes before the attributes. -/
def trigger? (attributes : List (List Char)) (line : List Char) : Option Theme :=
  let line := lower line
  (opened? "@media" schemeQuery line).or
    (attributes.findSome? fun a => opened? ":root" (attributeValue a) line)

end ColorCensus.Theme
