import ColorCensus.Theme.Trigger

/-!
# Theme coverage of a file

Which themes the definitions of a file belong to, and whether the file follows the operating
system: either by an attribute value `system`, or by a query on the preferred color scheme
beside a `:root` rule for the absence of an attribute.
-/

namespace ColorCensus.Theme

open Text

structure Coverage where
  dark : Bool := false
  light : Bool := false
  base : Bool := false
  system : Bool := false
deriving DecidableEq, Repr

/-- `attribute="system"`, in quotes of either kind. -/
def isSystemValue (name : List Char) (cs : List Char) : Bool :=
  (do
    let cs ← dropAssignment? name cs
    let cs ← dropLiteral? "system".toList cs
    dropOne? isQuote cs).isSome

/-- `:root:not([attribute])`. -/
def isRootWithout (name : List Char) (cs : List Char) : Bool :=
  (do
    let cs ← dropLiteral? ":root".toList cs
    let cs := trimLeft cs
    let cs := trimLeft ((dropLiteral? [':'] cs).getD cs)
    let cs ← dropLiteral? "not(".toList cs
    let cs ← dropLiteral? ['['] (trimLeft cs)
    let cs ← dropLiteral? name cs
    let cs ← dropLiteral? [']'] cs
    dropLiteral? [')'] (trimLeft cs)).isSome

/-- Whether a text switches its theme with the operating system. -/
def followsSystem (attributes : List (List Char)) (text : List Char) : Bool :=
  let text := lower text
  attributes.any (fun a => anywhere (isSystemValue a) text) ||
    (anywhere (fun cs => (schemeQuery cs).isSome) text &&
      attributes.any fun a => anywhere (isRootWithout a) text)

/-- The coverage of a file with the given text and the themes of its definitions. -/
def Coverage.ofFile (attributes : List (List Char)) (text : List Char) (themes : List Theme) :
    Coverage where
  dark := themes.contains .dark
  light := themes.contains .light
  base := themes.contains .base
  system := followsSystem attributes text

end ColorCensus.Theme
