import ColorCensus.Report.Document
import ColorCensus.Report.Chapters

/-!
# Rendering a report

An inventory as a markdown page or as a JSON document.
-/

namespace ColorCensus.Report

inductive Format where
  | markdown
  | json
deriving DecidableEq, Repr

def Format.ofName? (name : String) : Option Format :=
  if name = "markdown" then some .markdown else if name = "json" then some .json else none

structure Options where
  maxUsages : Int := 50
  autoScanMinutes : Int := 0

def headerLine (i : Inventory) : String :=
  i.root ++ " | " ++ toString i.totalColors ++ " colors | +" ++ toString i.importCount ++ " " ++
    if i.importCount = 1 then "Import" else "Imports"

/-! ## The markdown page, from the inside out -/

def usageLine (o : Occurrence) : String :=
  "  - " ++ o.scopeLabel ++ " • " ++ o.propertyLabel ++ " (line " ++ toString o.range.line ++ ")" ++
    (if o.sample = "" then "" else ": `" ++ o.sample ++ "`") ++ "\n"

def View.lines (v : View) : String :=
  (match Occurrence.present? v.label with
    | some label => "- **" ++ label ++ "**: `" ++ v.value
    | none => "- `" ++ v.value) ++ "` (line " ++ toString v.line ++ ")\n" ++
  (match v.property with
    | some property => "  - Property key: " ++ property ++ "\n"
    | none => "") ++
  (match v.scope with
    | some scope => "  - Context hint \x7b\x7d: " ++ scope ++ "\n"
    | none => "") ++
  (if v.usages.isEmpty then "  - No usage locations found (yet).\n" else "") ++
  String.join (v.usages.map usageLine) ++
  (if v.hidden = 0 then "" else "  - … " ++ toString v.hidden ++ " more\n")

def Chapter.lines (s : Chapter) : String :=
  "### " ++ s.title ++ " (" ++ toString s.views.length ++ ")\n\n" ++
    String.join (s.views.map View.lines) ++ "\n"

def groupLines (maxUsages : Int) (g : Group) : String :=
  "## " ++ g.file ++ " (" ++ toString g.count ++ ")" ++
    (if (badges g).isEmpty then "" else " [" ++ ", ".intercalate (badges g) ++ "]") ++ "\n\n" ++
    String.join ((chaptersOf maxUsages g).map Chapter.lines)

def importLine (i : Imported) : String := "- `" ++ i.file ++ "` (" ++ toString i.colors ++ ")\n"

def markdown (o : Options) (i : Inventory) : String :=
  "# " ++ headerLine i ++ "\n\n" ++
  (if i.truncated then
    "> Import graph truncated at " ++ toString i.files.length ++ " files.\n\n" else "") ++
  (if o.autoScanMinutes = 0 then ""
    else "_Auto-scan: every " ++ toString o.autoScanMinutes ++ " min_\n\n") ++
  (if i.imports.isEmpty then ""
    else "## Imports\n\n" ++ String.join (i.imports.map importLine) ++ "\n") ++
  (if i.groups.isEmpty then "No colors found.\n" else "") ++
  String.join (i.groups.map (groupLines o.maxUsages))

def render (o : Options) (format : Format) (i : Inventory) : String :=
  match format with
  | .markdown => markdown o i
  | .json => i.toJson.render ++ "\n"

end ColorCensus.Report
