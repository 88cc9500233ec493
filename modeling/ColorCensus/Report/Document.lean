import ColorCensus.Inventory.Basic

/-!
# The inventory as a document

The same inventory as a JSON value, with the definitions and usages of every entry apart.
-/

namespace ColorCensus

def Theme.Coverage.toJson (c : Theme.Coverage) : Json :=
  .obj [("dark", .bool c.dark), ("light", .bool c.light), ("base", .bool c.base),
    ("system", .bool c.system)]

/-- An entry with the given ones of its occurrences. -/
def Entry.toJson (e : Entry) (os : List Occurrence) : Json :=
  .obj [("kind", .str e.kind.label), ("name", .ofOption .str e.name), ("value", .str e.value),
    ("theme", .ofOption (fun t => .str t.label) e.theme),
    ("definitions", .arr ((os.filter (·.isDefinition)).map Occurrence.toJson)),
    ("usages", .arr ((os.filter (!·.isDefinition)).map Occurrence.toJson))]

def Group.toJson (g : Group) : Json :=
  .obj [("file", .str g.file), ("count", .int g.count), ("theme", g.coverage.toJson),
    ("entries", .arr (g.entries.map fun m => m.1.toJson m.2))]

def Imported.toJson (i : Imported) : Json :=
  .obj [("file", .str i.file), ("colors", .int i.colors)]

def Inventory.toJson (i : Inventory) : Json :=
  .obj [("root", .str i.root), ("total_colors", .int i.totalColors),
    ("truncated", .bool i.truncated), ("files", .arr (i.files.map .str)),
    ("imports", .arr (i.imports.map Imported.toJson)),
    ("groups", .arr (i.groups.map Group.toJson))]

end ColorCensus
