import ColorCensus.Inventory.Entry
import ColorCensus.Text.Lowercase
import ColorCensus.Theme.Coverage

/-!
# The inventory

The entries of a pass, parted by file: a group holds the entries that occur in its file, each
with its occurrences there. The root file comes first and the others follow by name; inside a
group, variables come before all else, by name, theme, value and line.
-/

namespace ColorCensus

/-- Everything that the place of an entry in its group hangs on. -/
structure Entry.Rank where
  kind : Nat
  name : String
  theme : Nat
  value : String
  line : Nat

namespace Entry

def Rank.compare (a b : Rank) : Ordering :=
  (Ord.compare a.kind b.kind).then <| (Ord.compare a.name b.name).then <|
    (Ord.compare a.theme b.theme).then <| (Ord.compare a.value b.value).then <|
      Ord.compare a.line b.line

/-- The rank of an entry among those of a file, with its occurrences there. -/
def rank (e : Entry) (os : List Occurrence) : Rank where
  kind := if e.kind = .var then 0 else 1
  name := String.ofList (Text.lower (e.name.getD "").toList)
  theme := Theme.rank e.theme
  value := String.ofList (Color.normalForm e.value.toList)
  line := firstLine os

end Entry

/-- The entries of one file, each with its occurrences in the file. -/
structure Group where
  file : String
  entries : List (Entry × List Occurrence)
  coverage : Theme.Coverage

def Group.count (g : Group) : Nat := g.entries.length

/-- An imported file and the number of its colors. -/
structure Imported where
  file : String
  colors : Nat
deriving DecidableEq, Repr

structure Inventory where
  root : String
  files : List String
  entries : List Entry
  groups : List Group
  imports : List Imported
  truncated : Bool

namespace Inventory

/-- Files without repetition: the root, if it is among them, and then the others by name. -/
def orderFiles (files : List String) (root : Option String) : List String :=
  let unique := distinct files
  (root.filter (· ∈ unique)).toList ++
    (unique.filter (some · ≠ root)).mergeSort fun a b => decide (a ≤ b)

/-- The entries that occur in a file, by rank. -/
def membersOf (entries : List Entry) (file : String) : List (Entry × List Occurrence) :=
  let members := (entries.map fun e => (e, e.inFile file)).filter fun m => !m.2.isEmpty
  (members.map fun m => (m.1.rank m.2, m)).mergeSort (fun a b => (a.1.compare b.1).isLE)
    |>.map (·.2)

/-- The groups of the files that hold a color. -/
def groupsOf (entries : List Entry) (files : List String) (root : Option String)
    (coverage : List (String × Theme.Coverage)) : List Group :=
  (orderFiles files root).filterMap fun file =>
    match membersOf entries file with
    | [] => none
    | members => some ⟨file, members, (coverage.lookup file).getD {}⟩

/-- The files other than the root, in order of their visit. -/
def importsOf (groups : List Group) (files : List String) (root : Option String) : List Imported :=
  ((distinct files).filter (some · ≠ root)).map fun file =>
    ⟨file, ((groups.find? (·.file = file)).map Group.count).getD 0⟩

/-- The inventory of the occurrences in some files. -/
def ofOccurrences (perFile : Bool) (occurrences : List Occurrence) (files : List String)
    (root : Option String) (coverage : List (String × Theme.Coverage)) (truncated : Bool) :
    Inventory :=
  let entries := Entry.ofOccurrences perFile occurrences
  let groups := groupsOf entries files root coverage
  { root := root.getD ""
    files
    entries
    groups
    imports := importsOf groups files root
    truncated }

def totalColors (i : Inventory) : Nat := i.entries.length

def importCount (i : Inventory) : Nat := i.files.length - 1

def groupFor? (i : Inventory) (file : String) : Option Group := i.groups.find? (·.file = file)

end Inventory

end ColorCensus
