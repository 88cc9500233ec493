import ColorCensus.Import.Closure
import ColorCensus.Inventory.Basic
import ColorCensus.Occurrence.Scan
import ColorCensus.Settings.Basic

/-!
# Taking a census

One pass from a root file to an inventory: the import closure is read, the variables of all its
files go into one table, every file is scanned with that table, and the occurrences become
entries and groups. Only the first step asks the host; the rest is a function of the files read.
-/

namespace ColorCensus.Census

/-- What keeps a pass from its inventory. -/
inductive Fault where
  | rootMissing (root : Path)
  | unknownPrecedence (name : String)
  /-- A negative window of style sheets starts below the last line of a file. -/
  | windowOutside
deriving DecidableEq

def Fault.message : Fault → String
  | rootMissing root => "Root file not found: " ++ root.toString
  | unknownPrecedence name => "Unknown variable precedence: " ++ name
  | windowOutside => "tuple index out of range"

/-- The occurrences of every file, scanned in order with one memory; nothing if some window does
not start on a line. -/
def scanAll (table : Variable.Table) (attributes : List (List Char)) (settings : Context.Settings) :
    Context.Memory → List Source → Option (List (Source × List Occurrence))
  | _, [] => some []
  | memory, source :: rest =>
      if 0 ≤ settings.stylesheetWindow ||
          Occurrence.hasWindows table attributes settings memory source then
        let (occurrences, memory) := Occurrence.scan table attributes settings memory source
        (scanAll table attributes settings memory rest).map ((source, occurrences) :: ·)
      else none

/-- The coverage of every readable file, by label. Of two files with one label the later one
counts, and so it stands first. -/
def coverages (attributes : List (List Char)) (scanned : List (Source × List Occurrence)) :
    List (String × Theme.Coverage) :=
  ((scanned.filter (·.1.isReadable)).map fun s =>
    (s.1.label, Occurrence.coverage attributes s.1 s.2)).reverse

/-- The inventory of the files of a closure. -/
def ofClosure (settings : Settings) (rootLabel : String) (graph : Import.Closure) :
    Except Fault (Inventory × List Log.Event) := do
  let attributes := Theme.attributes settings.themes.attributes
  let some precedence := Variable.Precedence.ofName? settings.declarations.precedence
    | throw (.unknownPrecedence settings.declarations.precedence)
  let (table, toldOfTable) := Variable.collect precedence attributes graph.files
  let some scanned := scanAll table attributes settings.context {} graph.files
    | throw .windowOutside
  let dangling := (graph.files.map fun s => (s.label, Occurrence.danglingReferences table s)).filter
    (·.2 ≠ 0)
  let labels := graph.files.map (·.label)
  let inventory := Inventory.ofOccurrences settings.aggregate.perFile (scanned.flatMap (·.2)) labels
    (some (labels.head?.getD rootLabel)) (coverages attributes scanned) graph.truncated
  pure (inventory, [.visited labels.length] ++ toldOfTable ++ [.tabulated table.size] ++
    dangling.map (fun d => .dangling d.1 d.2) ++ [.found inventory.totalColors labels.length])

/-- The inventory of a root file, with what there is to tell about the pass. A given cap goes
before the configured one. Both paths are absolute and canonical. -/
def take {m : Type → Type} [Monad m] (host : Host m) (settings : Settings) (workspace root : Path)
    (cap : Option Int) : m (Except Fault Inventory × List Log.Event) := do
  if ← host.isFile root then
    let rootLabel := host.label workspace root
    let (graph, toldOfWalk) ← Import.closure host settings.imports workspace root
      (cap.getD settings.imports.maxFiles)
    let told := .scanning rootLabel :: toldOfWalk
    match ofClosure settings rootLabel graph with
    | .error fault => pure (.error fault, told)
    | .ok (inventory, toldOfFiles) => pure (.ok inventory, told ++ toldOfFiles)
  else pure (.error (.rootMissing root), [])

end ColorCensus.Census
