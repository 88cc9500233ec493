import ColorCensus.Census
import ColorCensus.Settings.File

/-!
# Scanning a disk

A scan starts from a root file as it is named by a person. The workspace is the nearest
directory above the file that bears a mark of one, unless it is given; the settings are those of
the workspace, unless they are given; then the census is taken.
-/

namespace ColorCensus.Scan

open Yaml (Reader)

variable {m : Type → Type} [Monad m]

inductive Fault where
  /-- A path is one from the home directory of a user who has none. -/
  | noHome
  | disk (fault : Disk.Fault)
  | settings (fault : Settings.Fault)
  | census (fault : Census.Fault)
deriving DecidableEq

namespace Fault

def message : Fault → String
  | noHome => Settings.Fault.noHome.message
  | disk fault => fault.message
  | settings fault => fault.message
  | census fault => fault.message

/-- Whether a fault is that some file is not there. -/
def isMissing : Fault → Bool
  | disk fault | settings (.disk fault) => fault.isMissing
  | census (.rootMissing _) => true
  | _ => false

/-- Whether a fault is one that a scan is known to run into. -/
def isKnown : Fault → Bool
  | noHome | settings .noHome | settings (.unread (.exhausted _)) => true
  | settings fault => fault.isRefusal
  | _ => false

end Fault

/-- The names that mark a directory as a workspace. -/
def marks : List Path := [Settings.fileName, "package.json", ".git"].map Path.ofString

/-- The workspace of a file: the nearest marked directory above it, or else its own. -/
def workspaceOf (disk : Disk m) (root : Path) : ExceptT Disk.Fault m Path := do
  let start := (disk.absolute root).parent
  let isMarked (directory : Path) := marks.anyM fun mark => disk.hasAny (directory.join mark)
  pure ((← start.selfAndAbove.findM? isMarked).getD start)

/-- The canonical path that is meant by a path from a person. -/
def locate (disk : Disk m) (p : Path) : ExceptT Fault m Path :=
  match disk.expandHome? p with
  | some p => pure (disk.absolute p)
  | none => throw .noHome

/-- The workspace as it is given, or else that of the root file. -/
def workspaceFor (disk : Disk m) (root : Path) : Option Path → ExceptT Fault m Path
  | some given => locate disk given
  | none => (workspaceOf disk root).adapt .disk

/-- The settings as they are given, or else those of the workspace. -/
def settingsFor (reader : Reader) (disk : Disk m) (workspace : Path) :
    Option Settings → ExceptT Fault m Settings
  | some given => pure given
  | none => (·.2) <$> (Settings.load reader disk workspace).adapt .settings

/-- What comes of a scan, unless it breaks off before or while the census is taken. -/
def attempt (reader : Reader) (disk : Disk m) (settings : Option Settings) (root : Path)
    (workspace : Option Path) (cap : Option Int) :
    ExceptT Fault m (Except Census.Fault Inventory × List Log.Event) := do
  let root ← locate disk root
  let workspace ← workspaceFor disk root workspace
  let settings ← settingsFor reader disk workspace settings
  (Census.take disk.host settings workspace root cap).adapt .disk

/-- The inventory of a root file, with what there is to tell about the scan. Nothing is told of a
scan that breaks off. -/
def run (reader : Reader) (disk : Disk m) (settings : Option Settings) (root : Path)
    (workspace : Option Path) (cap : Option Int) : m (Except Fault Inventory × List Log.Event) := do
  match ← (attempt reader disk settings root workspace cap).run with
  | .error fault => pure (.error fault, [])
  | .ok (result, events) => pure (result.mapError .census, events)

end ColorCensus.Scan
