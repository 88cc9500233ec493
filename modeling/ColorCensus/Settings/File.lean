import ColorCensus.Settings.Document

/-!
# The settings file

Settings are kept in one file of a directory. Asked for a directory, the file in it is read;
asked for any other file, the one beside it. A directory without the file has the default
settings, and what stands there has to be read once it is there.
-/

namespace ColorCensus.Settings

open Yaml (Reader)

variable {m : Type → Type} [Monad m]

/-- The canonical path of the settings file that a path leads to. -/
def fileFor (disk : Disk m) (p : Path) : ExceptT Fault m Path := do
  let some p := disk.expandHome? p | throw .noHome
  let file : Path := .ofString fileName
  if ← (disk.isDirectory p).adapt .disk then pure (disk.absolute (p.join file))
  else pure (disk.absolute (if p.name == fileName.toList then p else p.parent.join file))

/-- The settings that a path leads to, and the directory that they are for. -/
def load (reader : Reader) (disk : Disk m) (p : Path) : ExceptT Fault m (Path × Settings) := do
  let file ← fileFor disk p
  if ← (disk.hasAny file).adapt .disk then
    let bytes ← (disk.bytes file).adapt .disk
    let settings ← ExceptT.mk (pure (ofBytes reader bytes))
    pure (file.parent, settings)
  else pure (file.parent, {})

end ColorCensus.Settings
