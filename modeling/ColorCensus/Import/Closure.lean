import ColorCensus.Host
import ColorCensus.Import.Resolve
import ColorCensus.Log

/-!
# The import closure

The files that a root file reaches through its imports, breadth first and up to a cap. The walk
holds a queue of paths to visit and the files visited so far; a path that was visited already is
passed over when its turn comes. A visited file costs one unit of the cap and a path passed over
costs one place in the queue, so the walk ends on any host, even on one where every path is a
file that imports new ones.
-/

namespace ColorCensus.Import

variable {m : Type → Type} [Monad m]

/-- The files visited, in order, and whether the cap left a reachable one out. -/
structure Closure where
  files : List Source
  truncated : Bool

/-- The first candidate that is a file and not excluded. -/
def firstFile? (host : Host m) (settings : Settings) (workspace : Path) :
    List Path → m (Option Path)
  | [] => pure none
  | p :: ps => do
      if isExcluded settings.excludePaths workspace p then firstFile? host settings workspace ps
      else if ← host.isFile p then pure (some p)
      else firstFile? host settings workspace ps

/-- The file that an edge leads to; nothing if it leads out of the workspace or to no file, and
the latter is told. -/
def target? (host : Host m) (settings : Settings) (workspace importer : Path)
    (edge : Edge) : m (Option Path × List Log.Event) := do
  if isFollowable settings.aliases edge.kind edge.specifier then
    let paths := candidates settings.aliases settings.extensions workspace importer edge.kind
      edge.specifier
    match ← firstFile? host settings workspace paths with
    | some p => pure (some p, [])
    | none => pure (none, [.unresolved edge.kind edge.specifier importer.name])
  else pure (none, [])

/-- The files that the edges lead to, in order. -/
def targets (host : Host m) (settings : Settings) (workspace importer : Path) :
    List Edge → m (List Path × List Log.Event)
  | [] => pure ([], [])
  | edge :: rest => do
      let (path, told) ← target? host settings workspace importer edge
      let (paths, toldOfRest) ← targets host settings workspace importer rest
      pure (path.toList ++ paths, told ++ toldOfRest)

/-- The walk with `room` visits left, a queue of paths, and the files visited so far. -/
def walk (host : Host m) (settings : Settings) (workspace : Path)
    (room : Nat) (queue : List Path) (files : List Source) (told : List Log.Event) :
    m (Closure × List Log.Event) :=
  match room, queue with
  | _, [] => pure (⟨files, false⟩, told)
  | 0, queue => pure (⟨files, queue.any fun p => p ∉ files.map (·.path)⟩, told)
  | room + 1, path :: queue =>
      if path ∈ files.map (·.path) then
        walk host settings workspace (room + 1) queue files told
      else do
        let label := host.label workspace path
        match ← host.read path with
        | .error fault =>
            walk host settings workspace room queue (files ++ [{ path, label, text := none }])
              (told ++ [.unreadable label fault])
        | .ok text =>
            let files := files ++ [{ path, label, text := some text }]
            let (paths, toldOfEdges) ← targets host settings workspace path (edges text)
            let new := paths.filter fun p => p ∉ files.map (·.path)
            walk host settings workspace room (queue ++ new) files (told ++ toldOfEdges)
termination_by (room, queue.length)

/-- The import closure of a root file; a cap below one allows no visit at all. Labels are those
of `workspace`, and specifiers from the root and under an alias are taken from there. -/
def closure (host : Host m) (settings : Settings) (workspace root : Path)
    (cap : Int) : m (Closure × List Log.Event) := do
  let (graph, told) ← walk host settings workspace cap.toNat [root] [] []
  pure (graph, if graph.truncated then told ++ [.truncated cap] else told)

end ColorCensus.Import
