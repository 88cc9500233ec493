import ColorCensus.Host
import ColorCensus.Text.Quote

/-!
# Disks

A disk tells what stands at a path, and which bytes a file holds. Relative paths are seen from the
current directory. A path whose first step starts with `~` is one from a home directory, and means
nothing for a user without one.

A disk may refuse a question, because a name is too long, a directory is closed to the user, or a
device fails. It is no refusal that nothing stands at a path. Whoever looks for a file has to be
ready for a refusal, and nobody is: a pass that meets one breaks off. Reading is another matter, a
file that cannot be read is as good as empty to a pass.
-/

namespace ColorCensus

/-- A refusal, with the number that the system has for it. -/
structure Disk.Fault where
  number : Nat
  reason : String
  path : Path
deriving DecidableEq

namespace Disk.Fault

def message (f : Fault) : String :=
  "[Errno " ++ toString f.number ++ "] " ++ f.reason ++ ": " ++ String.ofList (Text.quoted f.path.text)

def missing (p : Path) : Fault := ⟨2, "No such file or directory", p⟩

def notFile (p : Path) : Fault := ⟨21, "Is a directory", p⟩

def tooLong (p : Path) : Fault := ⟨36, "File name too long", p⟩

/-- Whether it is refused to do something with a file because there is none. -/
def isMissing (f : Fault) : Bool := f.number == 2

end Disk.Fault

inductive Disk.Kind where
  | file
  | directory
  | other
deriving DecidableEq

structure Disk (m : Type → Type) where
  /-- What stands at a path, if anything does. -/
  kind? : Path → ExceptT Disk.Fault m (Option Disk.Kind)
  bytes : Path → ExceptT Disk.Fault m (List UInt8)
  current : Path
  /-- The home directory of a user; the empty name is the user at work. -/
  home? : List Char → Option Path

namespace Disk

variable {m : Type → Type} [Monad m]

/-- A path with its home directory written out. -/
def expandHome? (disk : Disk m) (p : Path) : Option Path :=
  match p.root, p.names with
  | .relative, name :: rest =>
      match name.text with
      | '~' :: user => (disk.home? user).map (Path.join · ⟨.relative, rest⟩)
      | _ => some p
  | _, _ => some p

/-- The canonical path that a path means. -/
def absolute (disk : Disk m) (p : Path) : Path := (disk.current.join p).canonical

def isFile (disk : Disk m) (p : Path) : ExceptT Fault m Bool := (· == some .file) <$> disk.kind? p

def isDirectory (disk : Disk m) (p : Path) : ExceptT Fault m Bool :=
  (· == some .directory) <$> disk.kind? p

def hasAny (disk : Disk m) (p : Path) : ExceptT Fault m Bool := Option.isSome <$> disk.kind? p

/-- The text of a file, in UTF-8 and with every line end as a newline. -/
def read (disk : Disk m) (p : Path) : m (Except ReadFault (List Char)) := do
  match ← (disk.bytes p).run with
  | .error fault => pure (.error (.unavailable fault.message))
  | .ok bytes =>
      match Text.Utf8.decode bytes with
      | .error fault => pure (.error (.undecodable fault))
      | .ok text => pure (.ok (Text.unifyNewlines text))

/-- The host of a pass over a disk. A refusal ends the pass where it is met. -/
def host (disk : Disk m) : Host (ExceptT Fault m) where
  isFile := disk.isFile
  read p := ExceptT.lift (disk.read p)

end Disk

end ColorCensus
