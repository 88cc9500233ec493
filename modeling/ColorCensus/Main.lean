import ColorCensus.Command.Run
import ColorCensus.Yaml.Value

/-!
# The program

Reads arguments, asks the disk, prints what a run leaves behind, and sleeps between the rounds of
a watch. Documents are read by the reader that comes with it.
-/

namespace ColorCensus

/-- What the system answers where nothing stands at a path: there is no such name, something on
the way is no directory, or the path leads round in a circle. -/
def absences : List UInt32 := [2, 9, 20, 40]

/-- The refusal that a fault of the system is, unless it only says that nothing is there. -/
def refusal? (p : Path) : IO.Error → Option Disk.Fault
  | .noFileOrDirectory .. | .noSuchThing .. | .inappropriateType .. => none
  | .permissionDenied _ number reason | .invalidArgument _ number reason
  | .otherError number reason =>
      if absences.contains number then none else some ⟨number.toNat, reason, p⟩
  | fault => some ⟨5, toString fault, p⟩

def kindOf? (p : Path) : ExceptT Disk.Fault IO (Option Disk.Kind) := ExceptT.mk do
  try
    let found ← IO.FS.realPath p.toString
    match (← found.metadata).type with
    | .file => return .ok (some .file)
    | .dir => return .ok (some .directory)
    | _ => return .ok (some .other)
  catch fault =>
    return match refusal? p fault with
    | some refusal => .error refusal
    | none => .ok none

def bytesOf (p : Path) : ExceptT Disk.Fault IO (List UInt8) := ExceptT.mk do
  try
    return .ok (← IO.FS.readBinFile p.toString).toList
  catch fault => return .error ((refusal? p fault).getD (.missing p))

def realDisk : IO (Disk IO) := do
  let current ← IO.currentDir
  let home ← IO.getEnv "HOME"
  return { kind? := kindOf?
           bytes := bytesOf
           current := .ofString current.toString
           home? := fun user => if user.isEmpty then home.map Path.ofString else none }

def leave (outcome : Command.Outcome) : IO UInt32 := do
  (← IO.getStderr).putStr outcome.stderr
  let stdout ← IO.getStdout
  stdout.putStr outcome.stdout
  stdout.flush
  match outcome.ending with
  | .exit _ => pure ()
  | .crash fault => (← IO.getStderr).putStrLn fault.message
  return outcome.ending.code.toUInt32

/-- Keeps a watch, one round after the other. -/
partial def keep (disk : Disk IO) (watch : Command.Watch) (completed : Nat) : IO UInt32 := do
  let (outcome, goesOn) ← watch.round Yaml.read disk completed
  let code ← leave outcome
  if goesOn then
    IO.sleep (60000 * watch.minutes).toUInt32
    keep disk watch (completed + 1)
  else return code

end ColorCensus

open ColorCensus in
def main (args : List String) : IO UInt32 := do
  let disk ← realDisk
  match ← Command.start Yaml.read disk args with
  | .over outcome => leave outcome
  | .watch watch => keep disk watch 0
  | .serve host portNumber =>
      (← IO.getStderr).putStrLn ("color-inspector serve: no socket to bind at " ++ host ++ ":" ++
        toString portNumber)
      return 1
