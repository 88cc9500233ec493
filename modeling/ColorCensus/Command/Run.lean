import ColorCensus.Command.Arguments
import ColorCensus.Scan

/-!
# Running a command

A scan is over when its report is written. A watch goes on: the settings are read once, and each
round takes a new census of the same root file, until the last round that was asked for, or
until it is stopped while it sleeps. Nothing is printed or slept here; a round answers with what
it has to print, and its caller sleeps.
-/

namespace ColorCensus.Command

open Yaml (Reader)

variable {m : Type → Type} [Monad m]

inductive Ending where
  | exit (code : Nat)
  /-- The run broke off at a fault that it does not explain to anybody. -/
  | crash (fault : Scan.Fault)
deriving DecidableEq

/-- The code that a run leaves to its caller. -/
def Ending.code : Ending → Nat
  | exit code => code
  | crash _ => 1

/-- What a run leaves behind. -/
structure Outcome where
  stdout : String := ""
  stderr : String := ""
  ending : Ending := .exit 0

namespace Outcome

def failure (stderr : String) : Outcome := { stderr, ending := .exit 1 }

def crash (fault : Scan.Fault) : Outcome := { ending := .crash fault }

/-- What a scan leaves behind that comes to no inventory. -/
def ofFault (fault : Scan.Fault) : Outcome :=
  if fault.isMissing then failure (fault.message ++ "\n")
  else if fault.isKnown then
    failure ("color-inspector scan failed: " ++ fault.message ++
      "\nRun with --verbose for more details.\n")
  else crash fault

def isFine (o : Outcome) : Bool := o.ending = .exit 0

/-- One outcome after another; the second one says how it ends. -/
def andThen (o p : Outcome) : Outcome := ⟨o.stdout ++ p.stdout, o.stderr ++ p.stderr, p.ending⟩

def ofStop : Stop → Outcome
  | .help usage => { stdout := usage ++ "\n" }
  | .misuse program message =>
      { stderr := program ++ ": error: " ++ message ++ "\n", ending := .exit 2 }

end Outcome

/-! ## One scan -/

/-- A target with everything settled that a scan needs. -/
structure Plan where
  lowest : Log.Level
  settings : Settings
  root : Path
  workspace : Path
  maxFiles : Option Int
  format : Report.Format

/-- The plan of a target with the settings of its workspace. -/
def Plan.of (lowest : Log.Level) (root workspace : Path) (t : Target) (s : Settings) : Plan :=
  let format := t.format <|> Report.Format.ofName? s.report.format
  ⟨lowest, s, root, workspace, t.maxFiles, format.getD .markdown⟩

/-- The workspace of a target; an empty name is as good as none. -/
def workspaceOf (disk : Disk m) (root : Path) : Option String → ExceptT Scan.Fault m Path
  | none | some "" => (Scan.workspaceOf disk root).adapt .disk
  | some name =>
      match disk.expandHome? (.ofString name) with
      | some workspace => pure workspace
      | none => throw .noHome

/-- The settings of a workspace. That they are refused is told, and nothing else. -/
def settingsOf (reader : Reader) (disk : Disk m) (workspace : Path) : ExceptT Outcome m Settings :=
  (·.2) <$> (Settings.load reader disk workspace).adapt fun fault =>
    if fault.isRefusal then .failure (fault.message ++ "\n") else .crash (.settings fault)

/-- The plan for a target, or what comes of it if there is none. -/
def plan (reader : Reader) (disk : Disk m) (lowest : Log.Level) (t : Target) :
    ExceptT Outcome m Plan :=
  if t.maxFiles.any (· < 1) then throw (.failure "--max-files must be at least 1\n")
  else match disk.expandHome? (.ofString t.path) with
    | none => throw (.crash .noHome)
    | some root => do
        if ← (disk.isFile root).adapt (.crash ∘ .disk) then
          let workspace ← (workspaceOf disk root t.workspace).adapt .crash
          let settings ← settingsOf reader disk workspace
          pure (.of lowest root workspace t settings)
        else throw (.failure ("Root file not found: " ++ root.toString ++ "\n"))

/-- What a plan leaves behind for the result of its scan, apart from what was told before. -/
def Plan.outcome (p : Plan) : Except Scan.Fault Inventory → Outcome
  | .ok inventory =>
      let options := ⟨p.settings.report.maxUsages, p.settings.report.autoScanMinutes⟩
      { stdout := Report.render options p.format inventory }
  | .error fault => .ofFault fault

/-- A scan with its report. -/
def scanOnce (reader : Reader) (disk : Disk m) (p : Plan) : m Outcome := do
  let (result, events) ←
    Scan.run reader disk (some p.settings) p.root (some p.workspace) p.maxFiles
  let told : Outcome := { stderr := Log.console p.lowest events }
  pure (told.andThen (p.outcome result))

/-! ## Rounds of a watch -/

structure Watch where
  plan : Plan
  /-- Minutes from one round to the next. -/
  minutes : Nat
  /-- The number of rounds after which it is over. -/
  limit : Option Int

namespace Watch

/-- A watch with its pause from the target or the settings, and of one minute at least. -/
def of (p : Plan) (interval iterations : Option Int) : Watch :=
  let minutes := max 1 (Settings.clampMinutes (interval.getD p.settings.report.autoScanMinutes))
  let report := { p.settings.report with autoScanMinutes := minutes }
  ⟨{ p with settings := { p.settings with report } }, minutes.toNat, iterations⟩

def tell (w : Watch) (event : Log.Event) : Outcome :=
  { stderr := Log.console w.plan.lowest [event] }

/-- Whether the watch is over after a number of rounds. -/
def isOver (w : Watch) (completed : Nat) : Bool := w.limit.any fun n => n ≤ (completed : Int)

/-- The round after `completed` others, and whether another one is to follow. -/
def round (reader : Reader) (disk : Disk m) (w : Watch) (completed : Nat) :
    m (Outcome × Bool) := do
  let outcome ← scanOnce reader disk w.plan
  if outcome.isFine && !w.isOver (completed + 1) then
    pure (outcome.andThen (w.tell (.nextScan w.minutes)), true)
  else pure (outcome, false)

/-- What is left to do when a watch is stopped after a number of rounds. -/
def stopped (w : Watch) (completed : Nat) : Outcome := w.tell (.stopped completed)

/-- At most `rounds` rounds. After each but the last one `sleep` is asked to wait for so many
seconds, and answers whether the watch was left to go on. -/
def run (reader : Reader) (disk : Disk m) (sleep : Nat → m Bool) (w : Watch) :
    (rounds completed : Nat) → m Outcome
  | 0, _ => pure {}
  | rounds + 1, completed => do
      let (outcome, goesOn) ← w.round reader disk completed
      if goesOn then
        if ← sleep (60 * w.minutes) then
          pure (outcome.andThen (← run reader disk sleep w rounds (completed + 1)))
        else pure (outcome.andThen (w.stopped (completed + 1)))
      else pure outcome

end Watch

/-! ## From arguments on -/

/-- What arguments come to: a run that is over, requests to answer, or a watch to keep. -/
inductive Start where
  | over (outcome : Outcome)
  | serve (host : String) (portNumber : Int)
  | watch (watch : Watch)

def start (reader : Reader) (disk : Disk m) (args : List String) : m Start := do
  match parse args with
  | .error stop => pure (.over (.ofStop stop))
  | .ok ⟨verbose, quiet, action⟩ =>
      let lowest := Log.threshold verbose quiet
      match action with
      | .serve host portNumber => pure (.serve host portNumber)
      | .scan target =>
          match ← (plan reader disk lowest target).run with
          | .error outcome => pure (.over outcome)
          | .ok p => .over <$> scanOnce reader disk p
      | .watch target interval iterations =>
          match ← (plan reader disk lowest target).run with
          | .error outcome => pure (.over outcome)
          | .ok p => pure (.watch (.of p interval iterations))

end ColorCensus.Command
