import ColorCensus.Log

/-!
# Setting up the log

Once the log is set up, a message of the lowest level or above is told on the console and, if
there is a log file, in a line of that file too. Before that, only warnings and worse are told,
and on the console alone. A part of the program tells its messages under its own name.
-/

namespace ColorCensus.Log

structure Setup where
  lowest : Level
  hasFile : Bool := false
deriving DecidableEq, Repr

/-- The name under which a part of the program tells its messages. -/
def teller (part : String) : String :=
  if part = "" then "color_inspector" else "color_inspector." ++ part

namespace Setup

def of (verbose quiet hasFile : Bool) : Setup := ⟨threshold verbose quiet, hasFile⟩

/-- The number of places where messages are told. -/
def places (s : Setup) : Nat := if s.hasFile then 2 else 1

def tells (s : Setup) (level : Level) : Bool := s.lowest.severity ≤ level.severity

end Setup

/-- What a message adds to the console. -/
def consoleText (setup : Option Setup) (level : Level) (message : String) : String :=
  match setup with
  | none => if Level.warning.severity ≤ level.severity then message ++ "\n" else ""
  | some s => if s.tells level then consoleLine level message else ""

/-- The line that a message adds to the log file, after the time. -/
def fileLine? (setup : Option Setup) (level : Level) (part message : String) : Option String :=
  match setup with
  | some s =>
      if s.hasFile && s.tells level then some (level.name ++ " " ++ teller part ++ ": " ++ message)
      else none
  | none => none

end ColorCensus.Log
