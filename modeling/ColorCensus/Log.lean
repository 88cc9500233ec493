import ColorCensus.Host
import ColorCensus.Import.Statement

/-!
# The log

What a run has to tell about itself, as events with a level, the part of the program that tells
it, and a wording. Where events go is settled by a `Log.Setup`: a level below which nothing is
told, and a file beside the console if one is wanted.
-/

namespace ColorCensus.Log

inductive Level where
  | debug
  | info
  | warning
  | error
  | critical
deriving DecidableEq, Repr

namespace Level

def severity : Level → Nat
  | debug => 10
  | info => 20
  | warning => 30
  | error => 40
  | critical => 50

def name : Level → String
  | debug => "DEBUG"
  | info => "INFO"
  | warning => "WARNING"
  | error => "ERROR"
  | critical => "CRITICAL"

end Level

inductive Event where
  | scanning (label : String)
  | unreadable (label : String) (fault : ReadFault)
  | unresolved (kind : Import.Kind) (specifier : List Char) (importer : List Char)
  | truncated (limit : Int)
  | visited (files : Nat)
  | shadowed (name value file keptIn : String)
  | tabulated (definitions : Nat)
  | dangling (label : String) (references : Nat)
  | found (colors files : Nat)
  | nextScan (minutes : Nat)
  | stopped (scans : Nat)
deriving DecidableEq, Repr

namespace Event

def level : Event → Level
  | scanning _ | truncated _ | found _ _ | nextScan _ | stopped _ => .info
  | unreadable _ _ | unresolved _ _ _ | visited _ | shadowed _ _ _ _ | tabulated _ | dangling _ _ =>
      .debug

def message : Event → String
  | scanning label => "Scanning " ++ label
  | unreadable label fault => "Skipping unreadable file " ++ label ++ ": " ++ fault.message
  | unresolved kind specifier importer =>
      "Unresolved " ++ kind.label ++ " import '" ++ String.ofList specifier ++ "' in " ++
        String.ofList importer
  | truncated limit =>
      "Import graph truncated at " ++ toString limit ++
        " files; raise imports.max_files to follow more"
  | visited files => "Import graph holds " ++ toString files ++ " files"
  | shadowed name value file keptIn =>
      "Ignoring " ++ name ++ "=" ++ value ++ " from " ++ file ++ "; " ++ keptIn ++
        " already defines it"
  | tabulated definitions => "Variable table holds " ++ toString definitions ++ " color definitions"
  | dangling label references =>
      label ++ ": " ++ toString references ++ " unresolved var() references"
  | found colors files =>
      "Found " ++ toString colors ++ " colors across " ++ toString files ++ " files"
  | nextScan minutes => "Next scan in " ++ toString minutes ++ " min"
  | stopped scans => "Stopped after " ++ toString scans ++ " scans"

end Event

/-- The level from which on a run tells its events. -/
def threshold (verbose quiet : Bool) : Level :=
  if verbose then .debug else if quiet then .warning else .info

/-- A line for the console. -/
def consoleLine (level : Level) (message : String) : String :=
  "[color-inspector] " ++ level.name ++ " " ++ message ++ "\n"

/-- The console text of the events that reach a level. -/
def console (lowest : Level) (events : List Event) : String :=
  String.join ((events.filter fun e => lowest.severity ≤ e.level.severity).map fun e =>
    consoleLine e.level e.message)

end ColorCensus.Log
