import ColorCensus.Command.Grammar
import ColorCensus.Number.Integer
import ColorCensus.Report.Render

/-!
# Arguments

The command line of the program: flags that hold for every command, then a command with flags
and perhaps a file of its own. What is wrong in the arguments of a command is told under the
command's name; arguments that have no place at all are told last.
-/

namespace ColorCensus.Command

open Text

inductive Verb where
  | scan
  | watch
  | serve
deriving DecidableEq, Repr

namespace Verb

def all : List Verb := [scan, watch, serve]

def name : Verb → String
  | scan => "scan"
  | watch => "watch"
  | serve => "serve"

def ofName? (name : String) : Option Verb := all.find? (·.name == name)

end Verb

def program : String := "color-inspector"

def grammar : Grammar := ⟨program, [.help, .verbose, .quiet], .command⟩

def Verb.grammar (v : Verb) : Grammar :=
  let scanFlags : List Flag := [.help, .verbose, .workspace, .maxFiles, .format]
  let named := program ++ " " ++ v.name
  match v with
  | scan => ⟨named, scanFlags, .one⟩
  | watch => ⟨named, scanFlags ++ [.interval, .iterations], .one⟩
  | serve => ⟨named, [.help, .verbose, .host, .portNumber], .none⟩

/-- Everything that arguments can say. -/
structure Options where
  verbose : Bool := false
  quiet : Bool := false
  operand : Option (List Char) := none
  /-- The arguments that belong to the operand. -/
  more : List (List Char) := []
  workspace : Option (List Char) := none
  maxFiles : Option Int := none
  format : Option Report.Format := none
  interval : Option Int := none
  iterations : Option Int := none
  host : String := "127.0.0.1"
  portNumber : Int := 8000

def notOneOf (g : Grammar) (name : String) (text : List Char) (choices : List String) : Stop :=
  g.misuseOf name ("invalid choice: " ++ String.ofList (quoted text) ++ " (choose from " ++
    ", ".intercalate (choices.map fun c => String.ofList (quoted c.toList)) ++ ")")

namespace Options

def integer (g : Grammar) (f : Flag) (text : List Char) : Except Stop Int :=
  match Number.integer? text with
  | some i => .ok i
  | none => .error (g.misuseOf f.name ("invalid int value: " ++ String.ofList (quoted text)))

/-- The options after one more thing is found. -/
def take (g : Grammar) (o : Options) : Found → Except Stop Options
  | .operand text more => .ok { o with operand := some text, more }
  | .switch .help => .error (.help g.usage)
  | .switch .verbose => .ok { o with verbose := true }
  | .switch .quiet => .ok { o with quiet := true }
  | .switch _ => .ok o
  | .value .workspace text => .ok { o with workspace := some text }
  | .value .host text => .ok { o with host := String.ofList text }
  | .value .format text =>
      match Report.Format.ofName? (String.ofList text) with
      | some format => .ok { o with format := some format }
      | none => .error (notOneOf g Flag.format.name text ["markdown", "json"])
  | .value f text => do
      let i ← integer g f text
      pure (match f with
        | .maxFiles => { o with maxFiles := some i }
        | .interval => { o with interval := some i }
        | .iterations => { o with iterations := some i }
        | .portNumber => { o with portNumber := i }
        | _ => o)

end Options

/-- What to scan, and how to report on it. -/
structure Target where
  path : String
  workspace : Option String
  maxFiles : Option Int
  format : Option Report.Format

inductive Action where
  | scan (target : Target)
  | watch (target : Target) (interval iterations : Option Int)
  | serve (host : String) (portNumber : Int)

structure Invocation where
  verbose : Bool
  quiet : Bool
  action : Action

def required (g : Grammar) (name : String) : Stop :=
  g.misuse ("the following arguments are required: " ++ name)

def Options.target (o : Options) : Target :=
  { path := String.ofList (o.operand.getD [])
    workspace := o.workspace.map String.ofList
    maxFiles := o.maxFiles
    format := o.format }

/-- The action that a command with its options is. -/
def Verb.action (v : Verb) (o : Options) : Action :=
  match v with
  | scan => .scan o.target
  | watch => .watch o.target o.interval o.iterations
  | serve => .serve o.host o.portNumber

/-- What arguments ask for. -/
def parse (args : List String) : Except Stop Invocation := do
  let ((outer, _), left) ← grammar.read (Options.take grammar) {} (args.map String.toList)
  match outer.operand with
  | none => throw (required grammar "command")
  | some name =>
      match Verb.ofName? (String.ofList name) with
      | none => throw (notOneOf grammar "command" name (Verb.all.map Verb.name))
      | some verb =>
          let ((inner, due), more) ← verb.grammar.read (Options.take verb.grammar) {} outer.more
          if due = .one then throw (required verb.grammar "path")
          let left := (left ++ more).map String.ofList
          if left ≠ [] then
            throw (grammar.misuse ("unrecognized arguments: " ++ " ".intercalate left))
          pure ⟨outer.verbose || inner.verbose, outer.quiet, verb.action inner⟩

end ColorCensus.Command
