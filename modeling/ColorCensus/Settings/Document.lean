import ColorCensus.Disk.Basic
import ColorCensus.Number.Integer
import ColorCensus.Settings.Basic
import ColorCensus.Yaml.Basic

/-!
# Settings in a document

Settings are given by a YAML mapping of sections. A field that is missing, or whose value is of
no use for it, leaves the default; numbers, texts and truth values are taken in any spelling
that makes sense for the field. Only a few values are refused: a cap below one file, and a name
that is none of the choices.
-/

namespace ColorCensus.Settings

open Text Yaml

def fileName : String := ".color-inspector.yml"

/-- Why there are no settings. -/
inductive Fault where
  /-- The path is one from the home directory of a user who has none. -/
  | noHome
  | disk (fault : Disk.Fault)
  | undecodable (fault : Utf8.Fault)
  | unread (failure : Failure)
  /-- An integer of the document has too many digits to be written out. -/
  | unwritable
  | notMapping
  | capBelowOne
  | unknownPrecedence
  | unknownFormat
deriving DecidableEq

def Fault.message : Fault → String
  | noHome => "Could not determine home directory."
  | disk fault => fault.message
  | undecodable fault => fault.message
  | unread (.malformed problem) => "Failed to parse " ++ fileName ++ ": " ++ problem
  | unread failure => failure.message
  | unwritable =>
      "Exceeds the limit (4300 digits) for integer string conversion; use " ++
        "sys.set_int_max_str_digits() to increase the limit"
  | notMapping => fileName ++ " must contain a mapping at the root"
  | capBelowOne => "imports.max_files must be at least 1"
  | unknownPrecedence => "variables.precedence must be one of first, last"
  | unknownFormat => "report.format must be one of markdown, json"

/-- Whether a fault is one of the settings themselves, and not of the file as such. -/
def Fault.isRefusal : Fault → Bool
  | unread (.malformed _) | notMapping | capBelowOne | unknownPrecedence | unknownFormat => true
  | _ => false

/-! ## Values of fields -/

/-- The text of a scalar. An integer may have too many digits for one. -/
def text? : Value → Except Fault (Option String)
  | .text cs => .ok (some (String.ofList cs))
  | .int i =>
      if i.natAbs < Number.tooLong then .ok (some (toString i))
      else .error .unwritable
  | .float x => .ok (some (String.ofList x.text))
  | .bool b => .ok (some (if b then "True" else "False"))
  | _ => .ok none

/-- The text of a key, whatever it is. -/
def keyText : Value → Except Fault String
  | .other cs => .ok (String.ofList cs)
  | .binary bytes => .ok (String.ofList (quotedBytes bytes))
  | v => do return (← text? v).getD "None"

def int? : Value → Option Int
  | .int i => some i
  | .text cs => Number.integer? cs
  | _ => none

def bool? : Value → Option Bool
  | .bool b => some b
  | .text cs =>
      let word := String.ofList (lower (trim cs))
      if ["true", "yes", "1"].contains word then some true
      else if ["false", "no", "0"].contains word then some false
      else none
  | _ => none

/-- The scalars of a list, as texts; a single text is as good as a list of it, and binary data is
a list of numbers. -/
def texts : Value → Except Fault (List String)
  | .text cs => .ok [String.ofList cs]
  | .binary bytes => .ok (bytes.map fun b => toString b.toNat)
  | .list items => do return (← items.mapM text?).filterMap id
  | _ => .ok []

def field (document : Value) (part name : String) : Option Value :=
  (document.get? part).bind (·.get? name)

/-- A name in lower case that has to be one of the choices; an empty one says nothing. -/
def choice (choices : List String) (fault : Fault) (default : String) (value : Option Value) :
    Except Fault String := do
  match ← (value.map text?).getD (.ok none) with
  | none | some "" => pure default
  | some name =>
      let name := String.ofList (lower name.toList)
      if choices.contains name then pure name else throw fault

/-! ## Sections -/

def withDot (extension : String) : String :=
  if extension.startsWith "." then extension else "." ++ extension

/-- Gives a key a value; a key that is there already keeps its place. -/
def assign (pairs : List (String × String)) (key value : String) : List (String × String) :=
  if pairs.any (·.1 == key) then pairs.map fun p => if p.1 == key then (key, value) else p
  else pairs ++ [(key, value)]

def aliasesOf : Value → Except Fault (List (String × String))
  | .map pairs =>
      pairs.foldlM (fun aliases p => do
        let key ← keyText p.1
        let target ← text? p.2
        pure (assign aliases key (target.getD ""))) []
  | _ => .ok []

def importsOf (document : Value) : Except Fault Import.Settings := do
  let default : Import.Settings := {}
  let maxFiles := ((field document "imports" "max_files").bind int?).getD default.maxFiles
  if maxFiles < 1 then throw .capBelowOne
  let extensions ← ((field document "imports" "extensions").map fun v =>
    (texts v).map (·.map withDot)).getD (.ok default.extensions)
  let aliases ← ((field document "imports" "aliases").map aliasesOf).getD (.ok [])
  let excludePaths ← ((field document "imports" "exclude_paths").map texts).getD
    (.ok default.excludePaths)
  pure { maxFiles
         extensions
         aliases := if aliases.isEmpty then default.aliases else aliases
         excludePaths }

def contextOf (document : Value) : Context.Settings :=
  let default : Context.Settings := {}
  let size (name : String) (otherwise : Int) : Int :=
    (((field document "context" name).bind int?).map (max 0)).getD otherwise
  { markupWindow := size "markup_window" default.markupWindow
    componentWindow := size "component_window" default.componentWindow
    stylesheetWindow := size "stylesheet_window" default.stylesheetWindow
    sampleLength := size "sample_length" default.sampleLength }

def reportOf (document : Value) : Except Fault Settings.Report := do
  let default : Settings.Report := {}
  let format ← choice ["markdown", "json"] .unknownFormat default.format
    (field document "report" "format")
  let number (name : String) : Option Int := (field document "report" name).bind int?
  pure { format
         autoScanMinutes := ((number "auto_scan_minutes").map clampMinutes).getD
           default.autoScanMinutes
         maxUsages := ((number "max_usages").map (max 1)).getD default.maxUsages }

/-- The settings that a mapping gives. -/
def ofMapping (document : Value) : Except Fault Settings := do
  let default : Settings := {}
  let imports ← importsOf document
  let attributes ← ((field document "themes" "attributes").map texts).getD
    (.ok default.themes.attributes)
  let precedence ← choice ["first", "last"] .unknownPrecedence default.declarations.precedence
    (field document "variables" "precedence")
  let report ← reportOf document
  pure { imports
         context := contextOf document
         themes := ⟨attributes⟩
         declarations := ⟨precedence⟩
         aggregate := ⟨((field document "aggregate" "per_file").bind bool?).getD
           default.aggregate.perFile⟩
         report }

/-- The settings that a value gives; without a value there are none. -/
def ofValue : Value → Except Fault Settings
  | .null => .ok {}
  | .map pairs => ofMapping (.map pairs)
  | _ => .error .notMapping

/-! ## Texts -/

/-- What a text means to a reader; a blank one means nothing. -/
def valueOf (reader : Reader) (cs : List Char) : Except Failure Value :=
  if (trim cs).isEmpty then .ok .null else reader cs

/-- The settings that a text gives. -/
def ofText (reader : Reader) (cs : List Char) : Except Fault Settings := do
  ofValue (← (valueOf reader cs).mapError .unread)

/-- The settings that the bytes of a file give. -/
def ofBytes (reader : Reader) (bytes : List UInt8) : Except Fault Settings := do
  let cs ← (Utf8.decode bytes).mapError .undecodable
  ofText reader (unifyNewlines cs)

end ColorCensus.Settings
