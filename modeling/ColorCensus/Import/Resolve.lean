import ColorCensus.Import.Statement
import ColorCensus.Path.Basic
import ColorCensus.Path.Glob
import ColorCensus.Text.Lowercase

/-!
# Resolving specifiers

From a specifier to the paths it may mean, in the order in which they are tried. A specifier
from the root or under an alias is taken from the workspace, any other from the directory of
the importing file; of several aliases that fit, the longest counts. A specifier without a file
extension is tried with every known extension, first on its own and then as a directory with an
index file.
-/

namespace ColorCensus.Import

open Text

/-- What the import graph follows, and how far. -/
structure Settings where
  maxFiles : Int := 160
  extensions : List String :=
    [".ts", ".tsx", ".js", ".jsx", ".css", ".scss", ".sass", ".less", ".json", ".vue", ".svelte",
      ".html"]
  /-- Prefixes and the directories of the workspace that they stand for. -/
  aliases : List (String × String) := [("@/", ""), ("~/", "")]
  excludePaths : List String := ["node_modules/"]
deriving DecidableEq, Repr

def startsWithAny (beginnings : List String) (cs : List Char) : Bool :=
  beginnings.any fun b => b.toList.isPrefixOf cs

/-- Whether a specifier points into the workspace. -/
def isFollowable (aliases : List (String × String)) (kind : Kind) (specifier : List Char) : Bool :=
  if startsWithAny ["//"] specifier then false
  else startsWithAny ["./", "../", "/"] specifier
    || startsWithAny (aliases.map (·.1)) specifier
    || (kind == .stylesheet && !startsWithAny ["http:", "https:", "data:"] (lower specifier))

/-- Whether a specifier ends in a dot and ASCII letters or digits; a final newline is no part
of the end. -/
def hasExtension (specifier : List Char) : Bool :=
  let ending := match specifier.reverse with
    | '\n' :: rest => rest
    | ending => ending
  let tail := ending.takeWhile isAsciiAlnum
  !tail.isEmpty && (ending.dropWhile isAsciiAlnum).head? == some '.'

/-- The paths to try for a specifier that leads to `base`. -/
def candidatePaths (extensions : List String) (specifier : List Char) (base : Path) : List Path :=
  if hasExtension specifier then [base.canonical]
  else extensions.map (fun e => (base.continued e).canonical) ++
    extensions.map fun e => (base.join (.ofString ("index" ++ e))).canonical

/-- The longest alias that a specifier starts with. -/
def longestAlias? (aliases : List (String × String)) (specifier : List Char) :
    Option (String × String) :=
  (aliases.filter fun a => a.1.toList.isPrefixOf specifier).foldl (fun best a =>
    match best with
    | none => some a
    | some b => if b.1.length < a.1.length then some a else some b) none

/-- The paths that a specifier may mean, written in `importer`; none if it leads nowhere. -/
def candidates (aliases : List (String × String)) (extensions : List String) (workspace : Path)
    (importer : Path) (kind : Kind) (specifier : List Char) : List Path :=
  let specifier := trim specifier
  if startsWithAny ["/"] specifier then
    let below := Path.ofText (specifier.dropWhile (· == '/'))
    candidatePaths extensions specifier (workspace.join below)
  else match longestAlias? aliases specifier with
    | some (name, target) =>
        let below := Path.ofText (specifier.drop name.length)
        candidatePaths extensions specifier ((workspace.join (.ofString target)).join below)
    | none =>
        if startsWithAny ["./", "../"] specifier || kind == .stylesheet then
          candidatePaths extensions specifier (importer.parent.join (.ofText specifier))
        else []

/-- Whether a pattern excludes a path with the given label. A pattern that ends in a slash names
directories; any other is held against the whole label and against the file's name. -/
def excludes (pattern : String) (label : List Char) : Bool :=
  let parts := splitOn '/' label
  if pattern.toList.getLast? == some '/' then
    let directory := dropEndWhile (· == '/') pattern.toList
    parts.dropLast.any fun part => Path.Glob.isMatch directory part
  else
    Path.Glob.isMatch pattern.toList label ||
      Path.Glob.isMatch pattern.toList (parts.getLast?.getD [])

def isExcluded (patterns : List String) (workspace p : Path) : Bool :=
  patterns.any fun pattern => excludes pattern (Path.label workspace p).toList

end ColorCensus.Import
