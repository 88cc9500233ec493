import ColorCensus.Path.Basic
import ColorCensus.Text.Lines
import ColorCensus.Text.Lowercase
import ColorCensus.Text.Utf8

/-!
# The host of a pass

All that a pass wants to know from outside: whether a path is a file, what text it holds, and
how it is named in reports. The host is asked in some monad, so that the same pass runs over a
fixed tree, over a tree that keeps a record of the questions, and over a disk.
-/

namespace ColorCensus

/-- Why a file could not be read. -/
inductive ReadFault where
  | unavailable (reason : String)
  | undecodable (fault : Text.Utf8.Fault)
deriving DecidableEq, Repr

def ReadFault.message : ReadFault → String
  | unavailable reason => reason
  | undecodable fault => fault.message

structure Host (m : Type → Type) where
  isFile : Path → m Bool
  read : Path → m (Except ReadFault (List Char))
  /-- The name of a path in the reports of a workspace. -/
  label : Path → Path → String := Path.label

/-- A file visited by a pass, with the table of its lines; without text if it could not be
read, and then as good as empty. -/
structure Source where
  path : Path
  label : String
  text : Option (List Char)
  index : Text.LineIndex := .ofText (text.getD [])
  index_eq : index = .ofText (text.getD []) := by rfl

namespace Source

def isReadable (s : Source) : Bool := s.text.isSome

/-- The file's extension with its dot, in lower case. -/
def suffix (s : Source) : List Char := Text.lower s.path.suffix

end Source

end ColorCensus
