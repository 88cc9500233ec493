import ColorCensus.Number.Binary64

/-!
# What a YAML document means

A document is a value: a scalar, a list, or a mapping, nested in any way. Reading a text as a
document is the business of a `Reader`, and nothing is settled here about the texts that it
accepts. It answers with a value, or it says that the text is no document, or it breaks off in
some other way.
-/

namespace ColorCensus.Yaml

inductive Value where
  | null
  | bool (b : Bool)
  | int (i : Int)
  | float (x : Binary64)
  | text (cs : List Char)
  | binary (bytes : List UInt8)
  /-- A value of any other kind, such as a date or a set, by the way it is written out. -/
  | other (cs : List Char)
  | list (items : List Value)
  | map (pairs : List (Value × Value))
  /-- A collection referred to from inside itself, further down than anything looks. -/
  | enclosing

/-- What a reader comes to if it comes to no value. -/
inductive Failure where
  /-- The text is no document, and the reader says why. -/
  | malformed (problem : String)
  /-- The text is nested more deeply than the reader can follow. -/
  | exhausted (problem : String)
  /-- Anything else that comes up while the values of a document are made. -/
  | broken (problem : String)
deriving DecidableEq

def Failure.message : Failure → String
  | malformed problem | exhausted problem | broken problem => problem

/-- What a text means as a document. -/
abbrev Reader := List Char → Except Failure Value

namespace Value

/-- Whether two scalars are one key of a mapping: numbers that are equal are, even if one of them
is written as a truth value. -/
def isSameKey : Value → Value → Bool
  | null, null => true
  | bool a, bool b => a == b
  | bool a, int b | int b, bool a => a.toInt == b
  | bool a, float b | float b, bool a => b.isInt a.toInt
  | int a, int b => a == b
  | int a, float b | float b, int a => b.isInt a
  | float a, float b => a.isSame b
  | text a, text b => a == b
  | binary a, binary b => a == b
  | other a, other b => a == b
  | _, _ => false

/-- The value of a key that is text. -/
def get? (key : String) : Value → Option Value
  | map pairs => (pairs.find? fun p => p.1.isSameKey (text key.toList)).map (·.2)
  | _ => none

end Value

end ColorCensus.Yaml
