import ColorCensus.Text.Token
import ColorCensus.Yaml.Basic
import ColorCensus.Yaml.Moment
import ColorCensus.Yaml.Node

/-!
# Values of a YAML document

What a document means. A scalar without a tag and without quotes means what it looks like; any
other is text, unless its tag says otherwise. A mapping keeps its keys in the order in which
they first appear, each with the value given last, and numbers that are equal are one key even
if one of them is written as a truth value. The pairs that a merge key brings in stand in front
of those a mapping has itself.
-/

namespace ColorCensus.Yaml

open Text

/-! ## Scalars -/

/-- The spellings of a word that counts in lower case, capitalised, or in upper case. -/
def spellings (lower title upper : String) : List (List Char) :=
  [lower.toList, title.toList, upper.toList]

def yes : List (List Char) :=
  spellings "yes" "Yes" "YES" ++ spellings "true" "True" "TRUE" ++ spellings "on" "On" "ON"

def no : List (List Char) :=
  spellings "no" "No" "NO" ++ spellings "false" "False" "FALSE" ++ spellings "off" "Off" "OFF"

def nulls : List (List Char) := [] :: ['~'] :: spellings "null" "Null" "NULL"

def bool? (cs : List Char) : Option Bool :=
  if yes.contains cs then some true else if no.contains cs then some false else none

/-- The key that merges other mappings into its own. -/
def mergeKey : List Char := ['<', '<']

/-- The key of a mapping's own value. -/
def valueKey : List Char := ['=']

namespace Value

/-- What a plain scalar looks like. -/
def ofLooks (cs : List Char) : Except Fault Value :=
  if nulls.contains cs then .ok null
  else if cs == mergeKey || cs == valueKey then .error (.problem .unknownTag)
  else match bool? cs, integer? cs, float? cs, moment? cs with
    | some b, _, _, _ => .ok (bool b)
    | _, some i, _, _ => i.map int
    | _, _, some x, _ => .ok (float x)
    | _, _, _, some m => m.map other
    | _, _, _, _ => .ok (text cs)

/-- The scalar of a given tag. -/
def ofTag (tag cs : List Char) : Except Fault Value :=
  match (dropLiteral? coreTag tag).map String.ofList with
  | some "str" => .ok (text cs)
  | some "null" => .ok null
  | some "bool" =>
      match bool? cs with
      | some b => .ok (bool b)
      | none => .error (.problem .unknownTag)
  | some "int" => ((integer? cs).getD (.error (.notInteger 10 cs))).map int
  | some "float" =>
      match (float? cs).or (float? (cs ++ ['.'])) with
      | some x => .ok (float x)
      | none => .error (.notNumber cs)
  | some "timestamp" => ((moment? cs).getD (.error (.problem .unknownTag))).map other
  | _ => .error (.problem .unknownTag)

def ofScalar (tag : Option (List Char)) (cs : List Char) (plain : Bool) : Except Fault Value :=
  match tag with
  | some tag => ofTag tag cs
  | none => if plain then ofLooks cs else .ok (text cs)

/-! ## Mappings -/

def isCollection : Value → Bool
  | list _ | map _ | enclosing => true
  | _ => false

/-- Gives a key a value; a key that is there already stays where it is and as it is written. -/
def insert (key value : Value) : List (Value × Value) → List (Value × Value)
  | [] => [(key, value)]
  | (k, v) :: rest =>
      if k.isSameKey key then (k, value) :: rest else (k, v) :: insert key value rest

def insertAll (pairs more : List (Value × Value)) : List (Value × Value) :=
  more.foldl (fun pairs p => insert p.1 p.2 pairs) pairs

/-! ## Documents -/

/-- Whether a collection may have a tag: only that of its own kind. -/
def hasKind (kind : String) (tag : Option (List Char)) : Bool :=
  tag.all fun t => dropLiteral? coreTag t == some kind.toList

/-- Whether a key is one that means something by itself: not in quotes and without a tag. -/
def isSpecialKey (special : List Char) : Node → Bool
  | .scalar none cs plain => plain && cs == special
  | _ => false

mutual

def ofNode : Node → Except Fault Value
  | .scalar tag cs plain => ofScalar tag cs plain
  | .sequence tag items =>
      if hasKind "seq" tag then (ofItems items).map list else .error (.problem .unknownTag)
  | .mapping tag pairs =>
      if hasKind "map" tag then (ofPairs pairs).map fun ps => map (insertAll [] (ps.1 ++ ps.2))
      else .error (.problem .unknownTag)
  | .enclosing _ => .ok enclosing

def ofItems : List Node → Except Fault (List Value)
  | [] => .ok []
  | n :: rest => do
      let item ← ofNode n
      let items ← ofItems rest
      pure (item :: items)

/-- The pairs merged into a mapping, and its own. -/
def ofPairs : List (Node × Node) → Except Fault (List (Value × Value) × List (Value × Value))
  | [] => .ok ([], [])
  | (k, v) :: rest =>
      if isSpecialKey mergeKey k then do
        let more ← merged v
        let (front, own) ← ofPairs rest
        pure (more ++ front, own)
      else do
        let key ← if isSpecialKey valueKey k then pure (text valueKey) else ofNode k
        if key.isCollection then throw (.problem .unusableKey)
        let value ← ofNode v
        let (front, own) ← ofPairs rest
        pure (front, (key, value) :: own)

/-- The pairs that the value of a merge key brings in; a collection brings nothing into itself. -/
def merged : Node → Except Fault (List (Value × Value))
  | .mapping _ pairs => (ofPairs pairs).map fun ps => ps.1 ++ ps.2
  | .sequence _ items => mergedAll items
  | .enclosing _ => .ok []
  | .scalar .. => .error (.problem .unusableMerge)

/-- The pairs of several mappings, those of the last one in front. -/
def mergedAll : List Node → Except Fault (List (Value × Value))
  | [] => .ok []
  | .mapping _ pairs :: rest => do
      let (front, own) ← ofPairs pairs
      let more ← mergedAll rest
      pure (more ++ (front ++ own))
  | .enclosing _ :: rest => mergedAll rest
  | _ => .error (.problem .unusableMerge)

end

/-- The value of a text; that of a text without a document is null. -/
def ofDocument (cs : List Char) : Except Fault Value :=
  match Node.ofText? cs with
  | .error p => .error (.problem p)
  | .ok none => .ok null
  | .ok (some n) => ofNode n

end Value

/-- The reader that the program goes by. -/
def read : Reader := fun cs => (Value.ofDocument cs).mapError fun
  | .problem p => .malformed p.message
  | fault => .broken fault.message

end ColorCensus.Yaml
