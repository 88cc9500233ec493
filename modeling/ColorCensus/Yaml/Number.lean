import ColorCensus.Number.Binary64
import ColorCensus.Text.Split
import ColorCensus.Yaml.Fault
import ColorCensus.Yaml.Scalar

/-!
# Numbers in a YAML document

A plain scalar is a number if it looks like one. Integers are written in base two, eight, ten or
sixteen, or in base sixty with colons between the places; numbers with a point in base ten or
sixty. Underscores may stand among the digits and mean nothing. Each reader answers nothing for
a scalar of other looks.
-/

namespace ColorCensus.Yaml

open Text

/-- A sign in front of a number: whether it is a minus, and the rest. -/
def takeSign : List Char → Bool × List Char
  | '-' :: rest => (true, rest)
  | '+' :: rest => (false, rest)
  | rest => (false, rest)

def isDecimalPart (c : Char) : Bool := isAsciiDigit c || c == '_'

def startsWithDigit (cs : List Char) : Bool := cs.head?.any isAsciiDigit

/-- The value of digits; other characters among them count for nothing. -/
def digitsValue (base : Nat) (cs : List Char) : Nat := Number.ofDigits base (cs.filterMap hexValue?)

/-- A place in base sixty. -/
def isSixtieth : List Char → Bool
  | [d] => isAsciiDigit d
  | [t, d] => '0' ≤ t && t ≤ '5' && isAsciiDigit d
  | _ => false

/-! ## Integers -/

/-- An integer in a base that is marked in front of it. -/
def marked? (base : Nat) (isDigit : Char → Bool) (cs : List Char) : Option (Except Fault Nat) :=
  if cs.isEmpty || !cs.all fun c => isDigit c || c == '_' then none
  else if cs.any isDigit then some (.ok (digitsValue base cs))
  else some (.error (.notInteger base []))

/-- An integer in base ten, or in base sixty if there are colons. -/
def places? (cs : List Char) : Option (Except Fault Nat) :=
  match splitOn ':' cs with
  | [] => none
  | first :: more =>
      if startsWithDigit first && first.all isDecimalPart && more.all isSixtieth then
        let count := (first.filter isAsciiDigit).length
        if Number.maxDigits < count then some (.error (.tooManyDigits count))
        else some (.ok (more.foldl (fun n place => n * 60 + digitsValue 10 place)
          (digitsValue 10 first)))
      else none

def natural? : List Char → Option (Except Fault Nat)
  | '0' :: 'b' :: cs => marked? 2 (fun c => c == '0' || c == '1') cs
  | '0' :: 'x' :: cs => marked? 16 isHexDigit cs
  | '0' :: cs => if cs.all fun c => ('0' ≤ c && c ≤ '7') || c == '_' then
      some (.ok (digitsValue 8 cs)) else none
  | cs => places? cs

def integer? (cs : List Char) : Option (Except Fault Int) :=
  let (negative, cs) := takeSign cs
  (natural? cs).map fun n => n.map fun n => if negative then -(n : Int) else n

/-! ## Numbers with a point -/

/-- The exponent of a number with a point; the sign must be written. -/
def exponent? : List Char → Option Int
  | [] => some 0
  | [_] => none
  | e :: sign :: ds =>
      if (e == 'e' || e == 'E') && (sign == '+' || sign == '-') && !ds.isEmpty &&
          ds.all isAsciiDigit then
        let n : Int := digitsValue 10 ds
        some (if sign == '-' then -n else n)
      else none

/-- A decimal with a point. Without digits in front of the point there is no sign. -/
def decimal? (signed : Bool) (cs : List Char) : Option Binary64.Decimal :=
  let whole := cs.takeWhile isDecimalPart
  match cs.dropWhile isDecimalPart with
  | '.' :: rest =>
      let part := rest.takeWhile isDecimalPart
      if startsWithDigit whole || (whole.isEmpty && !signed && startsWithDigit part) then
        (exponent? (rest.dropWhile isDecimalPart)).map fun e =>
          ⟨digitsValue 10 (whole ++ part), e - (part.filter isAsciiDigit).length⟩
      else none
  | _ => none

/-- The places of a number with a point in base sixty; only the last one has a point. -/
def sixtieths? (cs : List Char) : Option (List Binary64.Decimal) :=
  match splitOn '.' cs with
  | [front, part] =>
      match splitOn ':' front with
      | first :: more =>
          if startsWithDigit first && first.all isDecimalPart && !more.isEmpty &&
              more.all isSixtieth && part.all isDecimalPart then
            let whole := ((first :: more).map (digitsValue 10)).dropLast.map (⟨·, 0⟩)
            some (whole ++ [⟨digitsValue 10 ((more.getLast?.getD []) ++ part),
              -(part.filter isAsciiDigit).length⟩])
          else none
      | [] => none
  | _ => none

/-- The sum of places in base sixty, rounded at each step from the last place to the first. -/
def sumOfSixtieths (negative : Bool) (places : List Binary64.Decimal) : Binary64 :=
  let sum := places.reverse.zipIdx.foldlM (fun sum (d, k) => do
    let q ← (Binary64.ofDecimal false d).magnitude?
    let term ← (Binary64.round false ⟨q.num * Nat.pow 60 k, q.den⟩).magnitude?
    (Binary64.round false (sum.add term)).magnitude?) (⟨0, 1⟩ : Binary64.Quotient)
  match sum with
  | some q => Binary64.round negative q
  | none => .infinite negative

def infinities : List (List Char) := [".inf".toList, ".Inf".toList, ".INF".toList]

def noNumbers : List (List Char) := [".nan".toList, ".NaN".toList, ".NAN".toList]

def float? (cs : List Char) : Option Binary64 :=
  let (negative, rest) := takeSign cs
  if infinities.contains rest then some (.infinite negative)
  else if noNumbers.contains cs then some .nan
  else match decimal? (rest.length < cs.length) rest with
  | some d => some (.ofDecimal negative d)
  | none => (sixtieths? rest).map (sumOfSixtieths negative)

end ColorCensus.Yaml
