/-!
# Binary floating point

Numbers of the double format as exact values: a significand of at most 53 bits times a power of
two, an infinity, or no number at all. `round` takes a quotient to the nearest one, a tie going
to the even significand; `shortest` goes back to the fewest decimal digits that `round` to the
number, and of several with as few digits to the nearest.

Written out, a number has a point and at least one digit on each side of it, unless its decimal
exponent is below -4 or above 15: then it is written with an exponent of at least two digits.
-/

namespace ColorCensus

inductive Binary64 where
  | nan
  | infinite (negative : Bool)
  /-- The number `significand · 2 ^ exponent`. -/
  | finite (negative : Bool) (significand : Nat) (exponent : Int)
deriving DecidableEq, Repr

namespace Binary64

/-- A nonnegative quotient of natural numbers. -/
structure Quotient where
  num : Nat
  den : Nat

namespace Quotient

/-- A quotient times a power of a base. -/
def scale (q : Quotient) (base : Nat) (exponent : Int) : Quotient :=
  if 0 ≤ exponent then ⟨q.num * base.pow exponent.toNat, q.den⟩
  else ⟨q.num, q.den * base.pow (-exponent).toNat⟩

def floor (q : Quotient) : Nat := q.num / q.den

/-- The nearest natural number; the even one of two. -/
def nearest (q : Quotient) : Nat :=
  let whole := q.num / q.den
  let twice := 2 * (q.num % q.den)
  if twice < q.den then whole
  else if q.den < twice then whole + 1
  else whole + whole % 2

def add (p q : Quotient) : Quotient := ⟨p.num * q.den + q.num * p.den, p.den * q.den⟩

/-- The exponent of the greatest power of a base that is not above a positive quotient. -/
def log (q : Quotient) (base : Nat) : Int :=
  let k : Int := (Nat.toDigits base q.num).length - (Nat.toDigits base q.den).length
  if (q.scale base (-k)).floor = 0 then k - 1 else k

end Quotient

/-- The number nearest to a quotient. -/
def round (negative : Bool) (q : Quotient) : Binary64 :=
  if q.num = 0 then finite negative 0 0
  else
    let exponent := max (-1074) (q.log 2 - 52)
    let significand := (q.scale 2 (-exponent)).nearest
    let (significand, exponent) :=
      if significand = Nat.pow 2 53 then (Nat.pow 2 52, exponent + 1) else (significand, exponent)
    if exponent > 971 then infinite negative else finite negative significand exponent

/-- The quotient that a finite number is, apart from its sign. -/
def magnitude? : Binary64 → Option Quotient
  | finite _ significand exponent => some (Quotient.scale ⟨significand, 1⟩ 2 exponent)
  | _ => none

/-- A decimal number: `digits · 10 ^ exponent`. -/
structure Decimal where
  digits : Nat
  exponent : Int

def Decimal.quotient (d : Decimal) : Quotient := Quotient.scale ⟨d.digits, 1⟩ 10 d.exponent

/-- The number nearest to a decimal. One that is far too great or too small is not worked out. -/
def ofDecimal (negative : Bool) (d : Decimal) : Binary64 :=
  let magnitude := (Nat.toDigits 10 d.digits).length + d.exponent
  if d.digits = 0 || magnitude < -400 then finite negative 0 0
  else if 400 < magnitude then infinite negative
  else round negative d.quotient

/-- The decimals of a given number of digits next to a positive quotient, the nearer one first;
in a tie the even one. -/
def neighbours (q : Quotient) (digits : Nat) : List Decimal :=
  let exponent := q.log 10 - digits + 1
  let scaled := q.scale 10 (-exponent)
  let below := scaled.floor
  if scaled.nearest = below then [⟨below, exponent⟩, ⟨below + 1, exponent⟩]
  else [⟨below + 1, exponent⟩, ⟨below, exponent⟩]

/-- The shortest decimal that rounds to a positive number; seventeen digits always do. -/
def shortest (q : Quotient) : Decimal :=
  let number := round false q
  let candidates := (List.range 17).flatMap fun n => neighbours q (n + 1)
  (candidates.find? fun d => round false d.quotient = number).getD ⟨0, 0⟩

/-- Leaves out the zeros at the end of the digits. -/
def dropZeros : List Char → List Char := fun ds => (ds.reverse.dropWhile (· == '0')).reverse

def zeros (n : Int) : List Char := List.replicate n.toNat '0'

/-- The text of the digits `0.d₁d₂… · 10 ^ point`. -/
def writeDigits (ds : List Char) (point : Int) : List Char :=
  if point ≤ -4 || 16 < point then
    let exponent := point - 1
    let size := Nat.toDigits 10 exponent.natAbs
    (match ds with
      | [d] => [d]
      | d :: more => d :: '.' :: more
      | [] => []) ++
      ['e', if exponent < 0 then '-' else '+'] ++ zeros (2 - size.length) ++ size
  else if point ≤ 0 then '0' :: '.' :: zeros (-point) ++ ds
  else if ds.length ≤ point then ds ++ zeros (point - ds.length) ++ ['.', '0']
  else ds.take point.toNat ++ '.' :: ds.drop point.toNat

def text : Binary64 → List Char
  | nan => "nan".toList
  | infinite negative => (if negative then ['-'] else []) ++ "inf".toList
  | finite negative significand exponent =>
      (if negative then ['-'] else []) ++
        if significand = 0 then "0.0".toList
        else
          let d := shortest (Quotient.scale ⟨significand, 1⟩ 2 exponent)
          let ds := Nat.toDigits 10 d.digits
          writeDigits (dropZeros ds) (ds.length + d.exponent)

/-- Whether a number is the given integer. -/
def isInt (x : Binary64) (i : Int) : Bool :=
  match x with
  | finite negative significand exponent =>
      let q := Quotient.scale ⟨significand, 1⟩ 2 exponent
      q.num == i.natAbs * q.den && (i == 0 || (i < 0) == negative)
  | _ => false

/-- Whether two numbers are equal in value; no number counts as equal to itself. -/
def isSame (x y : Binary64) : Bool :=
  match x, y with
  | finite _ 0 _, finite _ 0 _ => true
  | _, _ => x == y

end Binary64

end ColorCensus
