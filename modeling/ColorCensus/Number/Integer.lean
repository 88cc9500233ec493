import ColorCensus.Text.Blank
import ColorCensus.Text.Digit
import ColorCensus.Text.Split

/-!
# Integers in text

How a number is written where a person gives one: blanks around it, a sign, decimal digits of
any script, and single underscores between digits. The information separators of ASCII are no
blanks here, and a number of more than 4300 digits is refused.
-/

namespace ColorCensus.Number

open Text

/-- The value of digits of a base, read from the left. -/
def ofDigits (base : Nat) (digits : List Nat) : Nat := digits.foldl (fun n d => n * base + d) 0

def maxDigits : Nat := 4300

/-- The least number with too many digits. -/
@[irreducible] def tooLong : Nat := Nat.pow 10 maxDigits

/-- Digits with single underscores between them. -/
def natural? (cs : List Char) : Option Nat := do
  let groups := splitOn '_' cs
  if groups.any List.isEmpty then none
  else do
    let digits ← groups.flatten.mapM digit?
    if digits.length ≤ maxDigits then pure (ofDigits 10 digits) else none

/-- A blank around a number. -/
def isPadding (c : Char) : Bool := isBlank c && !(0x1C ≤ c.toNat && c.toNat ≤ 0x1F)

def integer? (cs : List Char) : Option Int :=
  match dropEndWhile isPadding (cs.dropWhile isPadding) with
  | '-' :: cs => (natural? cs).map fun n => -(n : Int)
  | '+' :: cs => (natural? cs).map Int.ofNat
  | cs => (natural? cs).map Int.ofNat

end ColorCensus.Number
